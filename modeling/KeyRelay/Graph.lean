import KeyRelay.Rate
import KeyRelay.Table

/-!
The controller's view of the network: the registered nodes, the links between them as edges
keyed by their two ends in ascending order, each edge's capacity window and reserved rate, and
a table of shortest paths. The table holds, for every pair of connected nodes, the breadth-first
path that visits neighbours in ascending order; a node's path to itself is the node alone.

Without an expected size the table is rebuilt on every change of topology. With an expected
node or link count it is built once, when the counts are first reached, and then kept as it is.
-/
namespace KeyRelay

/-- The rates a session holds on the edges of its path, first edge first. -/
structure Reservation (R : Type) where
  path : List KmeId
  demand : List R
deriving Repr, Inhabited

/-- The consecutive pairs of a path. -/
def Reservation.edges {R : Type} (r : Reservation R) : List (KmeId × KmeId) := r.path.zip r.path.tail

/-- A link between two nodes. -/
structure Edge (R : Type) where
  link : LinkId
  window : CapacityWindow R
  reserved : R
deriving Inhabited

namespace Edge

variable {R : Type} [RateArith R]

/-- The capacity at `now`: the least live rate sample. -/
def capacity (e : Edge R) (now : Nat) : Except Abort R := e.window.estimate now

/-- The capacity left at `now` after the reservations. -/
def headroom (e : Edge R) (now : Nat) : Except Abort R := do
  pure ((← e.capacity now) - e.reserved)

end Edge

/-- The ends of an edge in ascending order. -/
def edgeKey (a b : KmeId) : KmeId × KmeId := if a.val ≤ b.val then (a, b) else (b, a)

/-- The nodes, edges and path table. Instants are milliseconds. -/
structure Graph (R : Type) where
  windowMs : Nat
  intervalMs : Nat
  expectedNodes : Option Nat := none
  expectedLinks : Option Nat := none
  nodes : Table KmeId String := {}
  /-- The neighbours of each node. -/
  adjacency : Table KmeId (List KmeId) := {}
  edges : Table (KmeId × KmeId) (Edge R) := {}
  links : Table LinkId (KmeId × KmeId) := {}
  paths : Option (Table (KmeId × KmeId) (List KmeId)) := none
deriving Inhabited

namespace Graph

variable {R : Type}

/-- The neighbours of a node, ascending. -/
def neighbours (g : Graph R) (k : KmeId) : List KmeId := sortedBy (·.val) ((g.adjacency.get? k).getD [])

/-- Breadth-first search: the parent of each node reached, the start being its own parent.
Each node joins the queue once, so the fuel of one step per node suffices. -/
def search (g : Graph R) : Nat → List KmeId → Table KmeId KmeId → Table KmeId KmeId
  | 0, _, parent => parent
  | _, [], parent => parent
  | fuel + 1, node :: queue, parent =>
    let (parent, queue) := (g.neighbours node).foldl (fun (p, q) next =>
      if p.contains next then (p, q) else (p.insert next node, q ++ [next])) (parent, queue)
    g.search fuel queue parent

/-- The path from the start to `dst` along the parents, start first. -/
def trace (src : KmeId) (parent : Table KmeId KmeId) : Nat → KmeId → List KmeId → List KmeId
  | 0, _, acc => acc
  | fuel + 1, at_, acc =>
    if at_ = src then acc
    else match parent.get? at_ with
      | some prev => trace src parent fuel prev (prev :: acc)
      | none => acc

/-- The shortest path between every two connected nodes. -/
def allPairs (g : Graph R) : Table (KmeId × KmeId) (List KmeId) :=
  let starts := sortedBy (·.val) g.adjacency.keys
  starts.foldl (fun table src =>
    let parent := g.search (g.adjacency.size + 1) [src] (Table.empty.insert src src)
    parent.keys.foldl (fun table dst =>
      table.insert (src, dst) (trace src parent (parent.size + 1) dst [dst])) table) {}

/-- Rebuilds the path table after a change, as the expected size says. -/
def topologyChanged (g : Graph R) : Graph R :=
  match g.expectedNodes, g.expectedLinks with
  | none, none => { g with paths := some g.allPairs }
  | nodes, links =>
    let complete := (nodes.all fun n => g.nodes.size ≥ n) && (links.all fun l => g.edges.size ≥ l)
    if complete && g.paths.isNone then { g with paths := some g.allPairs } else g

/-- Registers a node at an address; a known node only changes address. -/
def addNode (g : Graph R) (k : KmeId) (address : String) : Bool × Graph R :=
  if g.nodes.contains k then (false, { g with nodes := g.nodes.insert k address })
  else
    let g := { g with nodes := g.nodes.insert k address,
                      adjacency := if g.adjacency.contains k then g.adjacency else g.adjacency.insert k [] }
    (true, g.topologyChanged)

/-- The address of a node. -/
def address (g : Graph R) (k : KmeId) : Option String := g.nodes.get? k

/-- Adds a neighbour to a node's set. -/
def link (adj : Table KmeId (List KmeId)) (a b : KmeId) : Table KmeId (List KmeId) :=
  let ns := (adj.get? a).getD []
  adj.insert a (if ns.contains b then ns else ns ++ [b])

/-- Adds a link between two registered nodes, with its first rate sample. -/
def addEdge [RateArith R] (g : Graph R) (link : LinkId) (a b : KmeId) (t : Nat) (rate : R) :
    Except Halt (Graph R) := do
  for k in [a, b] do
    if !g.nodes.contains k then throw (.fault (.invalid (.unregistered k)))
  if a = b then throw (.fault (.invalid (.loop link a)))
  let key := edgeKey a b
  if let some existing := g.edges.get? key then
    throw (.fault (.invalid (.linked a b existing.link)))
  let window ← Halt.ofAbort (CapacityWindow.spanning g.windowMs g.intervalMs)
  let window := window.startAt t rate
  let g := { g with edges := g.edges.insert key ⟨link, window, 0⟩,
                    links := g.links.insert link key,
                    adjacency := Graph.link (Graph.link g.adjacency a b) b a }
  pure g.topologyChanged

/-- The two ends of a link. -/
def linkEnds (g : Graph R) (link : LinkId) : Option (KmeId × KmeId) := g.links.get? link

/-- The edge between two nodes. -/
def edge (g : Graph R) (a b : KmeId) : Option (Edge R) := g.edges.get? (edgeKey a b)

/-- Adds a rate sample to a link's edge; the link must be known. -/
def record (g : Graph R) (link : LinkId) (t : Nat) (rate : R) : Except Halt (Graph R) := do
  let some key := g.links.get? link | throw (.fault (.invalid (.unconfirmed link)))
  match g.edges.get? key with
  | none => pure g
  | some e =>
    let window ← Halt.ofAbort (e.window.record t rate)
    pure { g with edges := g.edges.insert key { e with window } }

/-- The path table is built. -/
def hasPaths (g : Graph R) : Bool := g.paths.isSome

/-- The shortest path between two nodes, when the table is built. -/
def shortestPath (g : Graph R) (src dst : KmeId) : Option (List KmeId) := do
  (← g.paths).get? (src, dst)

/-- The demands along a path, checked against each edge's headroom at `now`; a relayed path
also carries `overhead` on its first edge. -/
def demands [RateArith R] (g : Graph R) (src dst : KmeId) (rate overhead : R) (now : Nat)
    (relay : Bool) : Nat → List (KmeId × KmeId) → Except Halt (List R)
  | _, [] => pure []
  | i, (a, b) :: rest => do
    let requested := if i = 0 && relay then rate + overhead else rate
    let some e := g.edge a b | throw (.fault (.rejected src dst .noRoute))
    let headroom ← Halt.ofAbort (e.headroom now)
    if RateArith.lt headroom requested then
      throw (.fault (.rejected src dst
        (.capacity a b (RateArith.toFloat requested) (RateArith.toFloat headroom))))
    pure (requested :: (← g.demands src dst rate overhead now relay (i + 1) rest))

/-- The shortest path from `src` to `dst` with the demands it would reserve, if every edge has
the headroom. -/
def findPath [RateArith R] (g : Graph R) (src dst : KmeId) (rate overhead : R) (now : Nat) :
    Except Halt (Reservation R) := do
  let some paths := g.paths | throw (.fault (.rejected src dst .topologyIncomplete))
  let some path := paths.get? (src, dst) | throw (.fault (.rejected src dst .noRoute))
  let demand ← g.demands src dst rate overhead now (path.length > 2) 0 (path.zip path.tail)
  pure ⟨path, demand⟩

/-- Changes the reserved rate of each edge of a reservation. -/
def adjust (g : Graph R) (r : Reservation R) (f : R → R → R) : Graph R :=
  (r.edges.zip r.demand).foldl (fun g ((a, b), rate) =>
    { g with edges := g.edges.modify (edgeKey a b) fun e => { e with reserved := f e.reserved rate } }) g

/-- Holds a reservation's rates. -/
def reserve [RateArith R] (g : Graph R) (r : Reservation R) : Graph R := g.adjust r (· + ·)

/-- Gives back a reservation's rates, never below zero. -/
def release [RateArith R] (g : Graph R) (r : Reservation R) : Graph R :=
  g.adjust r fun reserved rate => RateArith.greatest (reserved - rate) 0

/-- The edges by ascending ends. -/
def sortedEdges (g : Graph R) : List ((KmeId × KmeId) × Edge R) :=
  sortedBy2 (fun e => (e.1.1.val, e.1.2.val)) g.edges.entries

end Graph

end KeyRelay
