import KeyRelay.Proofs.Layers
import KeyRelay.Proofs.Bookkeeping

/-!
The path table along the life of a graph. A graph changes by registering nodes and adding links,
which run the table's rebuild rule, and by rate samples and reservations, which only change what
its edges hold (`Graph.Change`). Along every run from an empty graph:

* without expected counts the table is rebuilt at every registration and every new link, so from
  the first node on it is the table of the graph as it is;
* with expected counts the table exists exactly when the counts are met and a node is registered:
  it is built by the first registration or new link that leaves the counts met, not when they are
  met before any change, and it never changes afterwards;
* the table is that of a graph the run went through. From each node of that graph it holds a
  path to exactly the nodes a chain of edges reached, a shortest such chain, each hop an edge of
  the graph as it is now (`Graph.Charts`).
-/
namespace KeyRelay

theorem edgeKey_eq_iff {a b x y : KmeId} : edgeKey a b = edgeKey x y ↔ (x = a ∧ y = b) ∨ (x = b ∧ y = a) := by
  constructor
  · intro same
    rcases edgeKey_eq same with ⟨rfl, rfl⟩ | ⟨rfl, rfl⟩
    · exact .inl ⟨rfl, rfl⟩
    · exact .inr ⟨rfl, rfl⟩
  · rintro (⟨rfl, rfl⟩ | ⟨rfl, rfl⟩)
    · rfl
    · exact edgeKey_comm _ _

namespace Graph

variable {R : Type}

/-! ### The rebuild rule -/

/-- The expected counts are met. -/
def Complete (g : Graph R) : Prop :=
  (∀ n ∈ g.expectedNodes, n ≤ g.nodes.size) ∧ ∀ l ∈ g.expectedLinks, l ≤ g.edges.size

theorem complete_iff (g : Graph R) :
    ((g.expectedNodes.all fun n => g.nodes.size ≥ n) && (g.expectedLinks.all fun l => g.edges.size ≥ l)) = true ↔
      g.Complete := by
  unfold Complete
  cases g.expectedNodes <;> cases g.expectedLinks <;> simp

/-- More nodes and edges under the same expected counts keep them met. -/
theorem Complete.mono {g g' : Graph R} (complete : g.Complete) (nodes : g'.expectedNodes = g.expectedNodes)
    (links : g'.expectedLinks = g.expectedLinks) (more : g.nodes.size ≤ g'.nodes.size)
    (wider : g.edges.size ≤ g'.edges.size) : g'.Complete := by
  refine ⟨fun n inside => ?_, fun l inside => ?_⟩
  · rw [nodes] at inside
    exact (complete.1 n inside).trans more
  · rw [links] at inside
    exact (complete.2 l inside).trans wider

/-- The rule changes the table and nothing else. -/
theorem topologyChanged_eq (g : Graph R) : g.topologyChanged = { g with paths := g.topologyChanged.paths } := by
  unfold topologyChanged
  split
  · rfl
  · dsimp only
    split <;> rfl

/-- Without expected counts the table is rebuilt. -/
theorem topologyChanged_free {g : Graph R} (free : g.expectedNodes = none ∧ g.expectedLinks = none) :
    g.topologyChanged.paths = some g.allPairs := by
  unfold topologyChanged
  rw [free.1, free.2]

/-- With expected counts a table once built stays. -/
theorem topologyChanged_built {g : Graph R} (counted : ¬(g.expectedNodes = none ∧ g.expectedLinks = none))
    (built : g.paths.isSome) : g.topologyChanged.paths = g.paths := by
  unfold topologyChanged
  split
  · rename_i nodes links
    exact absurd ⟨nodes, links⟩ counted
  · dsimp only
    split
    · rename_i complete
      simp [Option.isSome_iff_ne_none.mp built] at complete
    · rfl

/-- With expected counts and no table yet, the table is built exactly when the counts are met. -/
theorem topologyChanged_counted {g : Graph R} (counted : ¬(g.expectedNodes = none ∧ g.expectedLinks = none))
    (absent : g.paths = none) :
    (g.topologyChanged.paths = some g.allPairs ∧ g.Complete) ∨ (g.topologyChanged.paths = none ∧ ¬g.Complete) := by
  unfold topologyChanged
  split
  · rename_i nodes links
    exact absurd ⟨nodes, links⟩ counted
  · dsimp only
    split
    · rename_i complete
      simp only [absent, Option.isNone_none, Bool.and_true] at complete
      exact .inl ⟨rfl, (complete_iff g).mp complete⟩
    · rename_i incomplete
      simp only [absent, Option.isNone_none, Bool.and_true, Bool.not_eq_true] at incomplete
      refine .inr ⟨absent, fun complete => ?_⟩
      rw [← complete_iff g, incomplete] at complete
      cases complete

/-- The rule leaves the table or builds it from the graph. -/
theorem topologyChanged_table (g : Graph R) :
    g.topologyChanged.paths = g.paths ∨ g.topologyChanged.paths = some g.allPairs := by
  unfold topologyChanged
  split
  · exact .inr rfl
  · dsimp only
    split
    · exact .inr rfl
    · exact .inl rfl

/-! ### What a change can do -/

/-- Adds a neighbour to the list of `a`. -/
theorem mem_link {adj : Table KmeId (List KmeId)} {a b x y : KmeId} :
    y ∈ ((Graph.link adj a b).get? x).getD [] ↔ y ∈ (adj.get? x).getD [] ∨ (x = a ∧ y = b) := by
  unfold Graph.link
  rw [Table.get?_insert]
  by_cases here : a = x
  · subst here
    by_cases held : ((adj.get? a).getD []).contains b
    · have inside : b ∈ (adj.get? a).getD [] := by simpa using held
      simp only [if_true, held, Option.getD_some]
      constructor
      · exact fun member => .inl member
      · rintro (member | ⟨-, rfl⟩)
        · exact member
        · exact inside
    · have outside : b ∉ (adj.get? a).getD [] := by simpa using held
      simp [outside]
  · simp [here, Ne.symm here]

theorem link_isSome {adj : Table KmeId (List KmeId)} {a b x : KmeId} :
    ((Graph.link adj a b).get? x).isSome ↔ x = a ∨ (adj.get? x).isSome := by
  unfold Graph.link
  rw [Table.get?_insert]
  by_cases here : a = x
  · simp [here]
  · simp [here, Ne.symm here]

/-- One change of a graph, in the form it takes the fields: the values of its edges change (rate
samples, reservations); a registered node changes address; a new node is registered, with an
empty list, and the rebuild rule runs; or an edge joins two registered nodes that had none, and
the rule runs. -/
inductive Change (g : Graph R) : Graph R → Prop
  | reweigh {table : Table (KmeId × KmeId) (Edge R)} : table.size = g.edges.size →
      (∀ key, (table.get? key).isSome = (g.edges.get? key).isSome) → Change g { g with edges := table }
  | readdress {k : KmeId} (address : String) : (g.nodes.get? k).isSome →
      Change g { g with nodes := g.nodes.insert k address }
  | register {k : KmeId} (address : String) : g.nodes.get? k = none →
      Change g
        { g with
          nodes := g.nodes.insert k address
          adjacency := if g.adjacency.contains k then g.adjacency else g.adjacency.insert k [] }.topologyChanged
  | connect (link : LinkId) {a b : KmeId} (e : Edge R) : (g.nodes.get? a).isSome → (g.nodes.get? b).isSome →
      a ≠ b → g.edges.get? (edgeKey a b) = none →
      Change g
        { g with
          edges := g.edges.insert (edgeKey a b) e
          links := g.links.insert link (edgeKey a b)
          adjacency := Graph.link (Graph.link g.adjacency a b) b a }.topologyChanged

theorem addNode_change (g : Graph R) (k : KmeId) (address : String) : Change g (g.addNode k address).2 := by
  unfold addNode
  split
  · rename_i present
    exact .readdress address (by rwa [← Table.contains_eq_isSome])
  · rename_i absent
    exact .register address (Table.get?_eq_none_of_contains _ _ (by simpa using absent))

theorem addEdge_change [RateArith R] {g g' : Graph R} {link : LinkId} {a b : KmeId} {t : Nat} {rate : R}
    (ok : g.addEdge link a b t rate = .ok g') : Change g g' := by
  obtain ⟨left, right, distinct, absent, w, rfl⟩ := addEdge_eq ok
  exact .connect link _ left right distinct absent

theorem record_change {g g' : Graph R} {link : LinkId} {t : Nat} {rate : R} (ok : g.record link t rate = .ok g') :
    Change g g' := by
  unfold record at ok
  cases linked : g.links.get? link with
  | none => simp [linked] at ok
  | some key =>
    cases found : g.edges.get? key with
    | none =>
      simp only [linked, found] at ok
      cases ok
      exact .reweigh rfl fun _ => rfl
    | some e =>
      cases window : Halt.ofAbort (e.window.record t rate) with
      | error h => simp [linked, found, window] at ok
      | ok w =>
        simp only [linked, found, window] at ok
        cases ok
        have present : (g.edges.get? key).isSome := by simp [found]
        refine .reweigh (Table.size_insert_of_present present _) fun j => ?_
        rw [Table.get?_insert]
        split
        · rename_i same
          subst same
          simp [found]
        · rfl

/-- Reserved rates change the values of the edges along a path, one after another. -/
theorem adjust_eq (g : Graph R) (r : Reservation R) (f : R → R → R) :
    g.adjust r f =
      { g with
        edges := (r.edges.zip r.demand).foldl
          (fun table p => table.modify (edgeKey p.1.1 p.1.2) fun e => { e with reserved := f e.reserved p.2 })
          g.edges } := by
  unfold adjust
  generalize r.edges.zip r.demand = pairs
  induction pairs generalizing g with
  | nil => rfl
  | cons p rest ih =>
    obtain ⟨⟨a, b⟩, rate⟩ := p
    rw [List.foldl_cons, ih]
    rfl

theorem adjust_change (g : Graph R) (r : Reservation R) (f : R → R → R) : Change g (g.adjust r f) := by
  have size : ∀ (pairs : List ((KmeId × KmeId) × R)) (table : Table (KmeId × KmeId) (Edge R)),
      (pairs.foldl (fun table p => table.modify (edgeKey p.1.1 p.1.2)
        fun e => { e with reserved := f e.reserved p.2 }) table).size = table.size := by
    intro pairs
    induction pairs with
    | nil => exact fun _ => rfl
    | cons p rest ih => exact fun table => by rw [List.foldl_cons, ih, Table.size_modify]
  have present : ∀ key, ((g.adjust r f).edges.get? key).isSome = (g.edges.get? key).isSome := by
    intro key
    rw [adjust_edges, Option.isSome_map]
  rw [adjust_eq] at present ⊢
  exact .reweigh (size _ _) present

variable {g g' : Graph R}

/-- A change never removes an edge. -/
theorem Change.edge_mono (change : Change g g') {a b : KmeId} (linked : (g.edge a b).isSome) :
    (g'.edge a b).isSome := by
  cases change with
  | reweigh _ present => simpa [edge, present] using linked
  | readdress => exact linked
  | register => rwa [edge, topologyChanged_edges]
  | connect =>
    rw [edge, topologyChanged_edges]
    exact Table.isSome_get?_insert linked _ _

/-- A change keeps the adjacency lists the edges of the graph. -/
theorem Change.shaped (change : Change g g') (shaped : g.Shaped) : g'.Shaped := by
  cases change with
  | reweigh _ present =>
    exact ⟨shaped.keyed, shaped.registered, fun a b => by simpa [edge, present] using shaped.adjacent a b⟩
  | readdress address present =>
    refine ⟨shaped.keyed, fun x => ?_, shaped.adjacent⟩
    rw [shaped.registered x, Table.get?_insert]
    split
    · rename_i same
      subst same
      simp [present]
    · rfl
  | @register k address absent =>
    rw [topologyChanged_eq]
    -- a node that was not registered had no list and no edge
    have unfiled : g.adjacency.get? k = none := by
      have := (shaped.registered k).not.mpr (by simp [absent])
      simpa using this
    have lonely : g.adjacency.contains k = false := by simp [Table.contains_eq_isSome, unfiled]
    simp only [lonely, Bool.false_eq_true, if_false]
    refine ⟨Table.keysNodup_insert shaped.keyed k [], fun x => ?_, fun a b => ?_⟩
    · simp only [Table.get?_insert]
      split
      · rfl
      · exact shaped.registered x
    · simp only [Table.get?_insert, edge]
      split
      · rename_i same
        subst same
        have bare := (shaped.adjacent k b).not.mp (by simp [unfiled])
        simpa [edge] using bare
      · exact shaped.adjacent a b
  | @connect link a b e left right distinct absent =>
    rw [topologyChanged_eq]
    refine ⟨Table.keysNodup_insert (Table.keysNodup_insert shaped.keyed _ _) _ _, fun x => ?_, fun x y => ?_⟩
    · simp only [link_isSome, shaped.registered]
      constructor
      · rintro (rfl | rfl | known)
        · exact right
        · exact left
        · exact known
      · exact fun known => .inr (.inr known)
    · simp only [mem_link, shaped.adjacent, edge, Table.get?_insert]
      by_cases same : edgeKey a b = edgeKey x y
      · have ends := edgeKey_eq_iff.mp same
        simp only [same, if_true, Option.isSome_some, iff_true]
        rcases ends with ⟨rfl, rfl⟩ | ⟨rfl, rfl⟩
        · exact .inl (.inr ⟨rfl, rfl⟩)
        · exact .inr ⟨rfl, rfl⟩
      · have apart := mt edgeKey_eq_iff.mpr same
        simp only [same, if_false]
        constructor
        · rintro ((linked | ends) | ends)
          · exact linked
          · exact absurd (.inl ends) apart
          · exact absurd (.inr ends) apart
        · exact fun linked => .inl (.inl linked)

/-- `g'` has the table, the lists, the sizes and the expected counts of `g`. -/
structure Keeps (g g' : Graph R) : Prop where
  paths : g'.paths = g.paths
  adjacency : g'.adjacency = g.adjacency
  nodes : g'.nodes.size = g.nodes.size
  edges : g'.edges.size = g.edges.size
  expectedNodes : g'.expectedNodes = g.expectedNodes
  expectedLinks : g'.expectedLinks = g.expectedLinks

/-- `g₁` is `g` with a node or an edge added, its table and expected counts not yet touched. -/
structure Extends (g g₁ : Graph R) : Prop where
  paths : g₁.paths = g.paths
  expectedNodes : g₁.expectedNodes = g.expectedNodes
  expectedLinks : g₁.expectedLinks = g.expectedLinks
  nodes : g.nodes.size ≤ g₁.nodes.size
  edges : g.edges.size ≤ g₁.edges.size
  occupied : 0 < g₁.nodes.size

theorem Keeps.complete (keeps : g.Keeps g') : g'.Complete ↔ g.Complete := by
  unfold Complete
  rw [keeps.nodes, keeps.edges, keeps.expectedNodes, keeps.expectedLinks]

/-- The rule leaves everything but the table. -/
theorem Extends.rebuilt {g₁ : Graph R} (extends_ : g.Extends g₁) :
    g₁.topologyChanged.expectedNodes = g.expectedNodes ∧ g₁.topologyChanged.expectedLinks = g.expectedLinks ∧
      (g₁.topologyChanged.Complete ↔ g₁.Complete) ∧ g₁.topologyChanged.nodes.size = g₁.nodes.size ∧
      g₁.topologyChanged.allPairs = g₁.allPairs := by
  rw [topologyChanged_eq]
  exact ⟨extends_.expectedNodes, extends_.expectedLinks, Iff.rfl, rfl, allPairs_of_adjacency _ rfl⟩

/-- A change either keeps the table, the lists and the counts, or adds a node or an edge and then
runs the rebuild rule. -/
theorem Change.cases_table (change : Change g g') : g.Keeps g' ∨ ∃ g₁, g.Extends g₁ ∧ g' = g₁.topologyChanged := by
  cases change with
  | reweigh size _ => exact .inl ⟨rfl, rfl, rfl, size, rfl, rfl⟩
  | readdress address present => exact .inl ⟨rfl, rfl, Table.size_insert_of_present present address, rfl, rfl, rfl⟩
  | register address absent =>
    have grown := Table.size_insert_of_absent absent address
    refine .inr ⟨_, ?_, rfl⟩
    exact ⟨rfl, rfl, rfl, by dsimp only; omega, le_refl _, by dsimp only; omega⟩
  | @connect link a b e left _ _ absent =>
    have occupied : 0 < g.nodes.size := by
      obtain ⟨v, found⟩ := Option.isSome_iff_exists.mp left
      exact List.length_pos_of_mem (Table.mem_of_get? found)
    have grown := Table.size_insert_of_absent absent e
    refine .inr ⟨_, ?_, rfl⟩
    exact ⟨rfl, rfl, rfl, le_refl _, by dsimp only; omega, occupied⟩

/-- A change leaves the table or rebuilds it from the graph it leaves. -/
theorem Change.table (change : Change g g') : g'.paths = g.paths ∨ g'.paths = some g'.allPairs := by
  rcases change.cases_table with keeps | ⟨g₁, extends_, rfl⟩
  · exact .inl keeps.paths
  · rw [extends_.rebuilt.2.2.2.2, ← extends_.paths]
    exact topologyChanged_table g₁

theorem Change.counts (change : Change g g') :
    g'.expectedNodes = g.expectedNodes ∧ g'.expectedLinks = g.expectedLinks := by
  rcases change.cases_table with keeps | ⟨g₁, extends_, rfl⟩
  · exact ⟨keeps.expectedNodes, keeps.expectedLinks⟩
  · exact ⟨extends_.rebuilt.1, extends_.rebuilt.2.1⟩

/-- Without expected counts, once a node is registered the table is the graph's own. -/
theorem Change.free (change : Change g g') (free : g.expectedNodes = none ∧ g.expectedLinks = none)
    (current : g.paths = some g.allPairs ∨ (g.paths = none ∧ g.nodes.size = 0)) :
    g'.paths = some g'.allPairs ∨ (g'.paths = none ∧ g'.nodes.size = 0) := by
  rcases change.cases_table with keeps | ⟨g₁, extends_, rfl⟩
  · rw [keeps.paths, keeps.nodes, allPairs_of_adjacency g keeps.adjacency]
    exact current
  · refine .inl ?_
    rw [topologyChanged_free ⟨extends_.expectedNodes.trans free.1, extends_.expectedLinks.trans free.2⟩,
      extends_.rebuilt.2.2.2.2]

/-- With expected counts, the table exists exactly when they are met and a node is registered. -/
theorem Change.counted (change : Change g g') (counted : ¬(g.expectedNodes = none ∧ g.expectedLinks = none))
    (exists_iff : g.paths.isSome ↔ g.Complete ∧ 0 < g.nodes.size) :
    g'.paths.isSome ↔ g'.Complete ∧ 0 < g'.nodes.size := by
  rcases change.cases_table with keeps | ⟨g₁, extends_, rfl⟩
  · rw [keeps.paths, keeps.complete, keeps.nodes]
    exact exists_iff
  · have counted₁ : ¬(g₁.expectedNodes = none ∧ g₁.expectedLinks = none) := by
      rwa [extends_.expectedNodes, extends_.expectedLinks]
    obtain ⟨-, -, frame, size, -⟩ := extends_.rebuilt
    rw [frame, size]
    cases built : g.paths with
    | some t =>
      -- a table once built stays, and the counts stay met
      have kept := topologyChanged_built counted₁ (by simp [extends_.paths, built])
      have complete := (exists_iff.mp (by simp [built])).1
      simp only [kept, extends_.paths, built, Option.isSome_some, true_iff]
      exact ⟨complete.mono extends_.expectedNodes extends_.expectedLinks extends_.nodes extends_.edges,
        extends_.occupied⟩
    | none =>
      rcases topologyChanged_counted counted₁ (by rw [extends_.paths, built]) with
        ⟨rebuilt, complete⟩ | ⟨unbuilt, incomplete⟩
      · simp [rebuilt, complete, extends_.occupied]
      · simp [unbuilt, incomplete]

/-- With expected counts, a table once built never changes. -/
theorem Change.frozen (change : Change g g') (counted : ¬(g.expectedNodes = none ∧ g.expectedLinks = none))
    (built : g.paths.isSome) : g'.paths = g.paths := by
  rcases change.cases_table with keeps | ⟨g₁, extends_, rfl⟩
  · exact keeps.paths
  · rw [topologyChanged_built (by rwa [extends_.expectedNodes, extends_.expectedLinks]) (by rwa [extends_.paths]),
      extends_.paths]

/-! ### What the table holds -/

/-- The table's answers over the graph `g₀` it was built from, read in the graph `g` of now: from
each node of `g₀` a path to exactly the nodes a chain of edges of `g₀` leads to, none from the
nodes registered since; each path goes from its first node to its last without repeating one,
each hop an edge of `g`, and is a shortest chain of edges of `g₀`. -/
structure Charts (g₀ g : Graph R) : Prop where
  reach : ∀ s d, (g₀.nodes.get? s).isSome → ((g.shortestPath s d).isSome ↔ ∃ n, g₀.Hops s d n)
  unknown : ∀ s d, g₀.nodes.get? s = none → g.shortestPath s d = none
  route : ∀ s d path, g.shortestPath s d = some path →
    path.head? = some s ∧ path.getLast? = some d ∧ path.Nodup
  follows : ∀ s d path, g.shortestPath s d = some path → path.IsChain fun a b => (g.edge a b).isSome
  shortest : ∀ s d path, g.shortestPath s d = some path →
    g₀.Hops s d (path.length - 1) ∧ ∀ n, g₀.Hops s d n → path.length ≤ n + 1

theorem shortestPath_of_paths {t : Table (KmeId × KmeId) (List KmeId)} (table : g.paths = some t) (s d : KmeId) :
    g.shortestPath s d = t.get? (s, d) := by
  simp [shortestPath, table]

/-! ### Runs -/

variable [RateArith R]

/-- The graphs a run reaches from `g₀`: nodes registered, links added, rate samples recorded and
rates reserved or given back along paths, in any order. -/
inductive Grown (g₀ : Graph R) : Graph R → Prop
  | start : Grown g₀ g₀
  | reshape {g g' : Graph R} : Grown g₀ g → Controller.Reshapes g g' → Grown g₀ g'
  | adjust {g : Graph R} (r : Reservation R) (f : R → R → R) : Grown g₀ g → Grown g₀ (g.adjust r f)

theorem reshapes_change (reshapes : Controller.Reshapes g g') : Change g g' := by
  cases reshapes with
  | same => exact .reweigh rfl fun _ => rfl
  | node k address => exact addNode_change g k address
  | sample link t rate ok => exact record_change ok
  | link link a b t rate ok => exact addEdge_change ok

theorem Grown.trans {g₀ g₁ g₂ : Graph R} (first : Grown g₀ g₁) (second : Grown g₁ g₂) : Grown g₀ g₂ := by
  induction second with
  | start => exact first
  | reshape _ reshapes ih => exact .reshape ih reshapes
  | adjust r f _ ih => exact .adjust r f ih

/-- What holds of the start and every change keeps holds all along a run; each step is one
change, itself a run. -/
theorem Grown.induction {g₀ : Graph R} {P : Graph R → Prop} (grown : Grown g₀ g) (start : P g₀)
    (step : ∀ g g', Grown g₀ g → Grown g g' → Change g g' → P g → P g') : P g := by
  induction grown with
  | start => exact start
  | reshape before reshapes ih => exact step _ _ before (.reshape .start reshapes) (reshapes_change reshapes) ih
  | adjust r f before ih => exact step _ _ before (.adjust r f .start) (adjust_change _ r f) ih

theorem Grown.edge_mono {g₀ : Graph R} (grown : Grown g₀ g) {a b : KmeId} (linked : (g₀.edge a b).isSome) :
    (g.edge a b).isSome :=
  grown.induction linked fun _ _ _ _ change held => change.edge_mono held

theorem Grown.shaped {g₀ : Graph R} (grown : Grown g₀ g) (shaped : g₀.Shaped) : g.Shaped :=
  grown.induction shaped fun _ _ _ _ change before => change.shaped before

theorem Grown.counts {g₀ : Graph R} (grown : Grown g₀ g) :
    g.expectedNodes = g₀.expectedNodes ∧ g.expectedLinks = g₀.expectedLinks :=
  grown.induction (P := fun g => g.expectedNodes = g₀.expectedNodes ∧ g.expectedLinks = g₀.expectedLinks)
    ⟨rfl, rfl⟩ fun _ _ _ _ change before =>
    ⟨change.counts.1.trans before.1, change.counts.2.trans before.2⟩

/-- The table built from a graph whose lists are its edges, read in any graph grown from it. -/
theorem charts_of_table {g₀ : Graph R} (shaped : g₀.Shaped) (grown : Grown g₀ g) (table : g.paths = some g₀.allPairs) :
    g₀.Charts g := by
  have lookup := shortestPath_of_paths table
  refine ⟨fun s d known => ?_, fun s d unknown => ?_, fun s d path found => ?_, fun s d path found => ?_,
    fun s d path found => ?_⟩
  · rw [lookup]
    exact allPairs_defined shaped ((shaped.registered s).mpr known) d
  · rw [lookup]
    cases found : g₀.allPairs.get? (s, d) with
    | none => rfl
    | some path =>
      have filed := Table.mem_keys.mp (allPairs_found found).1
      rw [shaped.registered, unknown] at filed
      cases filed
  · rw [lookup] at found
    obtain ⟨first, last, -⟩ := allPairs_shortest shaped found
    exact ⟨first, last, allPairs_nodup g₀ found⟩
  · rw [lookup] at found
    exact (allPairs_shortest shaped found).2.2.1.imp fun _ _ linked => grown.edge_mono linked
  · rw [lookup] at found
    exact (allPairs_shortest shaped found).2.2.2

/-! ### Along a run from an empty graph -/

section Fresh

variable {w i : Nat} {en el : Option Nat}

omit [RateArith R] in
theorem shaped_fresh : ({ windowMs := w, intervalMs := i, expectedNodes := en, expectedLinks := el } : Graph R).Shaped :=
  ⟨List.nodup_nil, fun _ => by simp, fun _ _ => by simp [edge]⟩

/-- Without expected counts the table is the graph's own from the first registration on. -/
theorem Grown.table_free (grown : Grown ({ windowMs := w, intervalMs := i, expectedNodes := en, expectedLinks := el } : Graph R) g)
    (free : en = none ∧ el = none) : g.paths = some g.allPairs ∨ (g.paths = none ∧ g.nodes.size = 0) :=
  grown.induction (.inr ⟨rfl, rfl⟩) fun _ _ before _ change current =>
    change.free ⟨before.counts.1.trans free.1, before.counts.2.trans free.2⟩ current

/-- With expected counts the table exists exactly when they are met and a node is registered. -/
theorem Grown.table_counted (grown : Grown ({ windowMs := w, intervalMs := i, expectedNodes := en, expectedLinks := el } : Graph R) g)
    (counted : ¬(en = none ∧ el = none)) : g.paths.isSome ↔ g.Complete ∧ 0 < g.nodes.size :=
  grown.induction (P := fun g => g.paths.isSome ↔ g.Complete ∧ 0 < g.nodes.size) (by simp [Table.size])
    fun _ _ before _ change exists_iff =>
      change.counted (by rwa [before.counts.1, before.counts.2]) exists_iff

end Fresh

/-- With expected counts, a table once built is the table of every later graph. -/
theorem Grown.frozen {g₁ : Graph R} (grown : Grown g g₁) (counted : ¬(g.expectedNodes = none ∧ g.expectedLinks = none))
    (built : g.paths.isSome) : g₁.paths = g.paths :=
  grown.induction (P := fun g' => g'.paths = g.paths) rfl fun _ _ before _ change kept => by
    have counted' := counted
    rw [← before.counts.1, ← before.counts.2] at counted'
    rw [change.frozen counted' (by rw [kept]; exact built), kept]

/-- A table along a run from a graph without one is the table of a graph the run went through,
taken when the run was there. -/
theorem Grown.built {g₀ : Graph R} (grown : Grown g₀ g) (empty : g₀.paths = none) :
    ∀ t, g.paths = some t → ∃ g₁, Grown g₀ g₁ ∧ Grown g₁ g ∧ g₁.paths = some t ∧ t = g₁.allPairs := by
  refine grown.induction (P := fun g => ∀ t, g.paths = some t → ∃ g₁, Grown g₀ g₁ ∧ Grown g₁ g ∧ g₁.paths = some t ∧
    t = g₁.allPairs) (fun t table => by rw [empty] at table; cases table) ?_
  intro g g' before one change earlier t table
  rcases change.table with kept | rebuilt
  · obtain ⟨g₁, reached, rest, held, rfl⟩ := earlier t (kept ▸ table)
    exact ⟨g₁, reached, rest.trans one, held, rfl⟩
  · rw [rebuilt] at table
    exact ⟨g', before.trans one, .start, rebuilt.trans table, (Option.some.inj table).symm⟩

/-- Shortest paths. Along every run from an empty graph: without expected counts the table is
the current graph's own once a node is registered; with expected counts it exists exactly when
they are met and a node is registered, and never changes once built. Any table is that of a graph
`g₀` the run went through, and answers as `Charts` says: from each node of `g₀`, a path to exactly
the nodes reachable in `g₀`, starting and ending at them, without a repeated node, along edges
of the current graph, one node longer than the distance in `g₀`. -/
theorem path_table_shortest {w i : Nat} {en el : Option Nat}
    (grown : Grown ({ windowMs := w, intervalMs := i, expectedNodes := en, expectedLinks := el } : Graph R) g) :
    (en = none ∧ el = none → g.paths = some g.allPairs ∨ (g.paths = none ∧ g.nodes.size = 0)) ∧
    (¬(en = none ∧ el = none) → (g.paths.isSome ↔ g.Complete ∧ 0 < g.nodes.size) ∧
      ∀ g', Grown g g' → g.paths.isSome → g'.paths = g.paths) ∧
    ∀ t, g.paths = some t →
      ∃ g₀, Grown ({ windowMs := w, intervalMs := i, expectedNodes := en, expectedLinks := el } : Graph R) g₀ ∧
        Grown g₀ g ∧ g₀.paths = some t ∧ t = g₀.allPairs ∧ g₀.Charts g := by
  refine ⟨grown.table_free, fun counted => ⟨grown.table_counted counted, fun g' later built => ?_⟩, fun t table => ?_⟩
  · have counted' : ¬(g.expectedNodes = none ∧ g.expectedLinks = none) := by
      rwa [grown.counts.1, grown.counts.2]
    exact later.frozen counted' built
  · obtain ⟨g₀, first, rest, held, rfl⟩ := grown.built rfl t table
    exact ⟨g₀, first, rest, held, rfl, charts_of_table (first.shaped shaped_fresh) rest table⟩

/-- Three nodes in a line, linked one after the other (with one sample per window, so that the
windows are built without floating-point arithmetic). -/
theorem path_table_shortest_along_a_line :
    ∃ g₁ g₂ g₃ g₄ g₅ : Graph Float,
      g₁ = (({ windowMs := 15000, intervalMs := 0 } : Graph Float).addNode ⟨1⟩ "kme-1").2 ∧
      g₂ = (g₁.addNode ⟨2⟩ "kme-2").2 ∧ g₃ = (g₂.addNode ⟨3⟩ "kme-3").2 ∧
      g₃.addEdge ⟨12⟩ ⟨1⟩ ⟨2⟩ 0 10 = .ok g₄ ∧ g₄.addEdge ⟨23⟩ ⟨2⟩ ⟨3⟩ 0 10 = .ok g₅ ∧
      Grown ({ windowMs := 15000, intervalMs := 0, expectedNodes := none, expectedLinks := none } : Graph Float) g₅ ∧
      ((none : Option Nat) = none ∧ (none : Option Nat) = none →
          g₅.paths = some g₅.allPairs ∨ (g₅.paths = none ∧ g₅.nodes.size = 0)) ∧
      (¬((none : Option Nat) = none ∧ (none : Option Nat) = none) →
          (g₅.paths.isSome ↔ g₅.Complete ∧ 0 < g₅.nodes.size) ∧
          ∀ g', Grown g₅ g' → g₅.paths.isSome → g'.paths = g₅.paths) ∧
      ∀ t, g₅.paths = some t →
        ∃ g₀, Grown ({ windowMs := 15000, intervalMs := 0, expectedNodes := none, expectedLinks := none } : Graph Float) g₀ ∧
          Grown g₀ g₅ ∧ g₀.paths = some t ∧ t = g₀.allPairs ∧ g₀.Charts g₅ := by
  refine ⟨_, _, _, _, _, rfl, rfl, rfl, rfl, rfl, ?grown, path_table_shortest ?grown⟩
  case grown =>
    exact .reshape (.reshape (.reshape (.reshape (.reshape .start (.node ⟨1⟩ "kme-1")) (.node ⟨2⟩ "kme-2"))
      (.node ⟨3⟩ "kme-3")) (.link ⟨12⟩ ⟨1⟩ ⟨2⟩ 0 10 rfl)) (.link ⟨23⟩ ⟨2⟩ ⟨3⟩ 0 10 rfl)

/-- Expected counts of zero are met by the empty graph, which still has no table: the table is
built at the first registration, from that one node. -/
theorem zero_counts_wait_for_a_node :
    ({ windowMs := 15000, intervalMs := 1000, expectedNodes := some 0, expectedLinks := some 0 } : Graph Float).Complete ∧
      ({ windowMs := 15000, intervalMs := 1000, expectedNodes := some 0, expectedLinks := some 0 } : Graph Float).hasPaths = false ∧
      (({ windowMs := 15000, intervalMs := 1000, expectedNodes := some 0, expectedLinks := some 0 } : Graph Float).addNode
        ⟨1⟩ "kme-1").2.hasPaths = true :=
  ⟨⟨by simp, by simp⟩, rfl, rfl⟩

end Graph

namespace Controller

variable {R : Type} [RateArith R]

/-- The graph of a controller grows from the one it was created with: every request changes it
by registrations, new links, rate samples and reservations. -/
theorem Run.graph_grown {guard : Env × Controller R → Prop} {c : Controller R}
    {e : Env} {s : Env × Controller R} (run : Run guard (e, c) s) : Graph.Grown c.graph s.2.graph := by
  have closes : ∀ s₀ s, Graph.Grown c.graph s₀.2.graph → Closes s₀ s → Graph.Grown c.graph s.2.graph := by
    intro s₀ s before closes
    obtain ⟨ksid, record, _, graph, _, _⟩ := closes
    rw [graph]
    exact .adjust _ _ before
  refine run.invariant (I := fun c' => Graph.Grown c.graph c'.graph) .start (fun s₀ s _ before moves => ?_) closes
  cases moves with
  | reshape graph _ _ => exact .reshape before graph
  | admission admits =>
    obtain ⟨_, _, _, res, _, _, _, graph, _, _⟩ := admits
    rw [graph]
    exact .adjust _ _ before
  | close closing => exact closes _ _ before closing

end Controller

end KeyRelay
