import KeyRelay.Network
import KeyRelay.Decimal.Text

/-!
What must hold of a network at rest, checked on a snapshot of it: the reserved rate of each
edge is the sum of its sessions' demands; every node of a session's path holds the session's
record; no node holds a session the controller closed; and a middle hop of a relayed session
holds no keys of it.

Each check reports its first violation, if any; rates are compared within `1e-6`.
-/
namespace KeyRelay

/-- An edge as the snapshot sees it. -/
structure EdgeView where
  ends : KmeId × KmeId
  capacity : Float
  reserved : Float
deriving Inhabited

/-- A node as the snapshot sees it: its sessions, by ascending id, with the keys held. -/
structure KmeView where
  id : KmeId
  sessions : List (SessionRecord × Nat)
deriving Inhabited

/-- The state of a network as the invariants see it. -/
structure Snapshot where
  edges : List EdgeView
  /-- The controller's sessions, by ascending id, with their reservations. -/
  sessions : List (SessionRecord × Reservation Float)
  kmes : List KmeView
deriving Inhabited

/-- A broken invariant: its name and what is wrong. -/
structure Breach where
  invariant : String
  message : String
deriving Repr, Inhabited

namespace Snapshot

/-- The tolerance on rates, `1e-6`. -/
def tolerance : Float := Float.ofBits 0x3eb0c6f7a0b5ed8d

/-- A float as diagnostics show it. -/
def showRate (x : Float) : String := Decimal.positional x.toBits

/-- The view of a node. -/
def kme? (s : Snapshot) (id : KmeId) : Option KmeView := s.kmes.find? (·.id = id)

/-- The rate the sessions demand of each edge. -/
def demanded (s : Snapshot) : Table (KmeId × KmeId) Float :=
  s.sessions.foldl (fun t (_, res) =>
    (res.edges.zip res.demand).foldl (fun t ((a, b), rate) =>
      let ends := edgeKey a b
      t.insert ends ((t.get? ends).getD 0.0 + rate)) t) {}

/-- Each edge reserves what its sessions demand. -/
def reservationsBalanced (s : Snapshot) : Option Breach :=
  let demanded := s.demanded
  (s.edges.find? fun e =>
    let expected := (demanded.get? e.ends).getD 0.0
    e.reserved < -tolerance || (e.reserved - expected).abs > tolerance).map fun e =>
      let expected := (demanded.get? e.ends).getD 0.0
      ⟨"reservations_balanced", "edge " ++ toString e.ends.1 ++ "-" ++ toString e.ends.2 ++
        " reserves " ++ showRate e.reserved ++ " but its sessions demand " ++ showRate expected⟩

/-- What is wrong with one hop of a session's path, if anything. -/
def hopProblem (s : Snapshot) (r : SessionRecord) (hop : KmeId) : Option String :=
  match (s.kme? hop).bind fun k => k.sessions.find? (·.1.ksid = r.ksid) with
  | some (held, _) =>
    if held = r then none
    else some ("kme " ++ toString hop ++ " holds a different record of " ++ toString r.ksid)
  | none => some ("kme " ++ toString hop ++ " is on " ++ toString r.ksid ++ " but never heard of it")

/-- Every hop of a session holds its record. -/
def pathsAgree (s : Snapshot) : Option Breach :=
  let problems := s.sessions.flatMap fun (r, _) => r.path.filterMap (s.hopProblem r)
  problems.head?.map (⟨"paths_agree", ·⟩)

/-- No node holds a closed session. -/
def noOrphanSessions (s : Snapshot) : Option Breach :=
  let open_ := s.sessions.map (·.1.ksid)
  let orphans := s.kmes.filterMap fun k =>
    (k.sessions.find? fun (r, _) => !open_.contains r.ksid).map (k.id, ·.1.ksid)
  orphans.head?.map fun (k, ksid) =>
    ⟨"no_orphan_sessions", "kme " ++ toString k ++ " still holds closed " ++ toString ksid⟩

/-- A middle hop holds no keys of a session. -/
def relayHopsHoldNoKeys (s : Snapshot) : Option Breach :=
  let offenders := s.kmes.flatMap fun k => (k.sessions.filter fun (r, n) =>
    n > 0 && match r.role k.id with
      | .ok (.middle _ _) => true
      | _ => false).map fun (r, n) => (k.id, r.ksid, n)
  offenders.head?.map fun (k, ksid, n) =>
    ⟨"relay_hops_hold_no_keys",
      "relay hop " ++ toString k ++ " holds " ++ toString n ++ " keys of " ++ toString ksid⟩

/-- The violations of the standard invariants, in order. -/
def violations (s : Snapshot) : List Breach :=
  [s.reservationsBalanced, s.pathsAgree, s.noOrphanSessions, s.relayHopsHoldNoKeys].filterMap id

end Snapshot

namespace Network

/-- A snapshot of the network, capacities at the clock's `now`; records are read without
fault injection. -/
def snapshot (n : Network) : Except Abort Snapshot := do
  let (edges, sessions) ← match n.controller with
    | none => pure ([], [])
    | some c =>
      let edges ← c.graph.sortedEdges.mapM fun (ends, e) => do
        pure (⟨ends, ← e.capacity n.env.now, e.reserved⟩ : EdgeView)
      let sessions := c.directory.sessions.sorted.map fun r =>
        (r, (c.directory.reservation r.ksid).getD ⟨r.path, []⟩)
      pure (edges, sessions)
  let kmes := n.kmes.map fun k =>
    ⟨k.id, k.sessions.sorted.map fun r => (r, k.storage.data.countSessionKeys r.ksid)⟩
  pure ⟨edges, sessions, kmes⟩

end Network

end KeyRelay
