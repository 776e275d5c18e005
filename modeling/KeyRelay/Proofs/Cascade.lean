import KeyRelay.Proofs.Resident

/-! Calls between nodes served one at a time, in any order (`Mail`): a node answers a call as
its handler does, and the calls its plan makes to other nodes join those still waiting.

The close of a session spreads along its path this way. Started at any hops, with every close
delivered in any order, the cascade ends after a bounded number of deliveries, and only once no
close waits. Then every hop has dropped the session, its stored record, its rows and its clear
keys, each block has given back one reference for each span of the dropped rows on it, and the
controller has been told once, by the master's node (`close_cascade_cleans`). -/

namespace KeyRelay

/-- Nodes that serve the calls made to them one at a time, in any order. A served call may make
more calls, which join those waiting; the calls to the controller are kept with their caller. -/
structure Mail where
  env : Env
  node : KmeId → Kme
  pending : List (KmeId × KmeRequest)
  told : List (KmeId × ControllerRequest Float)

namespace Mail

/-- The calls a plan makes to nodes, in order. -/
def calls (p : Plan) : List (KmeId × KmeRequest) :=
  p.actions.filterMap fun
    | .callKme n req _ => some (n, req)
    | _ => none

/-- The calls node `x`'s plan makes to the controller. -/
def reports (x : KmeId) (p : Plan) : List (KmeId × ControllerRequest Float) :=
  p.actions.filterMap fun
    | .callController req _ => some (x, req)
    | _ => none

/-- Node `x` serves a call while the calls `rest` wait; a call that stops the program is never
served. -/
def serve (m : Mail) (x : KmeId) (req : KmeRequest) (rest : List (KmeId × KmeRequest)) : Option Mail :=
  match Kme.handle req (m.env, m.node x) with
  | .ok p (env, k) => some ⟨env, Function.update m.node x k, rest ++ calls p, m.told ++ reports x p⟩
  | .error (.fault _) (env, k) => some ⟨env, Function.update m.node x k, rest, m.told⟩
  | .error (.abort _) _ => none

/-- One waiting call, any of them, is served. -/
inductive Step : Mail → Mail → Prop
  | serve {m m' : Mail} (before after : List (KmeId × KmeRequest)) (x : KmeId) (req : KmeRequest)
      (waiting : m.pending = before ++ (x, req) :: after)
      (served : m.serve x req (before ++ after) = some m') : Step m m'

/-- `n` calls served one after the other. -/
inductive Runs : Mail → Nat → Mail → Prop
  | refl (m : Mail) : Runs m 0 m
  | tail {m m' m'' : Mail} {n : Nat} (run : Runs m n m') (step : Step m' m'') : Runs m (n + 1) m''

/-- Every run from `m` stops within `bound` calls, and only when no call waits, and then `done`
holds. -/
def Settles (m : Mail) (bound : Nat) (done : Mail → Prop) : Prop :=
  (∀ n m', Runs m n m' → n ≤ bound) ∧
    ∀ n m', Runs m n m' → (m'.pending ≠ [] → ∃ m'', Step m' m'') ∧ (m'.pending = [] → done m')

end Mail

/-! ### Neighbours on a path -/

/-- The neighbours of a node on a session's path, as its role names them; none off the path. -/
def SessionRecord.neighbours (r : SessionRecord) (x : KmeId) : List KmeId :=
  match r.role x with
  | .ok role => role.neighbours
  | .error _ => []

theorem position?_getElem {path : List KmeId} (simple : path.Nodup) {i : Nat} (bound : i < path.length) :
    Role.position? path path[i] = some i := by
  refine List.idxOf?_eq_some_iff.mpr ⟨bound, rfl, fun j before same => ?_⟩
  have := simple.getElem_inj_iff.mp same
  omega

/-- The hops right before and right after the `i`-th hop of a path. -/
def adjacent (path : List KmeId) (i : Nat) : List KmeId :=
  (if 0 < i then (path[i - 1]?).toList else []) ++ (path[i + 1]?).toList

theorem onPath_getElem {path : List KmeId} (simple : path.Nodup) {i : Nat} (bound : i < path.length) :
    ∃ role, Role.onPath path path[i] = some role ∧ role.neighbours = adjacent path i := by
  have at_ : ∀ j (h : j < path.length), path[j]? = some path[j] := fun j h => List.getElem?_eq_getElem h
  unfold Role.onPath
  rw [position?_getElem simple bound]
  simp only [Option.bind_eq_bind, Option.bind_some]
  -- the role is read off the length of the path, then off the hop's place on it
  split
  · rename_i one
    refine ⟨_, rfl, ?_⟩
    have only : i = 0 := by omega
    subst only
    simp [Role.neighbours, adjacent, one]
  · rename_i two
    refine ⟨_, rfl, ?_⟩
    by_cases first : i = 0
    · subst first
      simp [Role.neighbours, adjacent, two]
    · have last : i = 1 := by omega
      subst last
      simp [Role.neighbours, adjacent, two]
  · rename_i one two
    have long : 3 ≤ path.length := by
      have : path.length ≠ 1 := one
      have : path.length ≠ 2 := two
      omega
    by_cases first : i = 0
    · subst first
      refine ⟨_, rfl, ?_⟩
      simp [Role.neighbours, adjacent, at_ 1 (by omega)]
    · by_cases last : i = path.length - 1
      · refine ⟨.last path[i - 1], ?_, ?_⟩
        · rw [if_neg first, if_pos last]
          simp [at_ (i - 1) (by omega)]
        · simp [Role.neighbours, adjacent, Nat.pos_of_ne_zero first, at_ (i - 1) (by omega),
            List.getElem?_eq_none (show path.length ≤ i + 1 by omega)]
      · refine ⟨.middle path[i - 1] path[i + 1], ?_, ?_⟩
        · rw [if_neg first, if_neg last]
          simp [at_ (i - 1) (by omega), at_ (i + 1) (by omega)]
        · simp [Role.neighbours, adjacent, Nat.pos_of_ne_zero first, at_ (i - 1) (by omega),
            at_ (i + 1) (by omega)]

/-- On a path without repeated nodes, the neighbours of the `i`-th hop are the hops right before
and right after it. -/
theorem neighbours_getElem {r : SessionRecord} (simple : r.path.Nodup) {i : Nat} (bound : i < r.path.length) :
    r.neighbours r.path[i] = adjacent r.path i := by
  obtain ⟨role, found, named⟩ := onPath_getElem simple bound
  simp only [SessionRecord.neighbours, SessionRecord.role, found, named]

/-! ### Closing a session at one node -/

namespace SessionIndex

variable {ix : SessionIndex} {ksid : Ksid}

theorem get?_remove (ix : SessionIndex) (ksid : Ksid) : (ix.remove ksid).1.get? ksid = none := by
  unfold remove
  split
  · assumption
  · simp [get?]

theorem remove_of_get? {r : SessionRecord} (found : ix.get? ksid = some r) :
    ix.remove ksid = ((ix.remove ksid).1, some r) := by
  unfold remove
  simp only [show ix.byKsid.get? ksid = some r from found]

theorem remove_of_absent (absent : ix.get? ksid = none) : ix.remove ksid = (ix, none) := by
  unfold remove
  simp only [show ix.byKsid.get? ksid = none from absent]

end SessionIndex

/-- Once a table keeps no entry of a session, the session has no keys in it. -/
theorem Store.sessionKeys_filter {α : Type} (t : Table (Ksid × KeyId) α) (ksid : Ksid)
    (p : Ksid × KeyId → α → Bool) (drops : ∀ k v, k.1 = ksid → p k v = false) :
    Store.sessionKeys (t.filter p) ksid = [] := by
  have none : (t.filter p).keys.filter (·.1 = ksid) = [] := by
    simp only [Table.keys, Table.filter, List.filter_eq_nil_iff, List.mem_map, List.mem_filter,
      decide_eq_true_eq]
    rintro _ ⟨⟨k, v⟩, ⟨_, kept⟩, rfl⟩ same
    simp [drops k v same] at kept
  simp only [Store.sessionKeys, sortedBy, none, List.mergeSort_nil]

namespace Pool

/-- Dropping the references of spans takes one off the count of each span's block that is still
there, and touches nothing else. -/
theorem releaseRange_refs : ∀ (spans : List Span) {st : Storage}, st.Steady →
    ∃ st', releaseRange spans st = .ok () st' ∧ st'.Steady ∧ st'.data.rows = st.data.rows ∧
      st'.data.locals = st.data.locals ∧ st'.data.sessions = st.data.sessions ∧
      ∀ X, st'.data.refs X = st.data.refs X - onBlock spans X
  | [], st, steady => ⟨st, rfl, steady, rfl, rfl, rfl, fun X => by simp⟩
  | s :: rest, st, steady => by
    unfold releaseRange
    rw [run_forM_cons, bind_assoc, run_bind_ok (Storage.loadBlock_steady steady.calm _)]
    cases found : st.data.blocks.get? s.block with
    | none =>
      obtain ⟨st', run, steady', rows, locals, sessions, refs⟩ := releaseRange_refs rest steady
      refine ⟨st', run, steady', rows, locals, sessions, fun X => ?_⟩
      -- a block that is gone holds no reference to give back
      have gone : s.block = X → st.data.refs X = 0 := by
        rintro rfl
        simp [Store.refs, found]
      rw [refs X, onBlock_cons]
      by_cases same : s.block = X
      · simp [same, gone same]
      · simp [same]
    | some b =>
      have ident : b.id = s.block := steady.indexed.ids _ _ found
      have stored : st.data.blocks.get? b.release.id = some b := by simpa [Block.release, ident] using found
      rw [run_bind_ok (Storage.updateBlock_stored steady stored rfl)]
      obtain ⟨st', run, steady', rows, locals, sessions, refs⟩ := releaseRange_refs rest (steady.written stored rfl)
      refine ⟨st', run, steady', rows, locals, sessions, fun X => ?_⟩
      have count : st.data.refs s.block = b.inUse := by simp [Store.refs, found]
      rw [refs X, Storage.refs_written stored, onBlock_cons]
      by_cases same : s.block = X
      · subst same
        simp only [Block.release, ident, if_true, count]
        omega
      · simp [Block.release, ident, same]

end Pool

/-- What closing session `ksid` leaves of a node's records `st`: its stored record, its rows and
its clear keys are gone, and each block holds one reference less for each span of the dropped
rows on it. -/
structure Purged (ksid : Ksid) (st st' : Storage) : Prop where
  steady : st'.Steady
  forgotten : st'.data.sessions.get? ksid = none
  emptied : st'.data.countSessionKeys ksid = 0
  released : ∀ X, st'.data.refs X = st.data.refs X - onBlock ((st.data.takeSessionRows ksid).1.flatMap (·.spans)) X

namespace Engine

theorem purgeSession_run {st : Storage} (steady : st.Steady) (ksid : Ksid) (e : Env) :
    ∃ st', purgeSession ksid (e, st) = .ok () (e, st') ∧ st'.Steady ∧ st'.data.sessions = st.data.sessions ∧
      st'.data.countSessionKeys ksid = 0 ∧
      ∀ X, st'.data.refs X = st.data.refs X - onBlock ((st.data.takeSessionRows ksid).1.flatMap (·.spans)) X := by
  have purged : Storage.Steady { st with data := (st.data.purgeLocals ksid).2 } :=
    Storage.Steady.of_blocks steady rfl rfl
  have taken : Storage.Steady { st with data := ((st.data.purgeLocals ksid).2.takeSessionRows ksid).2 } :=
    Storage.Steady.of_blocks steady rfl rfl
  obtain ⟨st', run, steady', rows, locals, sessions, refs⟩ := Pool.releaseRange_refs _ taken
  unfold purgeSession
  rw [run_bind_ok (records_ok e (show Storage.purgeLocalKeys ksid st = _ from Storage.write_steady steady.calm _ _))]
  rw [run_bind_ok (records_ok e (show Storage.takeSessionRows ksid _ = _ from Storage.write_steady purged.calm _ _))]
  refine ⟨st', records_ok e run, steady', sessions, ?_, refs⟩
  simp only [Store.countSessionKeys, rows, locals, Store.takeSessionRows, Store.purgeLocals]
  rw [Store.sessionKeys_filter _ _ _ (fun _ _ same => by simp [same]),
    Store.sessionKeys_filter _ _ _ (fun _ _ same => by simp [same])]
  rfl

end Engine

namespace Kme

theorem closeSession_absent {k : Kme} {ksid : Ksid} (absent : k.sessions.get? ksid = none) (o : Option KmeId)
    (e : Env) : closeSession ksid o (e, k) = .error (.fault (.noSession (.ksid ksid))) (e, k) := by
  unfold closeSession
  rw [run_bind_ok (show current (e, k) = .ok k (e, k) from rfl), SessionIndex.remove_of_absent absent]
  rfl

/-- A node holding the session drops it, purges its records, tells the controller when it is
the master's node, and passes the close on to its neighbours on the path but the one it came
from. -/
theorem closeSession_held {k : Kme} (steady : k.storage.Steady) {ksid : Ksid} {r : SessionRecord}
    (held : k.sessions.get? ksid = some r) (o : Option KmeId) (e : Env) :
    ∃ p st, closeSession ksid o (e, k) = .ok p (e, { k with sessions := (k.sessions.remove ksid).1, storage := st }) ∧
      Purged ksid k.storage st ∧
      Mail.calls p = ((r.neighbours k.id).filter (some · ≠ o)).map (fun n => (n, .closeSession ksid (some k.id))) ∧
      Mail.reports k.id p = if r.kmeSrc = k.id then [(k.id, .closeConnection ksid)] else [] := by
  have deleted : Storage.Steady { k.storage with data := k.storage.data.deleteSession ksid } :=
    Storage.Steady.of_blocks steady rfl rfl
  obtain ⟨st, purged, steady', sessions, emptied, released⟩ := Engine.purgeSession_run deleted ksid e
  unfold closeSession
  rw [run_bind_ok (show current (e, k) = .ok k (e, k) from rfl), SessionIndex.remove_of_get? held]
  dsimp only
  rw [run_bind_ok (show change _ (e, k) = .ok () (e, { k with sessions := (k.sessions.remove ksid).1 }) from rfl)]
  rw [run_bind_ok (@run_records_ok _ (Storage.deleteSession ksid) e { k with sessions := (k.sessions.remove ksid).1 } _ _
    (Storage.write_steady steady.calm _ _))]
  rw [run_bind_ok (run_engine_ok purged)]
  refine ⟨_, st, rfl, ⟨steady', ?_, emptied, released⟩, ?_, ?_⟩
  · simp [sessions, Store.deleteSession]
  · unfold SessionRecord.neighbours
    cases r.role k.id with
    | error _ => split <;> simp [Mail.calls]
    | ok role => split <;> simp [Mail.calls, List.filterMap_map]
  · cases r.role k.id <;> split <;> simp [Mail.reports, List.filterMap_map, *]

end Kme

/-! ### One close served -/

/-- A hop that has closed session `ksid`: its old self `k₀` without the session in its index and
with its records purged. -/
def Shut (ksid : Ksid) (k₀ k : Kme) : Prop :=
  ∃ st, k = { k₀ with sessions := (k₀.sessions.remove ksid).1, storage := st } ∧ Purged ksid k₀.storage st

theorem Shut.dropped {ksid : Ksid} {k₀ k : Kme} (shut : Shut ksid k₀ k) : k.sessions.get? ksid = none := by
  obtain ⟨st, rfl, -⟩ := shut
  exact SessionIndex.get?_remove _ _

namespace Mail

/-- Hop `p` no longer indexes session `ksid`. -/
def Closed (m : Mail) (ksid : Ksid) (p : KmeId) : Prop := (m.node p).sessions.get? ksid = none

/-- A close of session `ksid` waits to be served at hop `p`. -/
def Awaits (m : Mail) (ksid : Ksid) (p : KmeId) : Prop := ∃ o, (p, KmeRequest.closeSession ksid o) ∈ m.pending

variable {m : Mail} {x : KmeId} {ksid : Ksid}

/-- A close served at a hop that no longer holds the session fails, and the hop stays as it was. -/
theorem serve_closed (closed : m.Closed ksid x) (o : Option KmeId) (rest : List (KmeId × KmeRequest)) :
    m.serve x (.closeSession ksid o) rest = some { m with pending := rest } := by
  simp only [serve, Kme.handle, Kme.closeSession_absent closed, Function.update_eq_self]

/-- A close served at a hop that holds the session shuts it, and passes the close on to its
neighbours but the one it came from. -/
theorem serve_held {r : SessionRecord} (named : (m.node x).id = x) (steady : (m.node x).storage.Steady)
    (held : (m.node x).sessions.get? ksid = some r) (o : Option KmeId) (rest : List (KmeId × KmeRequest)) :
    ∃ st, Purged ksid (m.node x).storage st ∧
      m.serve x (.closeSession ksid o) rest = some ⟨m.env,
        Function.update m.node x { m.node x with sessions := ((m.node x).sessions.remove ksid).1, storage := st },
        rest ++ ((r.neighbours x).filter (some · ≠ o)).map (fun n => (n, .closeSession ksid (some x))),
        m.told ++ if r.kmeSrc = x then [(x, .closeConnection ksid)] else []⟩ := by
  obtain ⟨p, st, run, purged, calls, reports⟩ := Kme.closeSession_held steady held o m.env
  rw [named] at calls reports
  refine ⟨st, purged, ?_⟩
  simp only [serve, Kme.handle, run, calls, reports]

section Waiting

variable {before after : List (KmeId × KmeRequest)} {req : KmeRequest}

theorem mem_of_waiting (waiting : m.pending = before ++ (x, req) :: after) {c : KmeId × KmeRequest}
    (member : c ∈ before ++ after) : c ∈ m.pending := by
  rw [waiting]
  simp only [List.mem_append, List.mem_cons] at member ⊢
  tauto

/-- A close waiting for another hop than the one served still waits after. -/
theorem awaits_of_waiting (waiting : m.pending = before ++ (x, req) :: after) {q : KmeId}
    (awaits : m.Awaits ksid q) (other : q ≠ x) : ∃ o, (q, KmeRequest.closeSession ksid o) ∈ before ++ after := by
  obtain ⟨o, member⟩ := awaits
  rw [waiting] at member
  refine ⟨o, ?_⟩
  simp only [List.mem_append, List.mem_cons, Prod.mk.injEq] at member ⊢
  rcases member with member | ⟨same, -⟩ | member
  · exact .inl member
  · exact absurd same other
  · exact .inr member

end Waiting

/-- After hop `x` becomes `k`, which no longer holds the session, the hops that have closed are
`x` and those that had. -/
theorem closed_update {k : Kme} (shut : k.sessions.get? ksid = none) (e : Env)
    (pending : List (KmeId × KmeRequest)) (told : List (KmeId × ControllerRequest Float)) (y : KmeId) :
    Closed ⟨e, Function.update m.node x k, pending, told⟩ ksid y ↔ y = x ∨ m.Closed ksid y := by
  by_cases same : y = x
  · subst same
    simp [Closed, shut]
  · simp [Closed, same]

end Mail

/-! ### Neighbours on a path, continued -/

theorem SessionRecord.neighbours_length (r : SessionRecord) (x : KmeId) : (r.neighbours x).length ≤ 2 := by
  unfold SessionRecord.neighbours
  split
  · rename_i role _
    cases role with
    | direct companion => cases companion <;> simp [Role.neighbours]
    | _ => simp [Role.neighbours]
  · simp

theorem SessionRecord.mem_of_mem_neighbours {r : SessionRecord} (simple : r.path.Nodup) {x q : KmeId}
    (onPath : x ∈ r.path) (near : q ∈ r.neighbours x) : q ∈ r.path := by
  obtain ⟨i, bound, rfl⟩ := List.getElem_of_mem onPath
  rw [neighbours_getElem simple bound] at near
  simp only [adjacent, List.mem_append, Option.mem_toList] at near
  rcases near with before | after
  · split at before
    · exact List.mem_of_getElem? (Option.mem_toList.mp before)
    · simp at before
  · exact List.mem_of_getElem? after

/-- Hops next to each other on a path are each other's neighbours. -/
theorem SessionRecord.next_mem_neighbours {r : SessionRecord} (simple : r.path.Nodup) {i : Nat}
    (bound : i + 1 < r.path.length) :
    r.path[i + 1] ∈ r.neighbours r.path[i] ∧ r.path[i] ∈ r.neighbours r.path[i + 1] := by
  rw [neighbours_getElem simple, neighbours_getElem simple]
  constructor
  · simp [adjacent, List.getElem?_eq_getElem bound]
  · simp [adjacent, List.getElem?_eq_getElem (show i < r.path.length by omega)]

/-- A property of hops that passes from each hop to its neighbours holds all along the path once
it holds at one hop. -/
theorem SessionRecord.along_path {r : SessionRecord} (simple : r.path.Nodup) {P : KmeId → Prop}
    (spreads : ∀ p ∈ r.path, P p → ∀ q ∈ r.neighbours p, P q) (seed : ∃ p ∈ r.path, P p) :
    ∀ p ∈ r.path, P p := by
  obtain ⟨p, onPath, holds⟩ := seed
  obtain ⟨j, hj, rfl⟩ := List.getElem_of_mem onPath
  have link : ∀ i (bound : i + 1 < r.path.length), P r.path[i + 1] ↔ P r.path[i] := fun i bound =>
    ⟨fun next => spreads _ (List.getElem_mem _) next _ (next_mem_neighbours simple bound).2,
     fun here => spreads _ (List.getElem_mem _) here _ (next_mem_neighbours simple bound).1⟩
  -- every hop agrees with the first one, by induction on its place
  have same : ∀ i (bound : i < r.path.length), P r.path[i] ↔ P r.path[0] := by
    intro i bound
    induction i with
    | zero => rfl
    | succ i ih => rw [link i bound, ih (by omega)]
  intro q member
  obtain ⟨i, hi, rfl⟩ := List.getElem_of_mem member
  exact (same i hi).mpr ((same j hj).mp holds)

/-! ### The cascade -/

/-- Session `r` assigned at every hop of its simple path, which starts at the master's node; the
nodes answer to their ids and keep their records without fault injection. -/
structure Assigned (r : SessionRecord) (node : KmeId → Kme) : Prop where
  simple : r.path.Nodup
  source : r.path.head? = some r.kmeSrc
  named : ∀ p ∈ r.path, (node p).id = p
  held : ∀ p ∈ r.path, (node p).sessions.get? r.ksid = some r
  steady : ∀ p ∈ r.path, (node p).storage.Steady

/-- The closes of session `ksid` started at hops `origins`, none of them passed on by a neighbour. -/
def closing (e : Env) (node : KmeId → Kme) (ksid : Ksid) (origins : List KmeId) : Mail :=
  ⟨e, node, origins.map fun p => (p, .closeSession ksid none), []⟩

/-- What every run of closes of session `r` keeps, from nodes `node₀`: each hop is as it was or
shut; every close waiting goes to a hop, from no neighbour or one that has shut; a shut hop's
neighbours have shut too or have a close waiting; and the controller has been told once exactly
when the master's node has shut. -/
structure Cascade (r : SessionRecord) (node₀ : KmeId → Kme) (m : Mail) : Prop where
  hops : ∀ p ∈ r.path, m.node p = node₀ p ∨ Shut r.ksid (node₀ p) (m.node p)
  calls : ∀ c ∈ m.pending, c.1 ∈ r.path ∧
    ∃ o, c.2 = .closeSession r.ksid o ∧ ∀ y, o = some y → m.Closed r.ksid y
  started : m.pending ≠ [] ∨ ∃ p ∈ r.path, m.Closed r.ksid p
  spread : ∀ p ∈ r.path, m.Closed r.ksid p → ∀ q ∈ r.neighbours p, m.Closed r.ksid q ∨ m.Awaits r.ksid q
  told : m.Closed r.ksid r.kmeSrc → m.told = [(r.kmeSrc, .closeConnection r.ksid)]
  quiet : ¬ m.Closed r.ksid r.kmeSrc → m.told = []

/-- What is left once the closes are over: the controller told once, by the master's node, and
every hop shut. -/
structure Cleaned (r : SessionRecord) (node₀ : KmeId → Kme) (m : Mail) : Prop where
  told : m.told = [(r.kmeSrc, .closeConnection r.ksid)]
  dropped : ∀ p ∈ r.path, (m.node p).sessions.get? r.ksid = none
  shut : ∀ p ∈ r.path, Shut r.ksid (node₀ p) (m.node p)

/-- Closes waiting, and three for each hop still holding the session: a hop that shuts passes on
at most two. -/
def backlog (r : SessionRecord) (m : Mail) : Nat :=
  m.pending.length + 3 * r.path.countP fun p => ((m.node p).sessions.get? r.ksid).isSome

/-- Shutting one hop of a path leaves one hop fewer holding the session. -/
theorem holding_update {node : KmeId → Kme} {x : KmeId} {k : Kme} {ksid : Ksid}
    (was : ((node x).sessions.get? ksid).isSome) (now : k.sessions.get? ksid = none) :
    ∀ {path : List KmeId}, path.Nodup → x ∈ path →
      (path.countP fun p => ((Function.update node x k p).sessions.get? ksid).isSome) + 1 =
        path.countP fun p => ((node p).sessions.get? ksid).isSome
  | [], _, member => absurd member List.not_mem_nil
  | a :: path, simple, member => by
    obtain ⟨fresh, simple⟩ := List.nodup_cons.mp simple
    by_cases same : a = x
    · subst same
      have rest : (path.countP fun p => ((Function.update node a k p).sessions.get? ksid).isSome) =
          path.countP fun p => ((node p).sessions.get? ksid).isSome :=
        List.countP_congr fun p member => by rw [Function.update_of_ne (ne_of_mem_of_not_mem member fresh)]
      simp [rest, now, was]
    · have member : x ∈ path := (List.mem_cons.mp member).resolve_left (Ne.symm same)
      have ih := holding_update was now simple member
      simp only [List.countP_cons, Function.update_of_ne same]
      omega

namespace Cascade

variable {r : SessionRecord} {node₀ : KmeId → Kme} {m : Mail}
  {before after : List (KmeId × KmeRequest)} {x : KmeId} {req : KmeRequest}

theorem open_iff (assigned : Assigned r node₀) (inv : Cascade r node₀ m) {p : KmeId} (onPath : p ∈ r.path) :
    m.node p = node₀ p ↔ ¬ m.Closed r.ksid p := by
  constructor
  · intro same closed
    rw [Mail.Closed, same, assigned.held p onPath] at closed
    cases closed
  · intro open_
    exact (inv.hops p onPath).resolve_right fun shut => open_ shut.dropped

/-- Serving a close at a hop that has shut only takes the close away. -/
theorem step_closed (inv : Cascade r node₀ m) (waiting : m.pending = before ++ (x, req) :: after)
    (onPath : x ∈ r.path) (closed : m.Closed r.ksid x) :
    Cascade r node₀ { m with pending := before ++ after } ∧
      backlog r { m with pending := before ++ after } < backlog r m := by
  refine ⟨⟨inv.hops, fun c member => inv.calls c (Mail.mem_of_waiting waiting member),
    .inr ⟨x, onPath, closed⟩, fun p onPath' shut q near => ?_, inv.told, inv.quiet⟩, ?_⟩
  · rcases inv.spread p onPath' shut q near with done | awaits
    · exact .inl done
    · by_cases same : q = x
      · exact .inl (same ▸ closed)
      · exact .inr (Mail.awaits_of_waiting waiting awaits same)
  · simp [backlog, waiting]

/-- Serving a close at a hop that still holds the session shuts the hop, passes the close on to
its neighbours but the one it came from, and tells the controller when the hop is the master's
node; the backlog falls, as the hop passes on at most two closes. -/
theorem step_held (assigned : Assigned r node₀) (inv : Cascade r node₀ m) {o : Option KmeId}
    (waiting : m.pending = before ++ (x, .closeSession r.ksid o) :: after) (onPath : x ∈ r.path)
    (origin : ∀ y, o = some y → m.Closed r.ksid y) (same : m.node x = node₀ x) {m' : Mail}
    (served : m.serve x (.closeSession r.ksid o) (before ++ after) = some m') :
    Cascade r node₀ m' ∧ backlog r m' < backlog r m := by
  have held : (m.node x).sessions.get? r.ksid = some r := same ▸ assigned.held x onPath
  obtain ⟨st, purged, run⟩ := Mail.serve_held (same ▸ assigned.named x onPath)
    (same ▸ assigned.steady x onPath) held o (before ++ after)
  rw [run, Option.some.injEq] at served
  subst served
  have closes := @Mail.closed_update m x r.ksid
    { m.node x with sessions := ((m.node x).sessions.remove r.ksid).1, storage := st }
    (SessionIndex.get?_remove _ _)
  have opened : ¬ m.Closed r.ksid x := by simp [Mail.Closed, held]
  refine ⟨⟨fun p onPath' => ?hops, fun c member => ?calls, .inr ⟨x, onPath, (closes ..).mpr (.inl rfl)⟩,
    fun p onPath' shut q near => ?spread, fun shut => ?told, fun open_ => ?quiet⟩, ?backlog⟩
  case hops =>
    by_cases here : p = x
    · subst here
      refine .inr ⟨st, ?_, same ▸ purged⟩
      simp only [Function.update_self, same]
    · simp only [Function.update_of_ne here]
      exact inv.hops p onPath'
  case calls =>
    rcases List.mem_append.mp member with member | member
    · obtain ⟨onPath', o', req, origin'⟩ := inv.calls c (Mail.mem_of_waiting waiting member)
      exact ⟨onPath', o', req, fun y sender => (closes ..).mpr (.inr (origin' y sender))⟩
    · obtain ⟨n, near, rfl⟩ := List.mem_map.mp member
      refine ⟨SessionRecord.mem_of_mem_neighbours assigned.simple onPath (List.mem_filter.mp near).1,
        some x, rfl, fun y sender => (closes ..).mpr (.inl (Option.some.inj sender).symm)⟩
  case spread =>
    rcases (closes ..).mp shut with rfl | shut
    · -- the hop just shut: its close reaches every neighbour but the one it came from
      by_cases back : some q = o
      · exact .inl ((closes ..).mpr (.inr (origin q back.symm)))
      · refine .inr ⟨some p, List.mem_append_right _ (List.mem_map.mpr ⟨q, ?_, rfl⟩)⟩
        simpa [List.mem_filter, near] using back
    · rcases inv.spread p onPath' shut q near with done | awaits
      · exact .inl ((closes ..).mpr (.inr done))
      · by_cases here : q = x
        · exact .inl ((closes ..).mpr (.inl here))
        · obtain ⟨o', member⟩ := Mail.awaits_of_waiting waiting awaits here
          exact .inr ⟨o', List.mem_append_left _ member⟩
  case told =>
    by_cases master : r.kmeSrc = x
    · have quiet := inv.quiet (master ▸ opened)
      simp [quiet, master]
    · have told := inv.told (((closes ..).mp shut).resolve_left master)
      simp [told, master]
  case quiet =>
    by_cases master : r.kmeSrc = x
    · exact absurd ((closes ..).mpr (.inl master)) open_
    · have quiet := inv.quiet fun shut => open_ ((closes ..).mpr (.inr shut))
      simp [quiet, master]
  case backlog =>
    have fewer := @holding_update m.node x
      { m.node x with sessions := ((m.node x).sessions.remove r.ksid).1, storage := st } r.ksid
      (by simp [held]) (SessionIndex.get?_remove _ _) _ assigned.simple onPath
    have sent : (((r.neighbours x).filter (some · ≠ o)).map fun n => (n, KmeRequest.closeSession r.ksid (some x))).length ≤ 2 :=
      calc _ ≤ (r.neighbours x).length := by simpa using List.length_filter_le _ _
        _ ≤ 2 := SessionRecord.neighbours_length r x
    dsimp only at fewer
    simp only [backlog, waiting, List.length_append, List.length_cons] at sent ⊢
    omega

/-- Every close served keeps the cascade and lowers its backlog. -/
theorem step (assigned : Assigned r node₀) (inv : Cascade r node₀ m) {m' : Mail} (next : Mail.Step m m') :
    Cascade r node₀ m' ∧ backlog r m' < backlog r m := by
  obtain ⟨before, after, x, req, waiting, served⟩ := next
  obtain ⟨onPath, o, close, origin⟩ := inv.calls (x, req) (by simp [waiting])
  dsimp only at close
  subst close
  by_cases closed : m.Closed r.ksid x
  · rw [Mail.serve_closed closed, Option.some.injEq] at served
    subst served
    exact inv.step_closed waiting onPath closed
  · exact inv.step_held assigned waiting onPath origin ((inv.open_iff assigned onPath).mpr closed) served

/-- Along every run the cascade holds, and each close served has lowered the backlog. -/
theorem runs (assigned : Assigned r node₀) (inv : Cascade r node₀ m) {n : Nat} {m' : Mail}
    (run : Mail.Runs m n m') : Cascade r node₀ m' ∧ n + backlog r m' ≤ backlog r m := by
  induction run with
  | refl => exact ⟨inv, by simp⟩
  | tail _ next ih =>
    obtain ⟨inv', bound⟩ := ih
    obtain ⟨inv'', less⟩ := inv'.step assigned next
    exact ⟨inv'', by omega⟩

/-- While a close waits, the first one can be served. -/
theorem progress (assigned : Assigned r node₀) (inv : Cascade r node₀ m) (busy : m.pending ≠ []) :
    ∃ m', Mail.Step m m' := by
  obtain ⟨⟨x, req⟩, rest, first⟩ := List.exists_cons_of_ne_nil busy
  obtain ⟨onPath, o, close, -⟩ := inv.calls (x, req) (by simp [first])
  dsimp only at close
  subst close
  have waiting : m.pending = [] ++ (x, .closeSession r.ksid o) :: rest := first
  by_cases closed : m.Closed r.ksid x
  · exact ⟨_, .serve [] rest x _ waiting (Mail.serve_closed closed o rest)⟩
  · have same := (inv.open_iff assigned onPath).mpr closed
    obtain ⟨st, -, served⟩ := Mail.serve_held (same ▸ assigned.named x onPath)
      (same ▸ assigned.steady x onPath) (same ▸ assigned.held x onPath) o rest
    exact ⟨_, .serve [] rest x _ waiting served⟩

/-- Once no close waits, the close has reached every hop: the hops that shut reach each other
along the path. -/
theorem cleaned (assigned : Assigned r node₀) (inv : Cascade r node₀ m) (idle : m.pending = []) :
    Cleaned r node₀ m := by
  have none : ∀ q, ¬ m.Awaits r.ksid q := fun q ⟨o, member⟩ => by simp [idle] at member
  have closed : ∀ p ∈ r.path, m.Closed r.ksid p :=
    SessionRecord.along_path assigned.simple
      (fun p onPath shut q near => (inv.spread p onPath shut q near).resolve_right (none q))
      (inv.started.resolve_left (not_not.mpr idle))
  have master : r.kmeSrc ∈ r.path := List.mem_of_mem_head? assigned.source
  refine ⟨inv.told (closed _ master), closed, fun p onPath => ?_⟩
  exact (inv.hops p onPath).resolve_left fun same => (inv.open_iff assigned onPath).mp same (closed p onPath)

/-- The closes just started: every hop still holds the session. -/
theorem closing (assigned : Assigned r node₀) {origins : List KmeId} (started : origins ≠ [])
    (onPath : ∀ p ∈ origins, p ∈ r.path) (e : Env) : Cascade r node₀ (closing e node₀ r.ksid origins) := by
  have opened : ∀ p ∈ r.path, ¬ (KeyRelay.closing e node₀ r.ksid origins).Closed r.ksid p := fun p member => by
    simp [Mail.Closed, KeyRelay.closing, assigned.held p member]
  have master : r.kmeSrc ∈ r.path := List.mem_of_mem_head? assigned.source
  refine ⟨fun p _ => .inl rfl, fun c member => ?_, .inl (by simpa [KeyRelay.closing] using started),
    fun p onPath' shut => absurd shut (opened p onPath'), fun shut => absurd shut (opened _ master),
    fun _ => rfl⟩
  obtain ⟨p, origin, rfl⟩ := List.mem_map.mp member
  exact ⟨onPath p origin, none, rfl, fun y sender => by cases sender⟩

end Cascade

theorem backlog_closing {r : SessionRecord} {node₀ : KmeId → Kme} (assigned : Assigned r node₀)
    (origins : List KmeId) (e : Env) :
    backlog r (closing e node₀ r.ksid origins) = origins.length + 3 * r.path.length := by
  simp only [backlog, closing, List.length_map]
  rw [List.countP_eq_length.mpr fun p member => by simp [assigned.held p member]]

/-- Closes of an assigned session started at any hops of its path, served in any order with the
failed ones dropped, settle: every run stops within one close per origin and three per hop, and
only once no close waits. Then every hop has shut, with no index entry, stored record, row or
clear key of the session left and each block's references to the dropped rows given back, and
the controller has been told once, by the master's node. -/
theorem close_cascade_cleans {r : SessionRecord} {node₀ : KmeId → Kme} (assigned : Assigned r node₀)
    {origins : List KmeId} (started : origins ≠ []) (onPath : ∀ p ∈ origins, p ∈ r.path) (e : Env) :
    (closing e node₀ r.ksid origins).Settles (origins.length + 3 * r.path.length) (Cleaned r node₀) := by
  have start := Cascade.closing assigned started onPath e
  refine ⟨fun n m run => ?_, fun n m run => ⟨fun busy => ?_, fun idle => ?_⟩⟩
  · have bound := (start.runs assigned run).2
    rw [backlog_closing assigned] at bound
    omega
  · exact (start.runs assigned run).1.progress assigned busy
  · exact (start.runs assigned run).1.cleaned assigned idle

theorem close_cascade_cleans_three_hops :
    let r : SessionRecord := ⟨⟨7⟩, ⟨10⟩, ⟨11⟩, ⟨1⟩, ⟨3⟩, ⟨128, 1000⟩, [⟨1⟩, ⟨2⟩, ⟨3⟩], 1000⟩
    let node : KmeId → Kme := fun p =>
      { (default : Kme) with id := p, storage := {}, sessions := (({} : SessionIndex).insert r).1 }
    Assigned r node ∧ (closing default node r.ksid [⟨2⟩, ⟨3⟩]).Settles 11 (Cleaned r node) := by
  intro r node
  have assigned : Assigned r node :=
    ⟨by decide, rfl, fun _ _ => rfl, fun _ _ => rfl, fun _ _ => ⟨rfl, Store.indexed_default⟩⟩
  exact ⟨assigned, close_cascade_cleans assigned (List.cons_ne_nil _ _) (by decide) default⟩

end KeyRelay
