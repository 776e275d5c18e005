import KeyRelay.Proofs.Retrieval
import KeyRelay.Proofs.Cascade
import KeyRelay.Network
import Mathlib

/-! The order of the calls that relay keys along a path of three nodes or more. The master's
node stores the one-time keys' rows at the next hop, then sends each key masked with its
one-time key; each middle hop stores its own one-time key's row at the hop after it before
passing the key on, and the last hop keeps the key. Calls are served at once and nested, so
the transcript closes each call after the calls it made (`Network.relayChain`).

A node serving these requests changes its records only (`Kme.RecordsOnly`), so the routing and
every hop's sessions stay as they were (`Network.roster`). A call is described by what it adds
to the transcript when it is answered (`Network.Logs`), from the last hop back to the first
(`Network.relayForward_logs`). Main statement: `Network.relay_hops_in_path_order`. -/

namespace KeyRelay

namespace Engine

theorem cutKeys_length (pool : Pool) (ℓ : LinkId) (size now : Nat) (n : Nat) :
    ∀ {carved : List Span} {keys : List Issued} {s t : Env × Storage} {out : List Span × List Issued},
      cutKeys pool ℓ size now n carved keys s = .ok out t → out.2.length = keys.length + n := by
  induction n with
  | zero =>
    intro carved keys s t out run
    cases run
    rfl
  | succ n ih =>
    intro carved keys s t out run
    simp only [cutKeys] at run
    obtain ⟨spans, s₁, -, run⟩ := run_bind_eq_ok run
    obtain ⟨material, s₂, -, run⟩ := run_bind_eq_ok run
    obtain ⟨keyId, s₃, -, run⟩ := run_bind_eq_ok run
    rw [ih run, List.length_append, List.length_singleton]
    omega

/-- A generation hands out all its keys but the ones it keeps. -/
theorem generate_issued {pool : Pool} {ksid : Ksid} {ℓ : LinkId} {sizeBits count keep : Nat}
    {s t : Env × Storage} {b : Batch} (run : generate pool ksid ℓ sizeBits count keep s = .ok b t) :
    b.issued.length = count - keep := by
  unfold generate at run
  split at run
  · cases run
  obtain ⟨now, s₁, -, run⟩ := run_bind_eq_ok run
  obtain ⟨⟨carved, keys⟩, s₂, cut, run⟩ := run_bind_eq_ok run
  obtain ⟨_, s₃, -, run⟩ := run_bind_eq_ok run
  have counted : keys.length = count := by simpa using cutKeys_length pool ℓ (sizeBits / 8) now count cut
  dsimp only at run
  -- the keys kept in the clear may be stored first; the batch is the same either way
  split at run
  · obtain ⟨_, s₄, -, run⟩ := run_bind_eq_ok run
    cases run
    rw [List.length_take, counted]
    omega
  · cases run
    rw [List.length_take, counted]
    omega

end Engine

/-- Every element of a list mapped without a failure comes from an element of the list, and
none is lost. -/
theorem Except.mapM_ok {ε α β : Type} {f : α → Except ε β} {xs : List α} {ys : List β}
    (mapped : xs.mapM f = .ok ys) : ys.length = xs.length ∧ ∀ y ∈ ys, ∃ x ∈ xs, f x = .ok y := by
  induction xs generalizing ys with
  | nil =>
    cases mapped
    simp
  | cons x rest ih =>
    rw [List.mapM_cons] at mapped
    obtain ⟨y, first, mapped⟩ := Except.bind_eq_ok mapped
    obtain ⟨ys', others, mapped⟩ := Except.bind_eq_ok mapped
    cases mapped
    obtain ⟨length, from_rest⟩ := ih others
    refine ⟨by simp [length], ?_⟩
    intro z member
    rcases List.mem_cons.mp member with rfl | later
    · exact ⟨x, List.mem_cons_self, first⟩
    · obtain ⟨w, inRest, mapsTo⟩ := from_rest z later
      exact ⟨w, List.mem_cons_of_mem _ inRest, mapsTo⟩

/-- A call to `next` asking it to store rows of keys cut for it. -/
def Action.Syncs (next : KmeId) (a : Action) : Prop :=
  ∃ ℓ rows consumed, a = .callKme next (.syncKeys ℓ rows consumed) true

/-- A call to `next` passing on a key of session `ksid`, masked with a one-time key. -/
def Action.Forwards (next : KmeId) (ksid : Ksid) (a : Action) : Prop :=
  ∃ keyId otkId cipher size, a = .callKme next (.relayForward ksid keyId otkId cipher size) true

/-- The calls of a node relaying `n` keys of session `ksid` to `next`: first the rows of the
one-time keys, then each key masked with its one-time key. -/
def Relays (next : KmeId) (ksid : Ksid) (n : Nat) (actions : List Action) : Prop :=
  ∃ sync forwards, actions = sync :: forwards ∧ sync.Syncs next ∧ forwards.length = n ∧
    ∀ f ∈ forwards, f.Forwards next ksid

/-- What a hop asks of the network for a relayed key: a middle hop relays it to the hop after
it, the last hop asks nothing. -/
def Onward (ksid : Ksid) : Role → List Action → Prop
  | .middle _ next, actions => Relays next ksid 1 actions
  | _, actions => actions = []

/-- The role of the `i`-th hop of a path of three nodes or more without repeated nodes. -/
theorem onPath_long {path : List KmeId} (simple : path.Nodup) (long : 3 ≤ path.length) {i : Nat}
    (bound : i < path.length) :
    Role.onPath path path[i] =
      if i = 0 then some (.first (path.getD 1 default))
      else if i = path.length - 1 then some (.last (path.getD (i - 1) default))
      else some (.middle (path.getD (i - 1) default) (path.getD (i + 1) default)) := by
  unfold Role.onPath
  rw [position?_getElem simple bound]
  simp only [Option.bind_eq_bind, Option.bind_some]
  split
  · omega
  · omega
  · rfl

theorem SessionRecord.role_first {r : SessionRecord} (simple : r.path.Nodup) (long : 3 ≤ r.path.length)
    {p next : KmeId} (here : r.path[0]? = some p) (after : r.path[1]? = some next) :
    r.role p = .ok (.first next) := by
  obtain ⟨_, rfl⟩ := List.getElem?_eq_some_iff.mp here
  obtain ⟨_, rfl⟩ := List.getElem?_eq_some_iff.mp after
  simp only [SessionRecord.role, onPath_long simple long, ↓reduceIte, List.getD_eq_getElem?_getD,
    List.getElem?_eq_getElem (by omega : 1 < r.path.length), Option.getD_some]

theorem SessionRecord.role_middle {r : SessionRecord} (simple : r.path.Nodup) {i : Nat} (inner : 0 < i)
    {prev p next : KmeId} (before : r.path[i - 1]? = some prev) (here : r.path[i]? = some p)
    (after : r.path[i + 1]? = some next) : r.role p = .ok (.middle prev next) := by
  obtain ⟨_, rfl⟩ := List.getElem?_eq_some_iff.mp before
  obtain ⟨_, rfl⟩ := List.getElem?_eq_some_iff.mp here
  obtain ⟨bound, rfl⟩ := List.getElem?_eq_some_iff.mp after
  simp only [SessionRecord.role, onPath_long simple (by omega) (by omega : i < r.path.length),
    show i ≠ 0 by omega, ↓reduceIte, show i ≠ r.path.length - 1 by omega, List.getD_eq_getElem?_getD,
    List.getElem?_eq_getElem (by omega : i - 1 < r.path.length), Option.getD_some, List.getElem?_eq_getElem bound]

theorem SessionRecord.role_last {r : SessionRecord} (simple : r.path.Nodup) (long : 3 ≤ r.path.length)
    {prev p : KmeId} (before : r.path[r.path.length - 2]? = some prev) (here : r.path[r.path.length - 1]? = some p) :
    r.role p = .ok (.last prev) := by
  obtain ⟨_, rfl⟩ := List.getElem?_eq_some_iff.mp before
  obtain ⟨_, rfl⟩ := List.getElem?_eq_some_iff.mp here
  simp only [SessionRecord.role, onPath_long simple long (by omega : r.path.length - 1 < r.path.length),
    show r.path.length - 1 ≠ 0 by omega, ↓reduceIte, show r.path.length - 1 - 1 = r.path.length - 2 by omega,
    List.getD_eq_getElem?_getD, List.getElem?_eq_getElem (by omega : r.path.length - 2 < r.path.length),
    Option.getD_some]

namespace Kme

section Relaying

variable {α : Type} {k₀ : Kme}

theorem triple_current_records {E : Env × Kme → Prop} :
    Triple (fun s => RecordsOnly k₀ s.2) current (fun k s => RecordsOnly k₀ s.2 ∧ RecordsOnly k₀ k) E :=
  fun _ start => ⟨start, start⟩

/-- A computation of the key engine changes the node's records only; what it returns has `R` when
every run of it that returns does. -/
theorem triple_engine_records {m : EngineM α} (R : α → Prop) (holds : ∀ s a t, m s = .ok a t → R a) :
    Triple (fun s => RecordsOnly k₀ s.2) (engine m) (fun a s => RecordsOnly k₀ s.2 ∧ R a)
      (fun s => RecordsOnly k₀ s.2) :=
  (triple_engine_frame RecordsOnly.restore (show Spec (fun _ => True) m (fun a _ => R a) (fun _ => True) from
    fun s _ => ⟨fun a t run => holds s a t run, fun _ _ _ => trivial⟩)).conseq
    (fun _ start => ⟨start, trivial⟩) (fun _ _ done => done) (fun _ failed => failed.1)

theorem triple_engine_keeps_records (m : EngineM α) :
    Triple (fun s => RecordsOnly k₀ s.2) (engine m) (fun _ s => RecordsOnly k₀ s.2) (fun s => RecordsOnly k₀ s.2) :=
  (triple_engine_records (fun _ => True) fun _ _ _ _ => trivial).conseq (fun _ start => start)
    (fun _ _ done => done.1) (fun _ failed => failed)

theorem triple_generate_records (ksid : Ksid) (ℓ : LinkId) (sizeBits count keep : Nat) :
    Triple (fun s => RecordsOnly k₀ s.2) (generate ksid ℓ sizeBits count keep)
      (fun b s => RecordsOnly k₀ s.2 ∧ b.issued.length = count - keep) (fun s => RecordsOnly k₀ s.2) := by
  unfold generate
  refine Triple.bind (Triple.ofExcept _ fun _ start => ⟨start, fun _ _ => start⟩) fun _ => ?_
  refine Triple.bind triple_current fun k => ?_
  exact (triple_engine_records _ fun _ _ _ run => Engine.generate_issued run).conseq (fun _ start => start.1)
    (fun _ _ done => done) (fun _ failed => failed)

theorem triple_takeKept_records (ksid : Ksid) (sizeBits n : Nat) : ∀ keys : List (KeyId × Material),
    Triple (fun s => RecordsOnly k₀ s.2) (takeKept ksid sizeBits n keys)
      (fun taken s => RecordsOnly k₀ s.2 ∧ taken.length ≤ keys.length + n) (fun s => RecordsOnly k₀ s.2) := by
  induction n with
  | zero => exact fun keys => Triple.pure keys fun _ start => ⟨start, by simp⟩
  | succ n ih =>
    intro keys
    rw [takeKept]
    refine Triple.bind (triple_engine_keeps_records _) fun found => ?_
    cases found with
    | none => exact Triple.pure keys fun _ start => ⟨start, by omega⟩
    | some l =>
      refine (ih _).conseq (fun _ start => start) (fun _ _ done => ⟨done.1, ?_⟩) (fun _ failed => failed)
      have taken := done.2
      simp only [List.length_append, List.length_singleton] at taken
      omega

/-- A request never takes more kept keys than it asks for. -/
theorem triple_prefetched_records (ksid : Ksid) (number sizeBits : Nat) :
    Triple (fun s => RecordsOnly k₀ s.2) (prefetched ksid number sizeBits)
      (fun keys s => RecordsOnly k₀ s.2 ∧ keys.length ≤ number) (fun s => RecordsOnly k₀ s.2) := by
  unfold prefetched
  refine Triple.bind triple_current fun k => ?_
  split
  · exact Triple.pure [] fun _ start => ⟨start.1, by simp⟩
  · exact (triple_takeKept_records ksid sizeBits number []).conseq (fun _ start => start.1)
      (fun _ _ done => ⟨done.1, by simpa using done.2⟩) (fun _ failed => failed)

/-- The keys generated to top a request up are exactly the ones it misses. -/
theorem triple_topUp_records (ksid : Ksid) (ℓ : LinkId) (missing sizeBits : Nat) :
    Triple (fun s => RecordsOnly k₀ s.2) (topUp ksid ℓ missing sizeBits)
      (fun b s => RecordsOnly k₀ s.2 ∧ ((b.map handedOut).getD []).length = missing) (fun s => RecordsOnly k₀ s.2) := by
  unfold topUp
  split
  · rename_i nothing_missing
    exact Triple.pure none fun _ start => ⟨start, by simp [nothing_missing]⟩
  · refine Triple.bind triple_current fun k => ?_
    dsimp only
    split
    · exact Triple.stop _
    · refine Triple.bind ((triple_generate_records ksid ℓ sizeBits _ _).conseq (fun _ start => start.1)
        (fun _ _ done => done) (fun _ failed => failed)) fun b => ?_
      exact Triple.pure (some b) fun _ ⟨start, issued⟩ => ⟨start, by simp [handedOut, issued]⟩

theorem triple_sweepQuietly_records :
    Triple (fun s => RecordsOnly k₀ s.2) sweepQuietly (fun _ s => RecordsOnly k₀ s.2) (fun s => RecordsOnly k₀ s.2) := by
  unfold sweepQuietly
  refine Triple.bind triple_current fun k => ?_
  exact (triple_engine_keeps_records _).conseq (fun _ start => start.1) (fun _ _ done => done)
    (fun _ failed => failed)

/-- A node storing synced rows asks nothing of the network. -/
theorem triple_syncKeys_records (ℓ : LinkId) (rows : List KeyRow) (consumed : List Span) :
    Triple (fun s => RecordsOnly k₀ s.2) (handle (.syncKeys ℓ rows consumed))
      (fun p s => RecordsOnly k₀ s.2 ∧ p.actions = []) (fun s => RecordsOnly k₀ s.2) :=
  Triple.bind (triple_engine_keeps_records _) fun _ => Triple.pure _ fun _ start => ⟨start, rfl⟩

/-- A hop handed a relayed key of a session it serves: a middle hop relays the key to the hop
after it, the last hop asks nothing of the network. -/
theorem triple_relayForward_onward {ksid : Ksid} {r : SessionRecord} {role : Role}
    (held : k₀.sessions.get? ksid = some r) (placed : r.role k₀.id = .ok role) (keyId otkId : KeyId)
    (cipher : String) (size : Nat) :
    Triple (fun s => RecordsOnly k₀ s.2) (relayForward ksid keyId otkId cipher size)
      (fun p s => RecordsOnly k₀ s.2 ∧ Onward ksid role p.actions) (fun s => RecordsOnly k₀ s.2) := by
  unfold relayForward
  refine Triple.bind triple_current_records fun k => Triple.assume fun only => ?_
  rw [only.sessions, held]
  refine Triple.bind (triple_role_only only placed) fun role' => Triple.assume fun same => ?_
  subst same
  split
  · rename_i prev next
    refine Triple.bind (triple_engine_keeps_records _) fun otk => ?_
    refine Triple.bind (triple_lift _) fun key => ?_
    refine Triple.bind (triple_linkTo_frame next) fun ℓ => ?_
    refine Triple.bind ((triple_generate_records ksid ℓ size 1 0).conseq (fun _ start => start)
      (fun _ _ done => done.1) (fun _ failed => failed)) fun batch => ?_
    split
    · refine Triple.bind (triple_lift _) fun masked => ?_
      refine Triple.bind triple_wallSecs fun now => Triple.pure _ fun _ start => ⟨start, ?_⟩
      exact ⟨_, [_], rfl, ⟨_, _, _, rfl⟩, rfl, by simp [Action.Forwards]⟩
    · exact triple_fail _ fun _ start => start
  · dsimp only
    split
    · -- a middle hop was served above
      rename_i excluded
      exact absurd rfl (excluded _ _)
    · refine Triple.bind (triple_engine_keeps_records _) fun otk => ?_
      refine Triple.bind (triple_lift _) fun key => ?_
      refine Triple.bind (triple_engine_keeps_records _) fun _ => ?_
      exact Triple.pure _ fun _ start => ⟨start, rfl⟩
    · exact Triple.throw_bind _ fun _ start => start

/-- The first node of a relayed path, asked for `number` keys, asks the next hop to store the
rows of as many one-time keys, then forwards each key masked. -/
theorem triple_relayFirst_relays (r : SessionRecord) (next : KmeId) (number sizeBits : Nat) :
    Triple (fun s => RecordsOnly k₀ s.2) (relayFirst r next number sizeBits)
      (fun p s => RecordsOnly k₀ s.2 ∧ Relays next r.ksid number p.actions) (fun s => RecordsOnly k₀ s.2) := by
  unfold relayFirst
  refine Triple.bind (triple_linkTo_frame next) fun ℓ => ?_
  refine Triple.bind (triple_prefetched_records r.ksid number sizeBits) fun keys => Triple.assume fun kept => ?_
  refine Triple.bind (triple_topUp_records r.ksid ℓ _ sizeBits) fun appBatch => Triple.assume fun topped => ?_
  refine Triple.bind (Triple.tryCatch (triple_generate_records r.ksid ℓ sizeBits number 0) ?undo
    (fun a => Triple.stop a)) fun otks => Triple.assume fun issued => ?_
  case undo =>
    intro f
    cases appBatch with
    | none => exact Triple.throw _ fun _ start => start
    | some b => exact Triple.bind (triple_engine_keeps_records _) fun _ => Triple.throw _ fun _ done => done
  dsimp only
  refine Triple.bind triple_wallSecs fun now => ?_
  refine Triple.bind (triple_lift_yields _ (fun forwards => forwards.length = number ∧
    ∀ f ∈ forwards, f.Forwards next r.ksid) ?masked) fun forwards => ?_
  case masked =>
    intro forwards mapped
    obtain ⟨length, each⟩ := Except.mapM_ok mapped
    refine ⟨by simp [length, List.length_zip, topped, issued]; omega, fun f member => ?_⟩
    obtain ⟨⟨⟨keyId, key⟩, otk⟩, -, masked⟩ := each f member
    obtain ⟨cipher, -, made⟩ := Except.bind_eq_ok masked
    cases made
    exact ⟨_, _, _, _, rfl⟩
  exact Triple.pure _ fun _ ⟨start, length, forwarded⟩ => ⟨start, _, forwards, rfl, ⟨_, _, _, rfl⟩, length, forwarded⟩

/-- The master's node of a session on a path of three nodes or more answers a request for keys
by relaying them to the next hop. -/
theorem triple_encKeys_relays {r : SessionRecord} {next : KmeId} (paired : k₀.sessions.byPair? r.src r.dst = some r)
    (first : r.role k₀.id = .ok (.first next)) (number : Nat) (size : Option Nat) :
    Triple (fun s => RecordsOnly k₀ s.2) (handle (.encKeys r.src r.dst number size))
      (fun p s => RecordsOnly k₀ s.2 ∧ Relays next r.ksid number p.actions) (fun s => RecordsOnly k₀ s.2) := by
  refine Triple.bind triple_sweepQuietly_records fun _ => ?_
  unfold encKeys
  refine Triple.bind ((sessionByApps_only paired).conseq (fun _ start => ⟨start, trivial⟩)
    (fun _ _ done => ⟨done.1.1, done.2⟩) (fun _ failed => failed.1)) fun r' => Triple.assume fun same => ?_
  subst r'
  refine Triple.bind triple_current_records fun k => Triple.assume fun only => ?_
  dsimp only
  split
  · exact Triple.throw_bind _ fun _ start => start
  refine Triple.bind (triple_checkCount number) fun _ => ?_
  refine Triple.bind (triple_lift _) fun sizeBits => ?_
  refine Triple.bind (triple_role_only only first) fun role => Triple.assume fun same => ?_
  subst same
  exact triple_relayFirst_relays r next number sizeBits

end Relaying

end Kme

namespace Network

/-- The node that serves an id. -/
def node? (n : Network) (id : KmeId) : Option Kme := (n.route? id).bind fun i => n.kmes[i]?

/-- The id and the sessions of each node, in the order the nodes joined. -/
def roster (n : Network) : List (KmeId × SessionIndex) := n.kmes.map fun k => (k.id, k.sessions)

/-- An id is routed to a node that answers to it. -/
theorem route?_eq_some {n : Network} {id : KmeId} {i : Nat} (found : n.route? id = some i) :
    ∃ k, n.kmes[i]? = some k ∧ k.id = id := by
  -- the scan over the indices keeps the last one that answers to the id
  have scan : ∀ (js : List Nat) (init : Option Nat), js.foldl (fun found j =>
      if (n.kmes[j]?.map (·.id)) = some id then some j else found) init = some i →
      (n.kmes[i]?.map (·.id)) = some id ∨ init = some i := by
    intro js
    induction js with
    | nil => exact fun init done => .inr done
    | cons j rest ih =>
      intro init done
      rcases ih _ done with hit | earlier
      · exact .inl hit
      · dsimp only at earlier
        split at earlier
        · rename_i hit
          cases earlier
          exact .inl hit
        · exact .inr earlier
  rcases scan _ none found with hit | nothing
  · exact Option.map_eq_some_iff.mp hit
  · cases nothing

theorem route?_congr {n n' : Network} (ids : n'.kmes.map (fun k : Kme => k.id) = n.kmes.map (fun k : Kme => k.id))
    (id : KmeId) :
    n'.route? id = n.route? id := by
  have lengths : n'.kmes.length = n.kmes.length := by simpa using congrArg List.length ids
  have named : ∀ i, n'.kmes[i]?.map (fun k : Kme => k.id) = n.kmes[i]?.map (fun k : Kme => k.id) := fun i => by
    rw [← List.getElem?_map, ← List.getElem?_map, ids]
  simp only [route?, lengths, named]

theorem node?_id {n : Network} {p : KmeId} {k : Kme} (found : n.node? p = some k) : k.id = p := by
  obtain ⟨i, routed, at_⟩ := Option.bind_eq_some_iff.mp found
  obtain ⟨k', at', named⟩ := route?_eq_some routed
  rw [at_] at at'
  cases at'
  exact named

/-- Networks of one roster route each id to nodes of the same id and sessions. -/
theorem node?_of_roster {n n' : Network} (same : n'.roster = n.roster) {p : KmeId} {k : Kme}
    (found : n.node? p = some k) : ∃ k', n'.node? p = some k' ∧ k'.id = k.id ∧ k'.sessions = k.sessions := by
  obtain ⟨i, routed, at_⟩ := Option.bind_eq_some_iff.mp found
  have ids : n'.kmes.map (fun k : Kme => k.id) = n.kmes.map (fun k : Kme => k.id) := by
    simpa [roster, Function.comp_def] using congrArg (List.map Prod.fst) same
  have entry : n'.roster[i]? = some (k.id, k.sessions) := by
    rw [same]
    simp [roster, at_]
  obtain ⟨k', at', named⟩ : ∃ k', n'.kmes[i]? = some k' ∧ (k'.id, k'.sessions) = (k.id, k.sessions) := by
    simpa [roster] using entry
  refine ⟨k', ?_, (Prod.mk.inj named).1, (Prod.mk.inj named).2⟩
  simp [node?, route?_congr ids, routed, at']

/-- A node that changed its records only leaves the roster as it was. -/
theorem roster_set {n : Network} {i : Nat} {k k' : Kme} (at_ : n.kmes[i]? = some k) (only : Kme.RecordsOnly k k')
    (e : Env) : ({ n with env := e, kmes := n.kmes.set i k' } : Network).roster = n.roster := by
  obtain ⟨bound, rfl⟩ := List.getElem?_eq_some_iff.mp at_
  have listed : i < (n.kmes.map fun k => (k.id, k.sessions)).length := by simpa using bound
  simp only [roster]
  rw [List.map_set, only.id, only.sessions, show (n.kmes[i].id, n.kmes[i].sessions) =
    (n.kmes.map fun k => (k.id, k.sessions))[i] by simp]
  exact List.set_getElem_self listed

theorem onKme_ok {α : Type} {i : Nat} {m : KmeM α} {n n' : Network} {a : α}
    (ran : onKme i m n = .ok (some (.ok a)) n') :
    ∃ k e k', n.kmes[i]? = some k ∧ m (n.env, k) = .ok a (e, k') ∧ n' = { n with env := e, kmes := n.kmes.set i k' } := by
  unfold onKme at ran
  split at ran
  · cases ran
  rename_i k found
  unfold EStateM.outcome at ran
  cases run : m (n.env, k) with
  | ok b s =>
    obtain ⟨e, k'⟩ := s
    rw [run] at ran
    cases ran
    exact ⟨k, e, k', found, run, rfl⟩
  | error h s =>
    obtain ⟨e, k'⟩ := s
    rw [run] at ran
    cases h <;> cases ran

/-- A node's reply that is not an error: it handled the request and made every call its plan
asks for. -/
theorem serveKme_ok {send : Call → NetM (Except TransportError Answer)} {i : Nat} {req : KmeRequest}
    {n n₁ : Network} {resp : KmeResponse} (ran : serveKme send i req n = .ok (some resp) n₁)
    (accepted : ∀ e, resp ≠ .error e) :
    ∃ plan n₀ reply, onKme i (Kme.handle req) n = .ok (some (.ok plan)) n₀ ∧
      performAll send plan.actions none n₀ = .ok (.ok reply) n₁ := by
  unfold serveKme at ran
  obtain ⟨handled, n₀, handling, ran⟩ := run_bind_eq_ok ran
  rcases handled with _ | _ | plan
  · cases ran
  · cases ran
    exact absurd rfl (accepted _)
  obtain ⟨performed, n₂, performing, ran⟩ := run_bind_eq_ok ran
  cases performed with
  | error e =>
    -- a failed call of the plan is answered with an error, after the clear keys are dropped
    dsimp only at ran
    split at ran
    · obtain ⟨_, n₃, -, ran⟩ := run_bind_eq_ok ran
      cases ran
      exact absurd rfl (accepted _)
    · cases ran
      exact absurd rfl (accepted _)
  | ok reply =>
    refine ⟨plan, n₀, reply, handling, ?_⟩
    dsimp only at ran
    revert ran
    cases plan.reply with
    | ready r =>
      intro ran
      cases ran
      exact performing
    | fromController =>
      -- the reply is read off the controller's answer, whatever it is
      intro ran
      rcases reply with _ | (_ | _ | reg | _) <;> cases ran <;> exact performing

/-- A call to a node that was answered: there was depth left, the node was found and served the
request, and the call was recorded after every call made to serve it. -/
theorem call_kme_ok {d : Nat} {q : KmeId} {req : KmeRequest} {n n' : Network} {ans : Answer}
    (ran : call d (.kme q req) n = .ok (.ok ans) n') :
    ∃ d' i resp n₁, d = d' + 1 ∧ n.route? q = some i ∧ serveKme (call d') i req n = .ok (some resp) n₁ ∧
      ans = .kme resp ∧ n' = { n₁ with transcript := n₁.transcript ++ [(.kme q, req.name)] } := by
  cases d with
  | zero => cases ran
  | succ d =>
    rw [call] at ran
    obtain ⟨m, n₀, got, ran⟩ := run_bind_eq_ok ran
    cases got
    split at ran
    · cases ran
    dsimp only at ran
    cases found : n.route? q with
    | none =>
      rw [found] at ran
      cases ran
    | some i =>
      rw [found] at ran
      obtain ⟨served, n₁, serving, ran⟩ := run_bind_eq_ok ran
      cases served with
      | none => cases ran
      | some resp =>
        obtain ⟨_, n₂, recorded, ran⟩ := run_bind_eq_ok ran
        cases recorded
        cases ran
        exact ⟨d, i, resp, n₁, rfl, rfl, serving, rfl, rfl⟩

/-- A plan whose calls all went through made its first call, a required one to a node, and was
answered without an error before it made the others. -/
theorem performAll_callKme {send : Call → NetM (Except TransportError Answer)} {q : KmeId} {req : KmeRequest}
    {rest : List Action} {reply out : Option ControllerResponse} {n n' : Network}
    (ran : performAll send (.callKme q req true :: rest) reply n = .ok (.ok out) n') :
    ∃ ans n₁ reply', send (.kme q req) n = .ok (.ok ans) n₁ ∧ (∀ e, ans ≠ .kme (.error e)) ∧
      performAll send rest reply' n₁ = .ok (.ok out) n' := by
  rw [performAll] at ran
  obtain ⟨performed, n₁, performing, ran⟩ := run_bind_eq_ok ran
  rw [perform] at performing
  obtain ⟨sent, n₂, sending, performing⟩ := run_bind_eq_ok performing
  -- an unreachable node or an error reply fails the call, and so the plan
  rcases sent with t | (resp | answer)
  · cases performing
    cases ran
  · cases resp with
    | error e =>
      cases performing
      cases ran
    | _ =>
      cases performing
      refine ⟨_, _, reply, sending, fun e same => ?_, ran⟩
      cases same
  · cases performing
    refine ⟨_, _, reply, sending, fun e same => ?_, ran⟩
    cases same

/-- A call that, answered without an error in a network of roster `R`, leaves the roster as it
was and adds `log` to the transcript. -/
def Logs (send : Call → NetM (Except TransportError Answer)) (R : List (KmeId × SessionIndex)) (c : Call)
    (log : List (Peer × String)) : Prop :=
  ∀ n n' ans, n.roster = R → send c n = .ok (.ok ans) n' → (∀ e, ans ≠ .kme (.error e)) →
    n'.roster = R ∧ n'.transcript = n.transcript ++ log

/-- No call is answered without depth left. -/
theorem logs_zero {R : List (KmeId × SessionIndex)} {c : Call} {log : List (Peer × String)} :
    Logs (call 0) R c log := by
  intro n n' ans _ ran
  cases ran

/-- Required calls to nodes, each logging `log`, made in order and all answered: the roster stays
and each call adds its log in turn. -/
theorem performAll_uniform {send : Call → NetM (Except TransportError Answer)} {R : List (KmeId × SessionIndex)}
    {log : List (Peer × String)} {actions : List Action}
    (each : ∀ a ∈ actions, ∃ q req, a = .callKme q req true ∧ Logs send R (.kme q req) log)
    {reply out : Option ControllerResponse} {n n' : Network} (start : n.roster = R)
    (ran : performAll send actions reply n = .ok (.ok out) n') :
    n'.roster = R ∧ n'.transcript = n.transcript ++ (List.replicate actions.length log).flatten := by
  induction actions generalizing reply n with
  | nil =>
    cases ran
    exact ⟨start, by simp⟩
  | cons a rest ih =>
    obtain ⟨q, req, rfl, logs⟩ := each a List.mem_cons_self
    obtain ⟨ans, n₁, reply', sent, accepted, ran⟩ := performAll_callKme ran
    obtain ⟨kept, logged⟩ := logs n n₁ ans start sent accepted
    obtain ⟨kept', logged'⟩ := ih (fun b member => each b (List.mem_cons_of_mem _ member)) kept ran
    refine ⟨kept', ?_⟩
    rw [logged', logged, List.length_cons, List.replicate_succ, List.flatten_cons, List.append_assoc]

/-- A relay of `count` keys to `next`, all answered: the rows' log, then each key's. -/
theorem performAll_relays {send : Call → NetM (Except TransportError Answer)} {R : List (KmeId × SessionIndex)}
    {next : KmeId} {ksid : Ksid} {count : Nat} {sync chain : List (Peer × String)}
    (synced : ∀ ℓ rows consumed, Logs send R (.kme next (.syncKeys ℓ rows consumed)) sync)
    (forwarded : ∀ keyId otkId cipher size, Logs send R (.kme next (.relayForward ksid keyId otkId cipher size)) chain)
    {actions : List Action} (relays : Relays next ksid count actions) {reply out : Option ControllerResponse}
    {n n' : Network} (start : n.roster = R) (ran : performAll send actions reply n = .ok (.ok out) n') :
    n'.roster = R ∧ n'.transcript = n.transcript ++ sync ++ (List.replicate count chain).flatten := by
  obtain ⟨_, forwards, rfl, ⟨ℓ, rows, consumed, rfl⟩, counted, each⟩ := relays
  obtain ⟨ans, n₁, reply', sent, accepted, ran⟩ := performAll_callKme ran
  obtain ⟨kept, logged⟩ := synced ℓ rows consumed n n₁ ans start sent accepted
  have uniform : ∀ a ∈ forwards, ∃ q req, a = .callKme q req true ∧ Logs send R (.kme q req) chain := by
    intro a member
    obtain ⟨keyId, otkId, cipher, size, rfl⟩ := each a member
    exact ⟨_, _, rfl, forwarded keyId otkId cipher size⟩
  obtain ⟨kept', logged'⟩ := performAll_uniform uniform kept ran
  exact ⟨kept', by rw [logged', logged, counted, List.append_assoc]⟩

/-- A call to a node that changes its records only, and whose plan's calls log `inner` whenever
they are all answered: answered, the call logs `inner` and then itself. -/
theorem logs_call {d : Nat} {R : List (KmeId × SessionIndex)} {q : KmeId} {req : KmeRequest}
    {inner : List (Peer × String)} (Shape : List Action → Prop)
    (handled : ∀ (n : Network) (k : Kme), n.roster = R → n.node? q = some k →
      Triple (fun s => Kme.RecordsOnly k s.2) (Kme.handle req) (fun p s => Kme.RecordsOnly k s.2 ∧ Shape p.actions)
        (fun s => Kme.RecordsOnly k s.2))
    (performed : ∀ actions, Shape actions → ∀ {reply out : Option ControllerResponse} {n n' : Network}, n.roster = R →
      performAll (call d) actions reply n = .ok (.ok out) n' → n'.roster = R ∧ n'.transcript = n.transcript ++ inner) :
    Logs (call (d + 1)) R (.kme q req) (inner ++ [(.kme q, req.name)]) := by
  intro n n' ans start ran accepted
  obtain ⟨d', i, resp, n₁, deeper, routed, serving, rfl, rfl⟩ := call_kme_ok ran
  cases deeper
  obtain ⟨plan, n₀, reply, handling, performing⟩ :=
    serveKme_ok serving fun e same => accepted e (congrArg Answer.kme same)
  obtain ⟨k, e, k', at_, answered, rfl⟩ := onKme_ok handling
  have found : n.node? q = some k := by simp [node?, routed, at_]
  have landed := handled n k start found (n.env, k) (Kme.RecordsOnly.refl k)
  rw [answered] at landed
  obtain ⟨only, shape⟩ := landed
  obtain ⟨kept, logged⟩ := performed plan.actions shape ((roster_set at_ only e).trans start) performing
  exact ⟨kept, by simp [logged]⟩

/-- An empty plan is carried out at once and logs nothing. -/
theorem performAll_nil_logs {send : Call → NetM (Except TransportError Answer)} {R : List (KmeId × SessionIndex)}
    (actions : List Action) (empty : actions = []) {reply out : Option ControllerResponse} {n n' : Network}
    (start : n.roster = R) (ran : performAll send actions reply n = .ok (.ok out) n') :
    n'.roster = R ∧ n'.transcript = n.transcript ++ [] := by
  subst empty
  cases ran
  exact ⟨start, by simp⟩

/-- A node asked to store synced rows calls no one: answered, the call logs itself alone. -/
theorem syncKeys_logs (d : Nat) (R : List (KmeId × SessionIndex)) (q : KmeId) (ℓ : LinkId) (rows : List KeyRow)
    (consumed : List Span) : Logs (call d) R (.kme q (.syncKeys ℓ rows consumed)) [(.kme q, "sync_keys")] := by
  cases d with
  | zero => exact logs_zero
  | succ d =>
    show Logs _ _ _ ([] ++ [(.kme q, (KmeRequest.syncKeys ℓ rows consumed).name)])
    exact logs_call (fun actions => actions = []) (fun _ _ _ _ => Kme.triple_syncKeys_records ℓ rows consumed)
      performAll_nil_logs

/-- A call from outside answered by a node is a call answered by the node. -/
theorem callKme_ok {id : KmeId} {req : KmeRequest} {n n' : Network} {resp : KmeResponse}
    (ran : callKme id req n = .ok (.ok resp) n') : call depth (.kme id req) n = .ok (.ok (.kme resp)) n' := by
  unfold callKme at ran
  obtain ⟨answered, n₁, calling, ran⟩ := run_bind_eq_ok ran
  rcases answered with t | (r | c) <;> cases ran
  exact calling

/-- The calls that complete when a key is relayed to the first of `hops`, in the order they
complete: a hop before the last has its one-time key's row stored at the next hop and the key
relayed on from there, and then its own call completes. -/
def relayChain : List KmeId → List (Peer × String)
  | [] => []
  | [p] => [(.kme p, "relay_forward")]
  | p :: q :: rest => [(.kme q, "sync_keys")] ++ relayChain (q :: rest) ++ [(.kme p, "relay_forward")]

section Relay

variable {N : Network} {r : SessionRecord}

/-- In a network of `N`'s roster, the node serving a hop after the first holds the session and
answers to the hop. -/
theorem hop_serves (hops : ∀ p ∈ r.path.tail, ∃ k, N.node? p = some k ∧ k.sessions.get? r.ksid = some r)
    {i : Nat} (bound : i < r.path.length) (inner : 0 < i) {n : Network} (same : n.roster = N.roster) {k : Kme}
    (found : n.node? r.path[i] = some k) : k.sessions.get? r.ksid = some r ∧ k.id = r.path[i] := by
  have member : r.path[i] ∈ r.path.tail :=
    List.mem_iff_getElem.mpr ⟨i - 1, by simp; omega, by simp only [List.getElem_tail]; congr 1; omega⟩
  obtain ⟨k₀, there, held⟩ := hops _ member
  obtain ⟨k', here, -, sessions⟩ := node?_of_roster same there
  rw [found] at here
  cases here
  exact ⟨sessions ▸ held, node?_id found⟩

/-- The node serving a hop after the first, in a network of `N`'s roster, handles a relayed key
as the hop's role says. -/
theorem hop_onward (hops : ∀ p ∈ r.path.tail, ∃ k, N.node? p = some k ∧ k.sessions.get? r.ksid = some r)
    {i : Nat} (bound : i < r.path.length) (inner : 0 < i) {role : Role} (placed : r.role r.path[i] = .ok role)
    (keyId otkId : KeyId) (cipher : String) (size : Nat) (n : Network) (k : Kme) (same : n.roster = N.roster)
    (found : n.node? r.path[i] = some k) :
    Triple (fun s => Kme.RecordsOnly k s.2) (Kme.handle (.relayForward r.ksid keyId otkId cipher size))
      (fun p s => Kme.RecordsOnly k s.2 ∧ Onward r.ksid role p.actions) (fun s => Kme.RecordsOnly k s.2) := by
  obtain ⟨held, named⟩ := hop_serves hops bound inner same found
  rw [← named] at placed
  exact Kme.triple_relayForward_onward held placed keyId otkId cipher size

/-- A key relayed to the `i`-th hop of a path, `j` hops before its last: answered, the call
completes the calls of `relayChain` from that hop on. The induction runs from the last hop back
along the path. -/
theorem relayForward_logs (simple : r.path.Nodup) (long : 3 ≤ r.path.length)
    (hops : ∀ p ∈ r.path.tail, ∃ k, N.node? p = some k ∧ k.sessions.get? r.ksid = some r) (j : Nat) :
    ∀ (i : Nat) (bound : i < r.path.length), i + j + 1 = r.path.length → 0 < i →
      ∀ d keyId otkId cipher size, Logs (call d) N.roster (.kme r.path[i] (.relayForward r.ksid keyId otkId cipher size))
        (relayChain (r.path.drop i)) := by
  induction j with
  | zero =>
    -- the last hop keeps the key
    intro i bound total inner d keyId otkId cipher size
    obtain rfl : i = r.path.length - 1 := by omega
    have last : r.path.drop (r.path.length - 1) = [r.path[r.path.length - 1]] := by
      rw [List.drop_eq_getElem_cons bound, List.drop_eq_nil_of_le (by omega)]
    rw [last]
    cases d with
    | zero => exact logs_zero
    | succ d =>
      show Logs _ _ _ ([] ++ [(.kme r.path[r.path.length - 1],
        (KmeRequest.relayForward r.ksid keyId otkId cipher size).name)])
      have placed := SessionRecord.role_last simple long (List.getElem?_eq_getElem (by omega))
        (List.getElem?_eq_getElem bound)
      exact logs_call (fun actions => actions = []) (hop_onward hops bound inner placed keyId otkId cipher size)
        performAll_nil_logs
  | succ j ih =>
    -- a middle hop stores its one-time key's row at the next hop, then relays the key there
    intro i bound total inner d keyId otkId cipher size
    have next : i + 1 < r.path.length := by omega
    have unfolded : relayChain (r.path.drop i) = [(.kme r.path[i + 1], "sync_keys")] ++
        relayChain (r.path.drop (i + 1)) ++ [(.kme r.path[i], "relay_forward")] := by
      rw [List.drop_eq_getElem_cons bound, List.drop_eq_getElem_cons next]
      rfl
    rw [unfolded]
    cases d with
    | zero => exact logs_zero
    | succ d =>
      have placed := SessionRecord.role_middle simple inner (List.getElem?_eq_getElem (by omega))
        (List.getElem?_eq_getElem bound) (List.getElem?_eq_getElem next)
      refine logs_call (Relays r.path[i + 1] r.ksid 1) (hop_onward hops bound inner placed keyId otkId cipher size) ?_
      intro actions relays _ _ n n' start ran
      obtain ⟨kept, logged⟩ := performAll_relays (syncKeys_logs d N.roster r.path[i + 1])
        (fun keyId otkId cipher size => ih (i + 1) next (by omega) (by omega) d keyId otkId cipher size)
        relays start ran
      exact ⟨kept, by simp [logged]⟩

end Relay

/-- Relay hops run in path order. On a path `p₀ p₁ p₂ …` of three nodes or more without a
repeated node, where the node serving `p₀` pairs the session's applications with the session
and every later hop holds it, a request for `number` keys answered with keys completes the
call storing the one-time keys' rows at `p₁`, then each key's relay along the path in turn,
and last the request itself. So every hop stores its one-time key's row before the key that
needs it arrives, and a key's relay starts only once the one before has come back. -/
theorem relay_hops_in_path_order {N N' : Network} {r : SessionRecord} {p₀ p₁ p₂ : KmeId} {rest : List KmeId}
    {number : Nat} {size : Option Nat} {keys : List KeyContainer}
    (path : r.path = p₀ :: p₁ :: p₂ :: rest) (simple : r.path.Nodup)
    (master : ∃ k, N.node? p₀ = some k ∧ k.sessions.byPair? r.src r.dst = some r)
    (hops : ∀ p ∈ p₁ :: p₂ :: rest, ∃ k, N.node? p = some k ∧ k.sessions.get? r.ksid = some r)
    (served : callKme p₀ (.encKeys r.src r.dst number size) N = .ok (.ok (.keys keys)) N') :
    N'.transcript = N.transcript ++ [(.kme p₁, "sync_keys")] ++
      (List.replicate number (relayChain (p₁ :: p₂ :: rest))).flatten ++ [(.kme p₀, "enc_keys")] := by
  have long : 3 ≤ r.path.length := by simp [path]
  have second : r.path[1] = p₁ := by simp [path]
  have later : r.path.drop 1 = p₁ :: p₂ :: rest := by simp [path]
  have tail : r.path.tail = p₁ :: p₂ :: rest := by simp [path]
  -- the master's node relays the keys to `p₁`, which passes each on along the path
  have relayed : ∀ keyId otkId cipher size, Logs (call 999) N.roster
      (.kme p₁ (.relayForward r.ksid keyId otkId cipher size)) (relayChain (p₁ :: p₂ :: rest)) := by
    intro keyId otkId cipher size
    rw [← later, ← second]
    exact relayForward_logs simple long (tail ▸ hops) (r.path.length - 2) 1 (by omega) (by omega) (by omega)
      999 keyId otkId cipher size
  have logs : Logs (call (999 + 1)) N.roster (.kme p₀ (.encKeys r.src r.dst number size))
      ([(.kme p₁, "sync_keys")] ++ (List.replicate number (relayChain (p₁ :: p₂ :: rest))).flatten ++
        [(.kme p₀, "enc_keys")]) := by
    refine logs_call (Relays p₁ r.ksid number) (fun n k same found => ?_) ?_
    · obtain ⟨k₀, there, paired⟩ := master
      obtain ⟨k', here, named, sessions⟩ := node?_of_roster same there
      rw [found] at here
      cases here
      have placed : r.role k.id = .ok (.first p₁) := by
        rw [named, node?_id there]
        exact SessionRecord.role_first simple long (by simp [path]) (by simp [path])
      exact Kme.triple_encKeys_relays (sessions ▸ paired) placed number size
    · intro actions relays _ _ n n' start ran
      obtain ⟨kept, logged⟩ := performAll_relays (syncKeys_logs 999 N.roster p₁) relayed relays start ran
      exact ⟨kept, by rw [logged, List.append_assoc]⟩
  obtain ⟨-, logged⟩ := logs N N' _ rfl (callKme_ok served) fun e same => by cases same
  rw [logged]
  simp

/-- The keys an answer from outside handed out, and the network after, when it handed out keys. -/
def keysOf : EStateM.Result Abort Network (Except TransportError KmeResponse) → Option (List KeyContainer × Network)
  | .ok (.ok (.keys keys)) n => some (keys, n)
  | _ => none

theorem keysOf_eq_some {res : EStateM.Result Abort Network (Except TransportError KmeResponse)}
    {keys : List KeyContainer} {n : Network} (found : keysOf res = some (keys, n)) :
    res = .ok (.ok (.keys keys)) n := by
  unfold keysOf at found
  split at found
  · cases found
    rfl
  · cases found

/-- Session 7 of applications 10 and 11, relayed along nodes 1, 2 and 3. -/
def lineSession : SessionRecord := ⟨⟨7⟩, ⟨10⟩, ⟨11⟩, ⟨1⟩, ⟨3⟩, ⟨64, 1000⟩, [⟨1⟩, ⟨2⟩, ⟨3⟩], 1000⟩

/-- A block of 32 bytes delivered on a link at both of its ends. -/
def lineBlock (id link : Nat) : Block := ⟨⟨id⟩, ⟨link⟩, 1000, 0, (List.range 32).map Nat.toUInt8, 0, 0⟩

/-- A node of the line holding its blocks, its links confirmed with their companions, and the
session. -/
def lineNode (id : Nat) (blocks : List Block) (links : List (Nat × Nat)) : Kme :=
  { id := ⟨id⟩, config := {}, pool := ⟨15, 1⟩,
    storage := { data := blocks.foldl (fun d b => (d.insertBlock b).2) {} },
    sessions := (({} : SessionIndex).insert lineSession).1,
    links := links.foldl (fun t l => t.insert ⟨l.1⟩ ⟨⟨⟨l.1⟩, some ⟨l.2⟩, none, 0, 15, 1000⟩, {}⟩) {} }

/-- Nodes 1, 2 and 3 in a line, on links 12 and 23. -/
def lineOfThree : Network :=
  { env := {}, kmes := [lineNode 1 [lineBlock 5 12] [(12, 2)],
      lineNode 2 [lineBlock 5 12, lineBlock 6 23] [(12, 1), (23, 3)], lineNode 3 [lineBlock 6 23] [(23, 2)]] }

/-- Two keys of 64 bits relayed along the line: the rows at node 2, then each key's relay. -/
theorem relay_hops_in_path_order_on_a_line :
    ∃ keys N', callKme ⟨1⟩ (.encKeys ⟨10⟩ ⟨11⟩ 2 (some 64)) lineOfThree = .ok (.ok (.keys keys)) N' ∧
      N'.transcript = [(.kme ⟨2⟩, "sync_keys"), (.kme ⟨3⟩, "sync_keys"), (.kme ⟨3⟩, "relay_forward"),
        (.kme ⟨2⟩, "relay_forward"), (.kme ⟨3⟩, "sync_keys"), (.kme ⟨3⟩, "relay_forward"),
        (.kme ⟨2⟩, "relay_forward"), (.kme ⟨1⟩, "enc_keys")] := by
  have answered : (keysOf (callKme ⟨1⟩ (.encKeys ⟨10⟩ ⟨11⟩ 2 (some 64)) lineOfThree)).isSome = true := by
    decide +kernel
  obtain ⟨⟨keys, N'⟩, found⟩ := Option.isSome_iff_exists.mp answered
  have served := keysOf_eq_some found
  have hops : ∀ p ∈ [(⟨2⟩ : KmeId), ⟨3⟩], ∃ k, lineOfThree.node? p = some k ∧
      k.sessions.get? lineSession.ksid = some lineSession := by
    intro p member
    simp only [List.mem_cons, List.not_mem_nil, or_false] at member
    rcases member with rfl | rfl
    · exact ⟨_, rfl, rfl⟩
    · exact ⟨_, rfl, rfl⟩
  refine ⟨keys, N', served, ?_⟩
  rw [@relay_hops_in_path_order lineOfThree N' lineSession ⟨1⟩ ⟨2⟩ ⟨3⟩ [] 2 (some 64) keys rfl (by decide)
    ⟨_, rfl, rfl⟩ hops served]
  rfl

end Network

end KeyRelay
