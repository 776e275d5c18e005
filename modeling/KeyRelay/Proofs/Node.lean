import KeyRelay.Kme
import KeyRelay.Proofs.Engine

/-! A node's computations seen through its blocks and the links it knows. A run that stops the
program ends everything, so a node's computation is specified by `Triple P m Q E`: from a state
with `P`, a run that does not stop returns a value and a state with `Q`, or fails with a fault in
a state with `E`. Each function a request handler calls gets one triple here.

Relative to the node `k` a request starts from, a key request first only drops blocks
(`Kme.Shrunk`), then may cut spans from one link (`Kme.Cut`); a generation that fails gives its
spans back, and undoing a batch does too. -/

namespace KeyRelay

/-- How a run ended, as a triple asks: `Q` of a returned value, `E` of a fault, nothing of a
stop. -/
def Lands {σ α : Type} (Q : α → σ → Prop) (E : σ → Prop) : EStateM.Result Halt σ α → Prop
  | .ok a t => Q a t
  | .error (.fault _) t => E t
  | .error (.abort _) _ => True

/-- From a state with `P`, a run of `m` that does not stop the program returns a value and a
state with `Q`, or fails with a fault in a state with `E`. -/
def Triple {σ α : Type} (P : σ → Prop) (m : EStateM Halt σ α) (Q : α → σ → Prop) (E : σ → Prop) :
    Prop :=
  ∀ s, P s → Lands Q E (m s)

namespace Triple

variable {σ α β : Type} {P P' : σ → Prop} {Q Q' : α → σ → Prop} {E E' : σ → Prop}
  {m : EStateM Halt σ α}

theorem conseq (t : Triple P m Q E) (pre : ∀ s, P' s → P s) (post : ∀ a s, Q a s → Q' a s)
    (err : ∀ s, E s → E' s) : Triple P' m Q' E' := by
  intro s holds
  have landed := t s (pre s holds)
  revert landed
  cases m s with
  | ok a t => exact post a t
  | error h t =>
    cases h with
    | fault f => exact err t
    | abort a => exact id

theorem pure (a : α) (holds : ∀ s, P s → Q a s) : Triple P (Pure.pure a) Q E := holds

theorem throw (e : Halt) (holds : ∀ s, P s → E s) :
    Triple P (MonadExcept.throw e : EStateM Halt σ α) Q E := by
  intro s start
  cases e with
  | fault f => exact holds s start
  | abort a => trivial

/-- A stop of the program is no concern of a triple. -/
theorem stop (a : Abort) : Triple P (MonadExcept.throw (Halt.abort a) : EStateM Halt σ α) Q E :=
  fun _ _ => trivial

theorem bind {R : β → σ → Prop} {f : α → EStateM Halt σ β} (first : Triple P m Q E)
    (rest : ∀ a, Triple (Q a) (f a) R E) : Triple P (m >>= f) R E := by
  intro s start
  have landed := first s start
  show Lands R E (EStateM.bind m f s)
  unfold EStateM.bind
  revert landed
  cases m s with
  | ok a t => exact rest a t
  | error h t =>
    cases h with
    | fault f => exact id
    | abort a => exact id

/-- The handler of a failure runs from a state of the failure; a stop passes through it. -/
theorem tryCatch {E₀ : σ → Prop} {handler : Halt → EStateM Halt σ α} (first : Triple P m Q E₀)
    (recover : ∀ f, Triple E₀ (handler (.fault f)) Q E)
    (stops : ∀ a, Triple (fun _ => True) (handler (.abort a)) Q E) : Triple P (tryCatch m handler) Q E := by
  intro s start
  have landed := first s start
  show Lands Q E (EStateM.tryCatch m handler s)
  unfold EStateM.tryCatch
  revert landed
  cases m s with
  | ok a t => exact id
  | error h t =>
    cases h with
    | fault f => exact recover f t
    | abort a => exact fun _ => stops a t trivial

theorem ofExcept (r : Except Halt α) (holds : ∀ s, P s → E s ∧ ∀ a, r = .ok a → Q a s) :
    Triple P (EStateM.ofExcept r) Q E := by
  cases r with
  | error h => exact throw h fun s start => (holds s start).1
  | ok a => exact pure a fun s start => (holds s start).2 a rfl

theorem throw_bind {f : α → EStateM Halt σ β} {R : β → σ → Prop} (e : Halt) (holds : ∀ s, P s → E s) :
    Triple P (MonadExcept.throw e >>= f) R E := by
  intro s start
  cases e with
  | fault f => exact holds s start
  | abort a => trivial

/-- A fact the precondition carries may be assumed. -/
theorem assume {φ : Prop} {A : σ → Prop} (t : φ → Triple A m Q E) : Triple (fun s => A s ∧ φ) m Q E :=
  fun s start => t start.2 s start.1

end Triple

/-- A call asking a link's companion to follow what this end consumed. -/
structure Sync where
  target : KmeId
  link : LinkId
  rows : List KeyRow
  consumed : List Span

/-- The call of an action, when it asks to follow a carve. -/
def Action.sync? : Action → Option Sync
  | .callKme kme (.syncKeys link rows consumed) _ => some ⟨kme, link, rows, consumed⟩
  | _ => none

/-- The calls of a plan that ask to follow carves. -/
def Plan.syncs (p : Plan) : List Sync := p.actions.filterMap Action.sync?

/-- Every block of `w` is one of `v`, as it was. -/
def Shrinks (v w : BlockId → Option Block) : Prop := ∀ X b, w X = some b → v X = some b

theorem Shrinks.refl (v : BlockId → Option Block) : Shrinks v v := fun _ _ found => found

theorem Shrinks.trans {u v w : BlockId → Option Block} (first : Shrinks u v) (second : Shrinks v w) :
    Shrinks u w := fun X b found => first X b (second X b found)

namespace Kme

/-- The node's blocks without their reference counts. -/
def bare (k : Kme) : BlockId → Option Block := k.storage.data.bare

/-- The links confirmed with a companion, each with its companion. -/
def partners (k : Kme) : List (LinkId × KmeId) :=
  k.links.values.filterMap fun s => s.record.companion.map (s.record.link, ·)

/-- From `k`, the node `k'` has only dropped blocks: its records are steady and its links the
same. -/
structure Shrunk (k k' : Kme) : Prop where
  steady : k'.storage.Steady
  links : k'.links = k.links
  blocks : Shrinks k.bare k'.bare

/-- From `k`, the node `k'` has dropped blocks and then cut the spans `C` from blocks of link
`ℓ`. -/
structure Cut (k : Kme) (ℓ : LinkId) (C : List Span) (k' : Kme) : Prop where
  steady : k'.storage.Steady
  links : k'.links = k.links
  carves : ∃ v, Shrinks k.bare v ∧ Carves ℓ v C k'.bare

theorem Shrunk.refl {k : Kme} (steady : k.storage.Steady) : Shrunk k k :=
  ⟨steady, rfl, Shrinks.refl _⟩

theorem Shrunk.trans {k k₁ k₂ : Kme} (first : Shrunk k k₁) (second : Shrunk k₁ k₂) : Shrunk k k₂ :=
  ⟨second.steady, second.links.trans first.links, first.blocks.trans second.blocks⟩

theorem cut_nil {k k' : Kme} {ℓ : LinkId} : Cut k ℓ [] k' ↔ Shrunk k k' := by
  constructor
  · rintro ⟨steady, links, v, shrinks, carves⟩
    have same : k'.bare = v := by
      funext X
      rw [carves.get_eq X]
      cases v X <;> rfl
    exact ⟨steady, links, same ▸ shrinks⟩
  · rintro ⟨steady, links, shrinks⟩
    exact ⟨steady, links, k'.bare, shrinks, .nil⟩

/-- What a request for keys leaves: blocks dropped and nothing to follow, or blocks dropped and
then spans cut from one link, which the plan asks that link's companion to follow. -/
def Carved (k : Kme) (p : Plan) (k' : Kme) : Prop :=
  (p.syncs = [] ∧ Shrunk k k') ∨
    ∃ c ℓ rows C, p.syncs = [⟨c, ℓ, rows, C⟩] ∧ (ℓ, c) ∈ k.partners ∧ Cut k ℓ C k'

/-! ### The functions a handler calls -/

theorem run_engine {α : Type} (m : EngineM α) (s : Env × Kme) :
    engine m s = match m (s.1, s.2.storage) with
      | .ok a t => .ok a (t.1, { s.2 with storage := t.2 })
      | .error f t => .error (.fault f) (t.1, { s.2 with storage := t.2 }) := by
  simp only [engine, EStateM.mapError, EStateM.focus]
  cases m (s.1, s.2.storage) <;> rfl

theorem Shrunk.storage {k k' : Kme} {st : Storage} (shrunk : Shrunk k k')
    (kept : Storage.Kept k'.storage st) : Shrunk k { k' with storage := st } :=
  let ⟨steady, blocks⟩ := kept shrunk.steady
  ⟨steady, shrunk.links, shrunk.blocks.trans blocks⟩

/-- The blocks the records hold after they were put back as they were. -/
theorem Cut.restored {k₀ k : Kme} {ℓ : LinkId} {C : List Span} {st : Storage} (cut : Cut k₀ ℓ C k)
    (steady : st.Steady) (view : st.data.bare = k.bare) : Cut k₀ ℓ C { k with storage := st } := by
  obtain ⟨v, shrinks, carves⟩ := cut.carves
  refine ⟨steady, cut.links, v, shrinks, ?_⟩
  show Carves ℓ v C st.data.bare
  rw [view]
  exact carves

theorem Cut.extend {k₀ k : Kme} {ℓ : LinkId} {C D : List Span} {st : Storage} (cut : Cut k₀ ℓ C k)
    (steady : st.Steady) (more : Carves ℓ k.bare D st.data.bare) :
    Cut k₀ ℓ (C ++ D) { k with storage := st } :=
  let ⟨v, shrinks, carves⟩ := cut.carves
  ⟨steady, cut.links, v, shrinks, carves.append more⟩

section Calls

variable {α : Type} {k₀ : Kme} {P : Env × Kme → Prop} {E : Env × Kme → Prop}

/-- A computation of the key engine that keeps the blocks leaves the node shrunk, and its value
has what the computation promises. -/
theorem triple_engine {R : α → Prop} {m : EngineM α} (yields : Yields Engine.Kept R m) :
    Triple (fun s => Shrunk k₀ s.2) (engine m) (fun a s => Shrunk k₀ s.2 ∧ R a) (fun s => Shrunk k₀ s.2) := by
  intro s start
  have landed := yields (s.1, s.2.storage)
  rw [run_engine]
  revert landed
  cases m (s.1, s.2.storage) with
  | ok a t => exact fun ⟨kept, holds⟩ => ⟨start.storage kept, holds⟩
  | error f t => exact fun kept => start.storage kept

theorem triple_engine_keeps {m : EngineM α} (keeps : Keeps Engine.Kept m) :
    Triple (fun s => Shrunk k₀ s.2) (engine m) (fun _ s => Shrunk k₀ s.2) (fun s => Shrunk k₀ s.2) :=
  (triple_engine (Yields.of_keeps keeps)).conseq (fun _ start => start) (fun _ _ done => done.1)
    (fun _ failed => failed)

theorem triple_records_keeps {m : StoreM α} (keeps : Keeps Storage.Kept m) :
    Triple (fun s => Shrunk k₀ s.2) (records m) (fun _ s => Shrunk k₀ s.2) (fun s => Shrunk k₀ s.2) :=
  triple_engine_keeps (Engine.keeps_records keeps)

theorem triple_current : Triple P current (fun k s => P s ∧ s.2 = k) E := fun _ start => ⟨start, rfl⟩

theorem triple_wallSecs : Triple P wallSecs (fun _ => P) E := fun _ start => start

theorem triple_lift (r : Except Fault α) : Triple P (lift r) (fun _ => P) P := by
  unfold lift
  cases r with
  | error f => exact Triple.throw _ fun _ start => start
  | ok a => exact Triple.pure a fun _ start => start

theorem triple_fail (f : Fault) {Q : α → Env × Kme → Prop} (holds : ∀ s, P s → E s) :
    Triple P (fail f) Q E :=
  Triple.throw _ holds

/-- A change of the node that keeps its records and links. -/
theorem triple_change (f : Kme → Kme) (keeps : ∀ k, (f k).storage = k.storage ∧ (f k).links = k.links) :
    Triple (fun s => Shrunk k₀ s.2) (change f) (fun _ s => Shrunk k₀ s.2) E := by
  intro s start
  obtain ⟨storage, links⟩ := keeps s.2
  exact ⟨storage ▸ start.steady, links.trans start.links, by
    intro X b found
    exact start.blocks X b (by simpa [bare, storage] using found)⟩

theorem triple_sweepQuietly :
    Triple (fun s => Shrunk k₀ s.2) sweepQuietly (fun _ s => Shrunk k₀ s.2) (fun s => Shrunk k₀ s.2) := by
  unfold sweepQuietly
  refine Triple.bind triple_current fun k => ?_
  refine (triple_engine_keeps (Keeps.attempt Engine.kept_chains ?_)).conseq
    (fun _ start => start.1) (fun _ _ done => done) (fun _ failed => failed)
  exact Keeps.bind Engine.kept_chains (Engine.keeps_sweep _) fun _ => Keeps.pure Engine.kept_chains _

/-- The link to a neighbour is one confirmed with it. -/
theorem triple_linkTo (c : KmeId) :
    Triple (fun s => Shrunk k₀ s.2) (linkTo c) (fun ℓ s => Shrunk k₀ s.2 ∧ (ℓ, c) ∈ k₀.partners)
      (fun s => Shrunk k₀ s.2) := by
  unfold linkTo
  refine Triple.bind triple_current fun k => ?_
  dsimp only
  split
  · rename_i ℓ rest sorted
    refine Triple.pure ℓ fun s ⟨start, here⟩ => ⟨start, ?_⟩
    have first : ℓ ∈ sortedBy (·.val) ((k.links.values.filter (·.record.companion = some c)).map (·.record.link)) := by
      rw [sorted]
      exact List.mem_cons_self
    have listed : ℓ ∈ (k.links.values.filter (·.record.companion = some c)).map (·.record.link) :=
      List.mem_mergeSort.mp first
    obtain ⟨st, member, rfl⟩ := List.mem_map.mp listed
    obtain ⟨known, confirmed⟩ := List.mem_filter.mp member
    have links : k.links = k₀.links := here ▸ start.links
    unfold partners
    rw [← links]
    exact List.mem_filterMap.mpr ⟨st, known, by simp [of_decide_eq_true confirmed]⟩
  · exact triple_fail _ fun _ start => start.1

/-- The link picked is one of those offered. -/
theorem yields_pickLink (pool : Pool) (needed : Nat) : ∀ (offered : List (LinkId × KmeId))
    (best : Option (LinkId × Nat)),
    Yields Engine.Kept (fun r => ∀ x, r = .ok x → x ∈ offered) (pickLink pool needed offered best)
  | [], _ => Yields.pure Engine.kept_chains fun _ picked => by cases picked
  | (ℓ, c) :: rest, best => by
    rw [pickLink]
    refine Yields.bind Engine.kept_chains (Engine.keeps_available pool ℓ) fun available => ?_
    split
    · exact Yields.pure Engine.kept_chains fun x picked => by
        cases picked
        exact List.mem_cons_self
    · exact (yields_pickLink pool needed rest _).imp fun _ later x picked =>
        List.mem_cons_of_mem _ (later x picked)

/-- A kept key taken for a request has the size asked for. -/
theorem yields_takePrefetched (ksid : Ksid) (sizeBits : Nat) :
    Yields Engine.Kept (fun r => ∀ l, r = some l → l.material.bitLen = sizeBits)
      (Engine.takePrefetched ksid sizeBits) := by
  unfold Engine.takePrefetched
  refine Yields.bind Engine.kept_chains (Engine.keeps_records (Storage.keeps_takeLocalKey ksid none))
    fun key => ?_
  cases key with
  | none => exact Yields.pure Engine.kept_chains fun _ none => by cases none
  | some key =>
    dsimp only
    split
    · rename_i sized
      exact Yields.pure Engine.kept_chains fun _ same => by
        cases same
        exact sized
    · exact Yields.bind Engine.kept_chains (Engine.keeps_records (Storage.keeps_storeLocalKeys _))
        fun _ => Yields.pure Engine.kept_chains fun _ none => by cases none

theorem triple_takeKept (ksid : Ksid) (sizeBits : Nat) : ∀ (n : Nat) (keys : List (KeyId × Material)),
    (∀ key ∈ keys, key.2.bitLen = sizeBits) →
    Triple (fun s => Shrunk k₀ s.2) (takeKept ksid sizeBits n keys)
      (fun keys s => Shrunk k₀ s.2 ∧ ∀ key ∈ keys, key.2.bitLen = sizeBits) (fun s => Shrunk k₀ s.2)
  | 0, keys, sized => Triple.pure keys fun _ start => ⟨start, sized⟩
  | n + 1, keys, sized => by
    rw [takeKept]
    refine Triple.bind (triple_engine (yields_takePrefetched ksid sizeBits)) fun r => ?_
    cases r with
    | none => exact Triple.pure keys fun _ start => ⟨start.1, sized⟩
    | some l =>
      refine Triple.assume fun fetched => ?_
      refine triple_takeKept ksid sizeBits n _ fun key member => ?_
      rcases List.mem_append.mp member with old | new
      · exact sized key old
      · rw [List.mem_singleton.mp new]
        exact fetched l rfl

/-- Kept keys handed out for a request have the size asked for. -/
theorem triple_prefetched (ksid : Ksid) (number sizeBits : Nat) :
    Triple (fun s => Shrunk k₀ s.2) (prefetched ksid number sizeBits)
      (fun keys s => Shrunk k₀ s.2 ∧ ∀ key ∈ keys, key.2.bitLen = sizeBits) (fun s => Shrunk k₀ s.2) := by
  unfold prefetched
  refine Triple.bind triple_current fun k => ?_
  split
  · exact Triple.pure [] fun _ start => ⟨start.1, by simp⟩
  · exact (triple_takeKept ksid sizeBits number [] (by simp)).conseq (fun _ start => start.1)
      (fun _ _ done => done) (fun _ failed => failed)

/-- A generation from a node that has cut `C` from link `ℓ` so far either fails and gives back
what it cut, or cuts its batch from the link after `C`. -/
theorem triple_generate (ksid : Ksid) (ℓ : LinkId) (sizeBits count keep : Nat) (C : List Span) :
    Triple (fun s => Cut k₀ ℓ C s.2) (generate ksid ℓ sizeBits count keep)
      (fun b s => Cut k₀ ℓ (C ++ b.consumed) s.2 ∧ b.link = ℓ ∧
        (∀ key ∈ b.keys, key.material.len = sizeBits / 8) ∧ b.issued.length = count - keep)
      (fun s => Cut k₀ ℓ C s.2) := by
  unfold generate
  refine Triple.bind (Triple.ofExcept _ fun _ start => ⟨start, fun _ _ => start⟩) fun _ => ?_
  refine Triple.bind triple_current fun k => ?_
  rintro s ⟨cut, rfl⟩
  rw [run_engine]
  rcases Engine.generate_spec s.2.pool ksid ℓ sizeBits count keep s.1 cut.steady with
    ⟨f, e', st', failed, steady', view⟩ | ⟨batch, e', st', made, steady', link, carves, sized, issued⟩
  · rw [failed]
    exact cut.restored steady' view
  · rw [made]
    exact ⟨cut.extend steady' carves, link, sized, issued⟩

/-- The keys a request still misses are generated from link `ℓ`, or none when none is missing. -/
theorem triple_topUp (ksid : Ksid) (ℓ : LinkId) (missing sizeBits : Nat) :
    Triple (fun s => Shrunk k₀ s.2) (topUp ksid ℓ missing sizeBits)
      (fun r s => Cut k₀ ℓ ((r.map Batch.consumed).getD []) s.2 ∧
        ∀ b, r = some b → b.link = ℓ ∧ (∀ key ∈ b.keys, key.material.len = sizeBits / 8) ∧
          b.issued.length = missing)
      (fun s => Shrunk k₀ s.2) := by
  unfold topUp
  split
  · exact Triple.pure none fun _ start => ⟨cut_nil.mpr start, fun _ none => by cases none⟩
  · refine Triple.bind triple_current fun k => ?_
    dsimp only
    split
    · exact Triple.stop _
    · refine Triple.bind ((triple_generate ksid ℓ sizeBits _ _ []).conseq (fun _ start => cut_nil.mpr start.1)
        (fun _ _ done => done) (fun _ failed => cut_nil.mp failed)) fun b => ?_
      refine Triple.pure (some b) fun _ ⟨cut, link, sized, issued⟩ => ⟨by simpa using cut, ?_⟩
      intro b' same
      cases same
      exact ⟨link, sized, by omega⟩

/-- Undoing the batch just cut gives its spans back. -/
theorem triple_undoBatch (ksid : Ksid) (ℓ : LinkId) (b : Batch) :
    Triple (fun s => Cut k₀ ℓ b.consumed s.2) (engine (EStateM.attempt (Engine.undoBatch ksid b)))
      (fun _ s => Shrunk k₀ s.2) E := by
  intro s cut
  obtain ⟨v, shrinks, carves⟩ := cut.carves
  obtain ⟨st', undone, steady', view⟩ := Engine.undoBatch_run ksid b s.1 cut.steady carves
  rw [run_engine, run_attempt, undone]
  refine ⟨steady', cut.links, ?_⟩
  show Shrinks k₀.bare st'.data.bare
  rw [view]
  exact shrinks

end Calls

end Kme

end KeyRelay
