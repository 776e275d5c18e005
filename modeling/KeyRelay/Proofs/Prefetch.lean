import KeyRelay.Proofs.Forgotten

/-! The master's node of a direct session serving the master application's request for keys.
It hands out first the session's prefetched keys, those it keeps in the clear, then keys cut
from the link to the companion, whose rows it asks the companion to store; the extra keys of the
cut it keeps in the clear, and should the companion's call fail it drops them again. A request
that fails after taking prefetched keys does not put them back. -/

namespace KeyRelay

theorem Table.isSome_foldl_insert {κ α : Type} [DecidableEq κ] (key : α → κ) : ∀ (vs : List α) (t : Table κ α) (k : κ),
    ((vs.foldl (fun t v => t.insert (key v) v) t).get? k).isSome ↔ (t.get? k).isSome ∨ ∃ v ∈ vs, key v = k
  | [], t, k => by simp
  | v :: rest, t, k => by
    rw [List.foldl_cons, isSome_foldl_insert key rest, Table.get?_insert]
    by_cases same : key v = k
    · simp [same]
    · simp [same]

namespace Store

/-- Session `x` keeps the key of id `i` in the clear. -/
def Holds (d : Store) (x : Ksid) (i : KeyId) : Prop := (d.locals.get? (x, i)).isSome

/-- A row of the key of id `i` of session `x` is stored. -/
def HasRow (d : Store) (x : Ksid) (i : KeyId) : Prop := (d.rows.get? (x, i)).isSome

/-- The clear keys are filed under their own session and key ids. -/
def LocalsFiled (d : Store) : Prop := d.locals.Keyed fun l => (l.ksid, l.keyId)

/-- Session `x` keeps in the clear the keys of the ids in `H` and no other, each filed under its
own ids. -/
def Holding (d : Store) (x : Ksid) (H : KeyId → Prop) : Prop := d.LocalsFiled ∧ ∀ i, d.Holds x i ↔ H i

/-- Session `x` keeps in the clear no key outside `H`. -/
def HoldsWithin (d : Store) (x : Ksid) (H : KeyId → Prop) : Prop := d.LocalsFiled ∧ ∀ i, d.Holds x i → H i

variable {d : Store} {x : Ksid} {H H' : KeyId → Prop}

theorem Holding.congr (holding : d.Holding x H) (same : ∀ i, H i ↔ H' i) : d.Holding x H' :=
  ⟨holding.1, fun i => (holding.2 i).trans (same i)⟩

theorem Holding.within (holding : d.Holding x H) : d.HoldsWithin x H :=
  ⟨holding.1, fun i => (holding.2 i).mp⟩

theorem HoldsWithin.mono (within : d.HoldsWithin x H) (more : ∀ i, H i → H' i) : d.HoldsWithin x H' :=
  ⟨within.1, fun i held => more i (within.2 i held)⟩

/-- What a store holds in the clear depends on its clear keys alone. -/
theorem holding_of_locals {d' : Store} (same : d'.locals = d.locals) (holding : d.Holding x H) : d'.Holding x H := by
  simpa only [Holding, LocalsFiled, Holds, same] using holding

theorem holds_storeLocals (keys : List LocalKey) (i : KeyId) :
    (d.storeLocals keys).Holds x i ↔ d.Holds x i ∨ ∃ l ∈ keys, l.ksid = x ∧ l.keyId = i := by
  simp only [Holds, storeLocals]
  rw [Table.isSome_foldl_insert (fun l : LocalKey => (l.ksid, l.keyId))]
  simp

theorem hasRow_storeRows (rows : List KeyRow) (i : KeyId) :
    (d.storeRows rows).HasRow x i ↔ d.HasRow x i ∨ ∃ r ∈ rows, r.ksid = x ∧ r.keyId = i := by
  simp only [HasRow, storeRows]
  rw [Table.isSome_foldl_insert (fun r : KeyRow => (r.ksid, r.keyId))]
  simp

theorem mem_sessionKeys {α : Type} {t : Table (Ksid × KeyId) α} {k : Ksid × KeyId}
    (member : k ∈ sessionKeys t x) : k.1 = x := by
  simp only [sessionKeys, sortedBy, List.mem_mergeSort, List.mem_filter, decide_eq_true_eq] at member
  exact member.2

theorem LocalsFiled.storeLocals (filed : d.LocalsFiled) (keys : List LocalKey) : (d.storeLocals keys).LocalsFiled :=
  Table.Keyed.foldl_insert keys filed

theorem holding_storeLocals (holding : d.Holding x H) (keys : List LocalKey) :
    (d.storeLocals keys).Holding x fun i => H i ∨ ∃ l ∈ keys, l.ksid = x ∧ l.keyId = i :=
  ⟨holding.1.storeLocals keys, fun i => by rw [holds_storeLocals, holding.2 i]⟩

theorem LocalsFiled.takeLocal (filed : d.LocalsFiled) (key : Option KeyId) : (d.takeLocal x key).2.LocalsFiled := by
  unfold Store.takeLocal
  dsimp only
  split
  · exact filed
  · exact Table.Keyed.erase filed _

/-- Taking a clear key of session `x` takes one the session keeps, under its own id, and leaves
the others; a key named is gone after, whether it was there or not. -/
theorem takeLocal_holds (keyed : d.LocalsFiled) (key : Option KeyId) :
    (∀ l, (d.takeLocal x key).1 = some l → l.ksid = x ∧ d.Holds x l.keyId ∧ ∀ k, key = some k → l.keyId = k) ∧
    ∀ i, (d.takeLocal x key).2.Holds x i ↔
      d.Holds x i ∧ (∀ l, (d.takeLocal x key).1 = some l → i ≠ l.keyId) ∧ ∀ k, key = some k → i ≠ k := by
  -- whichever slot is taken is of session `x`, and is the one named if any
  have taking : ∀ slot : Ksid × KeyId, slot.1 = x → (∀ k, key = some k → slot.2 = k) →
      (∀ l, d.locals.get? slot = some l → l.ksid = x ∧ d.Holds x l.keyId ∧ ∀ k, key = some k → l.keyId = k) ∧
      ∀ i, ((d.locals.erase slot).get? (x, i)).isSome ↔
        d.Holds x i ∧ (∀ l, d.locals.get? slot = some l → i ≠ l.keyId) ∧ ∀ k, key = some k → i ≠ k := by
    rintro ⟨y, j⟩ rfl named
    have filed : ∀ l, d.locals.get? (y, j) = some l → y = l.ksid ∧ j = l.keyId := fun l found =>
      Prod.mk.inj (keyed.get? found)
    refine ⟨fun l found => ?_, fun i => ?_⟩
    · obtain ⟨rfl, rfl⟩ := filed l found
      exact ⟨rfl, by simp [Holds, found], named⟩
    · simp only [Table.get?_erase, Prod.mk.injEq, true_and]
      by_cases same : j = i
      · subst same
        simp only [if_true, Option.isSome_none, Bool.false_eq_true, false_iff, not_and]
        intro held
        cases found : d.locals.get? (y, j) with
        | none => simp [Holds, found] at held
        | some l =>
          have := (filed l found).2
          exact fun apart => absurd this (apart l rfl)
      · simp only [same, if_false]
        refine ⟨fun held => ⟨held, fun l found => ?_, fun k named' => ?_⟩, fun held => held.1⟩
        · rw [← (filed l found).2]
          exact fun back => same back.symm
        · rw [← named k named']
          exact fun back => same back.symm
  unfold takeLocal
  cases key with
  | some k =>
    exact taking (x, k) rfl fun k' named => (Option.some.inj named).symm ▸ rfl
  | none =>
    dsimp only
    cases first : (sessionKeys d.locals x).head? with
    | none =>
      refine ⟨fun _ none => (by cases none), fun i => ?_⟩
      simp
    | some slot =>
      exact taking slot (mem_sessionKeys (List.mem_of_mem_head? first)) fun _ none => by cases none

theorem holding_takeLocal_some (holding : d.Holding x H) (k : KeyId) :
    (d.takeLocal x (some k)).2.Holding x fun i => H i ∧ i ≠ k := by
  obtain ⟨found, left⟩ := takeLocal_holds (x := x) holding.1 (some k)
  refine ⟨holding.1.takeLocal _, fun i => ?_⟩
  rw [left i, holding.2 i]
  constructor
  · rintro ⟨held, -, apart⟩
    exact ⟨held, apart k rfl⟩
  · rintro ⟨held, apart⟩
    refine ⟨held, fun l taken => ?_, fun k' named => ?_⟩
    · rw [(found l taken).2.2 k rfl]
      exact apart
    · cases named
      exact apart

theorem takeLocal_kept (key : Option KeyId) : Kept d (d.takeLocal x key).2 := by
  apply Kept.of_blocks <;>
  · unfold takeLocal
    dsimp only
    split <;> rfl

end Store

namespace Storage

variable {x : Ksid} {H : KeyId → Prop}

theorem spec_takeLocalKey_holds (key : Option KeyId) :
    Spec (·.data.Holding x H) (takeLocalKey x key)
      (fun taken st => (∀ l, taken = some l → l.ksid = x ∧ H l.keyId ∧ ∀ k, key = some k → l.keyId = k) ∧
        st.data.Holding x fun i => H i ∧ (∀ l, taken = some l → i ≠ l.keyId) ∧ ∀ k, key = some k → i ≠ k)
      (·.data.Holding x H) :=
  @spec_of_write _ (·.Holding x H)
    (fun (taken : Option LocalKey) (d : Store) =>
      (∀ l : LocalKey, taken = some l → l.ksid = x ∧ H l.keyId ∧ ∀ k, key = some k → l.keyId = k) ∧
      d.Holding x fun i => H i ∧ (∀ l : LocalKey, taken = some l → i ≠ l.keyId) ∧ ∀ k, key = some k → i ≠ k)
    (·.Holding x H) "take_local_key" (·.takeLocal x key)
    (fun d holding => by
      obtain ⟨found, left⟩ := Store.takeLocal_holds (x := x) holding.1 key
      refine ⟨fun l taken => ?_, holding.1.takeLocal key, fun i => ?_⟩
      · obtain ⟨same, had, named⟩ := found l taken
        exact ⟨same, (holding.2 _).mp had, named⟩
      · rw [left i, holding.2 i])
    fun _ holding => holding

theorem spec_storeLocalKeys_holds (keys : List LocalKey) :
    Spec (·.data.Holding x H) (storeLocalKeys keys)
      (fun _ st => st.data.Holding x fun i => H i ∨ ∃ l ∈ keys, l.ksid = x ∧ l.keyId = i) (·.data.Holding x H) :=
  @spec_of_write _ (·.Holding x H) (fun _ d => d.Holding x fun i => H i ∨ ∃ l ∈ keys, l.ksid = x ∧ l.keyId = i)
    (·.Holding x H) "store_local_keys" (fun d => ((), d.storeLocals keys))
    (fun _ holding => Store.holding_storeLocals holding keys) fun _ holding => holding

/-- Without fault injection a write lands, and keeps the records steady when it keeps the
blocks and their index. -/
theorem spec_of_write_steady {α : Type} {P : Store → Prop} {Q : α → Store → Prop} (operation : String)
    (f : Store → α × Store) (kept : ∀ d, Store.Kept d (f d).2) (post : ∀ d, P d → Q (f d).1 (f d).2) :
    Spec (fun st => st.Steady ∧ P st.data) (write operation f) (fun a st => st.Steady ∧ Q a st.data) fun _ => False := by
  rintro st ⟨steady, holds⟩
  rw [write_steady steady.calm]
  refine ⟨fun a t run => ?_, fun _ _ run => by cases run⟩
  cases run
  exact ⟨⟨steady.calm, (kept st.data).indexed steady.indexed⟩, post _ holds⟩

end Storage

namespace Engine

variable {α : Type} {x : Ksid} {H : KeyId → Prop}

/-- A run that touches no row, clear key or session record keeps what depends on these alone. -/
theorem spec_of_sameKeys {P : Store → Prop} (stays : ∀ {d d'}, Store.SameKeys d d' → P d → P d') {m : EngineM α}
    (keeps : Keeps SameKeys m) : Spec (fun s => P s.2.data) m (fun _ s => P s.2.data) (fun s => P s.2.data) :=
  Spec.of_keeps keeps fun _ _ holds same => stays same holds

theorem spec_holding_of_sameKeys {m : EngineM α} (keeps : Keeps SameKeys m) :
    Spec (·.2.data.Holding x H) m (fun _ s => s.2.data.Holding x H) (·.2.data.Holding x H) :=
  spec_of_sameKeys (fun same holding => Store.holding_of_locals same.2.1 holding) keeps

/-- A prefetched key of the size asked for is taken from those the session keeps; one of another
size is put back. -/
theorem takePrefetched_holds (sizeBits : Nat) :
    Spec (·.2.data.Holding x H) (takePrefetched x sizeBits)
      (fun key s => (∀ l, key = some l → H l.keyId) ∧ s.2.data.Holding x fun i => H i ∧ ∀ l, key = some l → i ≠ l.keyId)
      (·.2.data.HoldsWithin x H) := by
  unfold takePrefetched
  refine Spec.bind ((spec_records (Storage.spec_takeLocalKey_holds none)).conseq (fun _ start => start)
    (fun _ _ done => done) fun _ failed => failed.within) fun key => ?_
  cases key with
  | none =>
    exact Spec.pure fun _ held => ⟨fun _ none => (nomatch none), held.2.congr fun i => by simp⟩
  | some key =>
    refine Spec.weaken (P := fun s => s.2.data.Holding x (fun i => H i ∧ i ≠ key.keyId) ∧ (key.ksid = x ∧ H key.keyId))
      (Spec.assume fun had => ?_) fun _ held => ⟨held.2.congr fun i => by simp, (held.1 key rfl).1, (held.1 key rfl).2.1⟩
    have back := spec_records (@Storage.spec_storeLocalKeys_holds x (fun i => H i ∧ i ≠ key.keyId) [key])
    dsimp only
    split
    · exact Spec.pure fun _ held => ⟨fun l same => Option.some.inj same ▸ had.2, held.congr fun i => by
        simp⟩
    · -- a key of another size goes back under its id, which the session held
      refine Spec.bind (P := fun s => s.2.data.Holding x fun i => H i ∧ i ≠ key.keyId)
        (back.conseq (fun _ start => start) (fun _ _ done => done)
          fun _ failed => failed.within.mono fun _ held => held.1) fun _ => ?_
      refine Spec.pure fun _ held => ⟨fun _ none => (nomatch none), held.congr fun i => ?_⟩
      by_cases same : i = key.keyId
      · subst same
        simp [had.1, had.2]
      · simp [same, Ne.symm same]

/-- A generation keeps in the clear, under its session, the keys it stores and no other. -/
theorem generate_holds (pool : Pool) (ksid : Ksid) (ℓ : LinkId) (sizeBits count keep : Nat) :
    Spec (·.2.data.Holding x H) (generate pool ksid ℓ sizeBits count keep)
      (fun b s => s.2.data.Holding x fun i => H i ∨ (x = ksid ∧ i ∈ b.storedIds)) (·.2.data.Holding x H) := by
  have same : ∀ {β : Type} {m : EngineM β}, Keeps SameKeys m →
      Spec (·.2.data.Holding x H) m (fun _ s => s.2.data.Holding x H) (·.2.data.Holding x H) :=
    spec_holding_of_sameKeys
  unfold generate
  dsimp only
  split
  · exact Spec.bind (Spec.throw fun _ held => held) fun _ => Spec.of_false
  refine Spec.bind (same keeps_sameKeys_wallSecs) fun now => ?_
  refine Spec.bind (same (cutKeys_count pool ℓ _ now count [] []).keeps) fun cut => ?_
  refine Spec.bind (same (keeps_sameKeys_releaseEach cut.1 0 cut.1)) fun _ => ?_
  split
  · refine Spec.bind (spec_onFailure (spec_records (Storage.spec_storeLocalKeys_holds _)) fun _ =>
      same (keeps_sameKeys_rollback _ _)) fun _ => Spec.pure fun _ held => held.congr fun i => ?_
    apply or_congr_right
    simp only [Batch.storedIds, List.mem_map, exists_exists_and_eq_and]
    constructor
    · rintro ⟨k, member, same, rfl⟩
      exact ⟨same.symm, k, member, rfl⟩
    · rintro ⟨same, k, member, rfl⟩
      exact ⟨k, member, same.symm, rfl⟩
  · rename_i none
    refine Spec.pure fun _ held => held.congr fun i => ?_
    simp only [Bool.not_eq_true', List.isEmpty_eq_false_iff, ne_eq, not_not, List.map_eq_nil_iff] at none
    simp [Batch.storedIds, none]

/-- Without fault injection, dropping a clear key drops it. -/
theorem discard_holds (k : KeyId) :
    Spec (fun s => s.2.Steady ∧ s.2.data.Holding x H) (discard x [k])
      (fun _ s => s.2.Steady ∧ s.2.data.Holding x fun i => H i ∧ i ≠ k) fun _ => False := by
  unfold discard
  refine Spec.bind (Spec.bind (spec_records (@Storage.spec_of_write_steady _ (·.Holding x H)
    (fun _ d => d.Holding x fun i => H i ∧ i ≠ k) "take_local_key" (·.takeLocal x (some k))
    (fun _ => Store.takeLocal_kept _) fun _ holding => Store.holding_takeLocal_some holding k)) fun _ =>
      Spec.pure fun _ done => done) fun _ => Spec.pure fun _ done => done

end Engine

namespace Plan

/-- The ids of the keys a plan's reply hands to the application. -/
def handed (p : Plan) : List KeyId :=
  match p.reply with
  | .ready (.keys cs) => cs.map (·.keyId)
  | _ => []

/-- A plan that hands out keys of session `x`, whose clear keys were those of `H` and are those
of `H'` after: first `popped`, keys it kept, then `issued`, new keys; the companion is asked to
store the rows of these and of `stored`, the new keys now kept, which go again should the call
fail. -/
def Deals (p : Plan) (x : Ksid) (H H' : KeyId → Prop) : Prop :=
  ∃ popped issued stored : List KeyId, (∀ i ∈ popped, H i) ∧ p.handed = popped ++ issued ∧
    (∀ i, H' i ↔ (H i ∧ i ∉ popped) ∨ i ∈ stored) ∧
    ((issued = [] ∧ stored = [] ∧ p.actions = []) ∨
      ∃ c ℓ rows consumed, p.actions = [.callKme c (.syncKeys ℓ rows consumed) true] ∧ (∀ row ∈ rows, row.ksid = x) ∧
        rows.map (·.keyId) = issued ++ stored ∧ p.discardOnFailure = stored.map (x, ·))

/-- A plan that deals keys and makes a call asks the companion to store the rows of the keys it
issued and of those it keeps. -/
theorem Deals.called {p : Plan} {x : Ksid} {H H' : KeyId → Prop} (deals : p.Deals x H H') {c : KmeId}
    {req : KmeRequest} {required : Bool} (call : p.actions = [.callKme c req required]) :
    ∃ popped issued stored : List KeyId, ∃ ℓ rows consumed, req = .syncKeys ℓ rows consumed ∧
      (∀ i ∈ popped, H i) ∧ p.handed = popped ++ issued ∧ (∀ i, H' i ↔ (H i ∧ i ∉ popped) ∨ i ∈ stored) ∧
      (∀ row ∈ rows, row.ksid = x) ∧ rows.map (·.keyId) = issued ++ stored ∧ p.discardOnFailure = stored.map (x, ·) := by
  obtain ⟨popped, issued, stored, prefetched, handed, holds, plain | ⟨c', ℓ, rows, consumed, call', named, ids, discard⟩⟩ :=
    deals
  · rw [plain.2.2] at call
    cases call
  rw [call'] at call
  cases call
  exact ⟨popped, issued, stored, ℓ, rows, consumed, rfl, prefetched, handed, holds, named, ids, discard⟩

end Plan

namespace Kme

/-- Node `k` is node `k₀` with other records. -/
def RecordsOnly (k₀ k : Kme) : Prop := k = { k₀ with storage := k.storage }

theorem RecordsOnly.refl (k : Kme) : RecordsOnly k k := rfl

theorem RecordsOnly.restore {k₀ k : Kme} (only : RecordsOnly k₀ k) (st : Storage) :
    RecordsOnly k₀ { k with storage := st } := by
  unfold RecordsOnly at only ⊢
  rw [only]

theorem RecordsOnly.sessions {k₀ k : Kme} (only : RecordsOnly k₀ k) : k.sessions = k₀.sessions := by
  unfold RecordsOnly at only
  rw [only]

theorem RecordsOnly.id {k₀ k : Kme} (only : RecordsOnly k₀ k) : k.id = k₀.id := by
  unfold RecordsOnly at only
  rw [only]

theorem RecordsOnly.sound {k₀ k : Kme} (only : RecordsOnly k₀ k) (sound : k₀.Sound) (steady : k.storage.Steady) :
    k.Sound :=
  ⟨steady, fun ℓ st member => sound.keyed ℓ st (by rw [only] at member; exact member)⟩

theorem RecordsOnly.trans {k₀ k₁ k : Kme} (first : RecordsOnly k₀ k₁) (second : RecordsOnly k₁ k) : RecordsOnly k₀ k := by
  unfold RecordsOnly at first second ⊢
  rw [second, first]

section Master

variable {α : Type} {k₀ : Kme} {x : Ksid}

/-- A computation of the key engine keeps what holds of a node whatever its records. -/
theorem triple_engine_frame {F : Kme → Prop} (stable : ∀ {k : Kme}, F k → ∀ st, F { k with storage := st }) {m : EngineM α}
    {P : Env × Storage → Prop} {Q : α → Env × Storage → Prop} {E : Env × Storage → Prop} (spec : Spec P m Q E) :
    Triple (fun s => F s.2 ∧ P (s.1, s.2.storage)) (engine m) (fun a s => F s.2 ∧ Q a (s.1, s.2.storage))
      (fun s => F s.2 ∧ E (s.1, s.2.storage)) := by
  intro s start
  obtain ⟨returned, failed⟩ := spec _ start.2
  rw [run_engine]
  cases run : m (s.1, s.2.storage) with
  | ok a t => exact ⟨stable start.1 _, returned a t run⟩
  | error f t => exact ⟨stable start.1 _, failed f t run⟩

theorem triple_engine_only {m : EngineM α} {P : Env × Storage → Prop} {Q : α → Env × Storage → Prop}
    {E : Env × Storage → Prop} (spec : Spec P m Q E) :
    Triple (fun s => RecordsOnly k₀ s.2 ∧ P (s.1, s.2.storage)) (engine m)
      (fun a s => RecordsOnly k₀ s.2 ∧ Q a (s.1, s.2.storage)) (fun s => RecordsOnly k₀ s.2 ∧ E (s.1, s.2.storage)) :=
  triple_engine_frame RecordsOnly.restore spec

theorem triple_current_only {R : Env × Kme → Prop} {E : Env × Kme → Prop} :
    Triple (fun s => RecordsOnly k₀ s.2 ∧ R s) current (fun k s => (RecordsOnly k₀ s.2 ∧ R s) ∧ RecordsOnly k₀ k) E :=
  fun _ start => ⟨start, start.1⟩

theorem triple_role_only {r : SessionRecord} {k : Kme} {role : Role} (only : RecordsOnly k₀ k)
    (placed : r.role k₀.id = .ok role) {P : Env × Kme → Prop} :
    Triple P (lift (r.role k.id)) (fun role' s => P s ∧ role' = role) P := by
  -- the role is read off the node's id, which changes with nothing but the records
  have read : r.role k.id = .ok role := by
    rw [only.id]
    exact placed
  refine triple_lift_yields _ _ fun role' found => ?_
  rw [read] at found
  cases found
  rfl

/-- Prefetched keys are taken from those the session keeps, each at most once. -/
theorem takeKept_holds (sizeBits : Nat) : ∀ (n : Nat) (keys : List (KeyId × Material)) {H : KeyId → Prop},
    Triple (fun s => RecordsOnly k₀ s.2 ∧ s.2.storage.data.Holding x H) (takeKept x sizeBits n keys)
      (fun taken s => RecordsOnly k₀ s.2 ∧ ∃ popped, taken = keys ++ popped ∧ (∀ l ∈ popped, H l.1) ∧
        s.2.storage.data.Holding x fun i => H i ∧ i ∉ popped.map Prod.fst)
      (fun s => RecordsOnly k₀ s.2 ∧ s.2.storage.data.HoldsWithin x H)
  | 0, keys, H => Triple.pure keys fun _ start => ⟨start.1, [], by simp, by simp, start.2.congr fun i => by simp⟩
  | n + 1, keys, H => by
    rw [takeKept]
    refine Triple.bind ((triple_engine_only (Engine.takePrefetched_holds (H := H) sizeBits)).conseq
      (fun _ start => start) (fun _ _ done => done) (fun _ failed => failed)) fun found => ?_
    cases found with
    | none =>
      exact Triple.pure keys fun _ done => ⟨done.1, [], by simp, by simp, done.2.2.congr fun i => by simp⟩
    | some l =>
      -- the key taken was held; the others are taken from the rest
      refine Triple.conseq (P := fun s => (RecordsOnly k₀ s.2 ∧ s.2.storage.data.Holding x fun i => H i ∧ i ≠ l.keyId) ∧
          H l.keyId) (Triple.assume fun had => ?_) (fun _ start => ⟨⟨start.1, start.2.2.congr fun i => by simp⟩,
          start.2.1 l rfl⟩) (fun _ _ done => done) (fun _ failed => failed)
      refine (takeKept_holds sizeBits n _).conseq (fun _ start => start) (fun _ _ done => ?_)
        (fun _ failed => ⟨failed.1, failed.2.mono fun _ held => held.1⟩)
      obtain ⟨only, popped, rfl, kept, holding⟩ := done
      refine ⟨only, (l.keyId, l.material) :: popped, by simp, ?_, holding.congr fun i => by simp [and_assoc]⟩
      simp only [List.mem_cons, forall_eq_or_imp]
      exact ⟨had, fun l' member => (kept l' member).1⟩

theorem prefetched_holds (number sizeBits : Nat) {H : KeyId → Prop} :
    Triple (fun s => RecordsOnly k₀ s.2 ∧ s.2.storage.data.Holding x H) (prefetched x number sizeBits)
      (fun taken s => RecordsOnly k₀ s.2 ∧ (∀ l ∈ taken, H l.1) ∧
        s.2.storage.data.Holding x fun i => H i ∧ i ∉ taken.map Prod.fst)
      (fun s => RecordsOnly k₀ s.2 ∧ s.2.storage.data.HoldsWithin x H) := by
  unfold prefetched
  refine Triple.bind triple_current fun k => ?_
  split
  · exact Triple.pure [] fun _ start => ⟨start.1.1, by simp, start.1.2.congr fun i => by simp⟩
  · refine (takeKept_holds sizeBits number []).conseq (fun _ start => start.1) (fun _ _ done => ?_)
      (fun _ failed => failed)
    obtain ⟨only, popped, rfl, kept, holding⟩ := done
    exact ⟨only, by simpa using kept, by simpa using holding⟩

theorem generate_holds (ℓ : LinkId) (sizeBits count keep : Nat) {H : KeyId → Prop} :
    Triple (fun s => RecordsOnly k₀ s.2 ∧ s.2.storage.data.Holding x H) (generate x ℓ sizeBits count keep)
      (fun b s => RecordsOnly k₀ s.2 ∧ s.2.storage.data.Holding x fun i => H i ∨ i ∈ b.storedIds)
      (fun s => RecordsOnly k₀ s.2 ∧ s.2.storage.data.Holding x H) := by
  unfold generate
  refine Triple.bind (Triple.ofExcept _ fun _ start => ⟨start, fun _ _ => start⟩) fun _ => ?_
  refine Triple.bind triple_current fun k => ?_
  exact (triple_engine_only (Engine.generate_holds (x := x) (H := H) k.pool x ℓ sizeBits count keep)).conseq
    (fun _ start => start.1) (fun _ _ done => ⟨done.1, done.2.congr fun i => by simp⟩) (fun _ failed => failed)

theorem topUp_holds (ℓ : LinkId) (missing sizeBits : Nat) {H : KeyId → Prop} :
    Triple (fun s => RecordsOnly k₀ s.2 ∧ s.2.storage.data.Holding x H) (topUp x ℓ missing sizeBits)
      (fun b s => RecordsOnly k₀ s.2 ∧ s.2.storage.data.Holding x fun i => H i ∨ ∃ batch, b = some batch ∧ i ∈ batch.storedIds)
      (fun s => RecordsOnly k₀ s.2 ∧ s.2.storage.data.Holding x H) := by
  unfold topUp
  split
  · exact Triple.pure none fun _ start => ⟨start.1, start.2.congr fun i => by simp⟩
  · refine Triple.bind triple_current fun k => ?_
    dsimp only
    split
    · exact Triple.stop _
    · refine Triple.bind ((generate_holds ℓ sizeBits _ _).conseq (fun _ start => start.1) (fun _ _ done => done)
        (fun _ failed => failed)) fun b => Triple.pure (some b) fun _ done => ⟨done.1, done.2.congr fun i => by simp⟩

/-- A session's master node answers its application with the keys it kept, then with new keys
cut from the link to the companion, whose rows it asks the companion to store. -/
theorem directKeys_holds {r : SessionRecord} (companion : KmeId) (number sizeBits : Nat) {H : KeyId → Prop} :
    Triple (fun s => RecordsOnly k₀ s.2 ∧ s.2.storage.data.Holding r.ksid H) (directKeys r companion number sizeBits)
      (fun p s => RecordsOnly k₀ s.2 ∧ s.2.storage.data.LocalsFiled ∧ p.Deals r.ksid H (s.2.storage.data.Holds r.ksid))
      (fun s => RecordsOnly k₀ s.2 ∧ s.2.storage.data.HoldsWithin r.ksid H) := by
  unfold directKeys
  refine Triple.bind ((triple_linkTo_frame companion).conseq (fun _ start => start) (fun _ _ done => done)
    fun _ failed => ⟨failed.1, failed.2.within⟩) fun ℓ => ?_
  refine Triple.bind (prefetched_holds number sizeBits) fun keys => ?_
  -- what was popped stays known while the rest of the request runs
  refine Triple.conseq (P := fun s => (RecordsOnly k₀ s.2 ∧
      s.2.storage.data.Holding r.ksid fun i => H i ∧ i ∉ keys.map Prod.fst) ∧ ∀ l ∈ keys, H l.1)
    (Triple.assume fun kept => ?_) (fun _ start => ⟨⟨start.1, start.2.2⟩, start.2.1⟩)
    (fun _ _ done => done) (fun _ failed => failed)
  have popped : ∀ i ∈ keys.map Prod.fst, H i := by
    simpa using kept
  refine Triple.bind ((topUp_holds ℓ _ sizeBits).conseq (fun _ start => start) (fun _ _ done => done)
    (fun _ failed => ⟨failed.1, failed.2.within.mono fun _ held => held.1⟩)) fun topped => ?_
  cases topped with
  | none =>
    refine Triple.pure _ fun _ done => ⟨done.1, done.2.1, keys.map Prod.fst, [], [], popped, ?_, fun i => ?_,
      .inl ⟨rfl, rfl, rfl⟩⟩
    · simp [Plan.handed, Plan.answer, containers]
    · rw [done.2.2 i]
      simp
  | some batch =>
    refine Triple.bind triple_wallSecs fun now => Triple.pure _ fun _ done => ⟨done.1, done.2.1, keys.map Prod.fst,
      batch.issued.map (·.keyId), batch.storedIds, popped, ?_, fun i => ?_, .inr ⟨companion, ℓ, _, _, rfl, ?_, ?_, rfl⟩⟩
    · simp [Plan.handed, containers, handedOut, Function.comp_def]
    · rw [done.2.2 i]
      simp
    · simp [Batch.rows]
    · simp [Batch.rows, Batch.keys, Batch.storedIds, Function.comp_def]

theorem sessionByApps_only {r : SessionRecord} (indexed : k₀.sessions.byPair? r.src r.dst = some r)
    {R : Env × Kme → Prop} :
    Triple (fun s => RecordsOnly k₀ s.2 ∧ R s) (sessionByApps r.src r.dst) (fun r' s => (RecordsOnly k₀ s.2 ∧ R s) ∧ r' = r)
      (fun s => RecordsOnly k₀ s.2 ∧ R s) := by
  unfold sessionByApps
  refine Triple.bind triple_current_only fun k => Triple.assume fun only => ?_
  split
  · rename_i r' found
    rw [only.sessions, indexed] at found
    cases found
    exact Triple.pure _ fun _ start => ⟨start, rfl⟩
  · exact triple_fail _ fun _ start => start

/-- Deleting the blocks that can go keeps whatever depends on the rows, the clear keys and the
session records alone. -/
theorem sweepQuietly_only {P : Store → Prop} (stays : ∀ {d d'}, Store.SameKeys d d' → P d → P d') :
    Triple (fun s => RecordsOnly k₀ s.2 ∧ P s.2.storage.data) sweepQuietly
      (fun _ s => RecordsOnly k₀ s.2 ∧ P s.2.storage.data) (fun s => RecordsOnly k₀ s.2 ∧ P s.2.storage.data) := by
  unfold sweepQuietly
  refine Triple.bind triple_current fun k => ?_
  exact (triple_engine_only (Engine.spec_of_sameKeys stays (Keeps.attempt Engine.sameKeys_chains
    (Keeps.bind Engine.sameKeys_chains (Engine.keeps_sameKeys_sweep k.pool) fun _ => Keeps.pure Engine.sameKeys_chains _)))).conseq
    (fun _ start => start.1) (fun _ _ done => done) (fun _ failed => failed)

/-- The master application's request for keys of a session served over one link, at the
session's first node. -/
theorem handle_encKeys_holds {r : SessionRecord} {c : KmeId} (indexed : k₀.sessions.byPair? r.src r.dst = some r)
    (direct : r.role k₀.id = .ok (.direct (some c))) (number : Nat) (size : Option Nat) {H : KeyId → Prop} :
    Triple (fun s => RecordsOnly k₀ s.2 ∧ s.2.storage.data.Holding r.ksid H) (handle (.encKeys r.src r.dst number size))
      (fun p s => RecordsOnly k₀ s.2 ∧ s.2.storage.data.LocalsFiled ∧ p.Deals r.ksid H (s.2.storage.data.Holds r.ksid))
      (fun s => RecordsOnly k₀ s.2 ∧ s.2.storage.data.HoldsWithin r.ksid H) := by
  have within : ∀ s : Env × Kme, RecordsOnly k₀ s.2 ∧ s.2.storage.data.Holding r.ksid H →
      RecordsOnly k₀ s.2 ∧ s.2.storage.data.HoldsWithin r.ksid H := fun _ start => ⟨start.1, start.2.within⟩
  refine Triple.bind ((sweepQuietly_only fun same holding => Store.holding_of_locals same.2.1 holding).conseq
    (fun _ start => start) (fun _ _ done => done) within) fun _ => ?_
  unfold encKeys
  refine Triple.bind ((sessionByApps_only indexed).conseq (fun _ start => start) (fun _ _ done => done) within)
    fun r' => Triple.assume fun same => ?_
  subst same
  refine Triple.bind triple_current_only fun k => Triple.assume fun only => ?_
  dsimp only
  split
  · exact Triple.throw_bind _ within
  refine Triple.bind ((triple_checkCount number).conseq (fun _ start => start) (fun _ _ done => done) within) fun _ => ?_
  refine Triple.bind ((triple_lift _).conseq (fun _ start => start) (fun _ _ done => done) within) fun sizeBits => ?_
  -- the node's role is the one the session gives its first node
  refine Triple.bind ((triple_role_only only direct).conseq (fun _ start => start) (fun _ _ done => done) within)
    fun role' => Triple.assume fun same => ?_
  subst same
  exact directKeys_holds c number sizeBits

/-- Without fault injection, the master drops the kept keys of a batch whose rows the companion
never stored. -/
theorem discardKeys_holds : ∀ (stored : List KeyId) {H : KeyId → Prop},
    Triple (fun s => RecordsOnly k₀ s.2 ∧ s.2.storage.Steady ∧ s.2.storage.data.Holding x H)
      (discardKeys (stored.map (x, ·)))
      (fun _ s => RecordsOnly k₀ s.2 ∧ s.2.storage.Steady ∧ s.2.storage.data.Holding x fun i => H i ∧ i ∉ stored)
      fun _ => False
  | [], H => Triple.pure () fun _ start => ⟨start.1, start.2.1, start.2.2.congr fun i => by simp⟩
  | k :: rest, H => by
    unfold discardKeys
    refine Triple.bind ((triple_engine_only (Spec.attempt (E := fun _ => False) ((Engine.discard_holds (x := x) (H := H) k).conseq
      (fun _ start => start) (fun _ _ done => done) fun _ absurd => absurd.elim))).conseq
        (fun _ start => start) (fun _ _ done => done) fun _ failed => failed.2) fun _ => ?_
    exact (discardKeys_holds rest).conseq (fun _ start => start)
      (fun _ _ done => ⟨done.1, done.2.1, done.2.2.congr fun i => by simp [and_assoc]⟩) fun _ absurd => absurd

end Master

theorem discardKeys_run {k k' : Kme} {x : Ksid} (sound : k.Sound) (filed : k.storage.data.LocalsFiled)
    {stored : List KeyId} {e e' : Env} (ran : discardKeys (stored.map (x, ·)) (e, k) = .ok () (e', k')) :
    RecordsOnly k k' ∧ k'.Sound ∧ k'.storage.data.LocalsFiled ∧
      ∀ i, k'.storage.data.Holds x i ↔ k.storage.data.Holds x i ∧ i ∉ stored := by
  have landed := discardKeys_holds stored (H := k.storage.data.Holds x) (e, k)
    ⟨RecordsOnly.refl k, sound.steady, filed, fun _ => Iff.rfl⟩
  rw [ran] at landed
  obtain ⟨only, steady, holding⟩ := landed
  exact ⟨only, only.sound sound steady, holding.1, holding.2⟩

/-- A request handled to its end: answered with a plan and a node with `Q`, or failed in a node
with `E`. -/
theorem respond_outcome {P : Kme → Prop} {Q : Plan → Kme → Prop} {E : Kme → Prop} {req : KmeRequest}
    (t : Triple (fun s => P s.2) (handle req) (fun p s => Q p s.2) (fun s => E s.2)) {k : Kme} (holds : P k) {e : Env}
    {out : Option Plan} {k' : Kme} (ran : respond req e k = some (out, k')) :
    (∀ p, out = some p → Q p k') ∧ (out = none → E k') := by
  have landed := t (e, k) holds
  unfold respond at ran
  cases run : handle req (e, k) with
  | ok p t =>
    rw [run] at ran landed
    cases ran
    exact ⟨fun _ same => Option.some.inj same ▸ landed, fun absurd => nomatch absurd⟩
  | error h t =>
    rw [run] at ran landed
    cases h with
    | fault f =>
      cases ran
      exact ⟨fun _ absurd => (nomatch absurd), fun _ => landed⟩
    | abort a => cases ran

/-- The master's node of a session served over one link, asked for keys: it changes only its
records; failed, it keeps no clear key of the session it did not keep before; answered, it
deals out keys as `Plan.Deals` says. -/
theorem respond_encKeys_master {k k' : Kme} {r : SessionRecord} {c : KmeId} (filed : k.storage.data.LocalsFiled)
    (indexed : k.sessions.byPair? r.src r.dst = some r) (direct : r.role k.id = .ok (.direct (some c)))
    {number : Nat} {size : Option Nat} {e : Env} {out : Option Plan}
    (ran : respond (.encKeys r.src r.dst number size) e k = some (out, k')) :
    RecordsOnly k k' ∧ k'.storage.data.LocalsFiled ∧
      (out = none → ∀ i, k'.storage.data.Holds r.ksid i → k.storage.data.Holds r.ksid i) ∧
      ∀ p, out = some p → p.Deals r.ksid (k.storage.data.Holds r.ksid) (k'.storage.data.Holds r.ksid) := by
  obtain ⟨answered, failed⟩ := respond_outcome
    (P := fun k₁ => RecordsOnly k k₁ ∧ k₁.storage.data.Holding r.ksid (k.storage.data.Holds r.ksid))
    (Q := fun p k₁ => RecordsOnly k k₁ ∧ k₁.storage.data.LocalsFiled ∧
      p.Deals r.ksid (k.storage.data.Holds r.ksid) (k₁.storage.data.Holds r.ksid))
    (E := fun k₁ => RecordsOnly k k₁ ∧ k₁.storage.data.HoldsWithin r.ksid (k.storage.data.Holds r.ksid))
    (handle_encKeys_holds (H := k.storage.data.Holds r.ksid) indexed direct number size) ⟨RecordsOnly.refl k, filed, fun _ => Iff.rfl⟩ ran
  cases out with
  | none =>
    obtain ⟨only, within⟩ := failed rfl
    exact ⟨only, within.1, fun _ => within.2, fun _ absurd => nomatch absurd⟩
  | some p =>
    obtain ⟨only, filed', deals⟩ := answered p rfl
    refine ⟨only, filed', fun absurd => (nomatch absurd), fun _ same => ?_⟩
    cases same
    exact deals

end Kme

end KeyRelay
