import KeyRelay.Proofs.Retrieval

/-!
A failed request for keys. The master application's request for keys first deletes the blocks
that can go. From there, on records without fault injection, a request that fails leaves every
block with its cursor and its references, every row, link and session record as it found them.
The clear keys are the exception: keys kept for the request's session may be gone, those it took
to hand out before a later step failed; no other clear key is lost, and none is added.
-/

namespace KeyRelay

namespace Table

variable {κ α : Type} [DecidableEq κ] {β : Type}

theorem get?_foldl_erase (slot : β → κ) (ids : List β) (t : Table κ α) (k : κ) :
    (ids.foldl (fun t i => t.erase (slot i)) t).get? k = if ∃ i ∈ ids, slot i = k then none else t.get? k := by
  induction ids generalizing t with
  | nil => simp
  | cons i rest ih =>
    rw [List.foldl_cons, ih, get?_erase]
    by_cases here : slot i = k <;> simp [here]

theorem Keyed.foldl_erase {t : Table κ α} {key : α → κ} (keyed : t.Keyed key) (slot : β → κ) (ids : List β) :
    (ids.foldl (fun t i => t.erase (slot i)) t).Keyed key := by
  induction ids generalizing t with
  | nil => exact keyed
  | cons i rest ih => exact ih (keyed.erase _)

end Table

namespace Store

variable {base d d' : Store} {x : Ksid} {own own' : Ksid × KeyId → Prop}

theorem OnlyBlocks.withLocals (only : OnlyBlocks d d') (L : Table (Ksid × KeyId) LocalKey) :
    OnlyBlocks { d with locals := L } { d' with locals := L } := by
  unfold OnlyBlocks at only ⊢
  rw [only]

theorem Restored.withLocals (restored : Restored d d') (L : Table (Ksid × KeyId) LocalKey) :
    Restored { d with locals := L } { d' with locals := L } :=
  ⟨restored.only.withLocals L, restored.blocks⟩

/-- `d` is `base` with every block, cursor and reference as they were, and everything else as it
was, except that clear keys under the slots `own` may be gone: no clear key is added or
changed. -/
structure Spared (base : Store) (own : Ksid × KeyId → Prop) (d : Store) : Prop where
  restored : Restored base { d with locals := base.locals }
  locals : ∀ slot, d.locals.get? slot = none ∧ own slot ∨ d.locals.get? slot = base.locals.get? slot

namespace Spared

theorem refl (d : Store) (own : Ksid × KeyId → Prop) : d.Spared own d :=
  ⟨Restored.refl d, fun _ => .inr rfl⟩

theorem trans (first : base.Spared own d) (second : d.Spared own d') : base.Spared own d' := by
  refine ⟨first.restored.trans (second.restored.withLocals base.locals), fun slot => ?_⟩
  rcases second.locals slot with gone | same
  · exact .inl gone
  · rw [same]
    exact first.locals slot

theorem mono (spared : base.Spared own d) (more : ∀ slot, own slot → own' slot) : base.Spared own' d :=
  ⟨spared.restored, fun slot => (spared.locals slot).imp_left fun gone => ⟨gone.1, more slot gone.2⟩⟩

theorem of_restored (restored : Restored d d') : d.Spared own d' := by
  have same : d'.locals = d.locals := restored.only.locals
  refine ⟨?_, fun slot => .inr (by rw [same])⟩
  rw [← same]
  exact restored

theorem of_locals (frame : d' = { d with locals := d'.locals })
    (locals : ∀ slot, d'.locals.get? slot = none ∧ own slot ∨ d'.locals.get? slot = d.locals.get? slot) :
    d.Spared own d' := by
  refine ⟨?_, locals⟩
  rw [frame]
  exact Restored.refl d

theorem erase {slot : Ksid × KeyId} (mine : own slot) : d.Spared own { d with locals := d.locals.erase slot } := by
  refine of_locals rfl fun slot' => ?_
  rw [Table.get?_erase]
  by_cases same : slot = slot'
  · subst same
    exact .inl ⟨if_pos rfl, mine⟩
  · exact .inr (if_neg same)

end Spared

theorem LocalsFiled.of_locals (filed : d.LocalsFiled) (same : d'.locals = d.locals) : d'.LocalsFiled := by
  unfold LocalsFiled
  rw [same]
  exact filed

theorem takeLocal_cases (key : Option KeyId) :
    d.takeLocal x key = (none, d) ∨
      ∃ slot : Ksid × KeyId, slot.1 = x ∧ d.takeLocal x key = (d.locals.get? slot, { d with locals := d.locals.erase slot }) := by
  unfold takeLocal
  cases key with
  | some k => exact .inr ⟨(x, k), rfl, rfl⟩
  | none =>
    dsimp only
    cases first : (sessionKeys d.locals x).head? with
    | none => exact .inl rfl
    | some slot => exact .inr ⟨slot, mem_sessionKeys (List.mem_of_mem_head? first), rfl⟩

theorem takeLocal_spared (key : Option KeyId) : d.Spared (·.1 = x) (d.takeLocal x key).2 := by
  rcases takeLocal_cases (d := d) (x := x) key with same | ⟨slot, mine, same⟩
  · rw [same]
    exact .refl d _
  · rw [same]
    exact .erase mine

/-- A clear key taken and stored again is back under the slot it came from. -/
theorem takeLocal_putBack (filed : d.LocalsFiled) (key : Option KeyId) {l : LocalKey}
    (taken : (d.takeLocal x key).1 = some l) : d.Spared own ((d.takeLocal x key).2.storeLocals [l]) := by
  rcases takeLocal_cases (d := d) (x := x) key with same | ⟨slot, -, same⟩
  · rw [same] at taken
    cases taken
  rw [same] at taken ⊢
  dsimp only at taken
  have home : slot = (l.ksid, l.keyId) := Table.Keyed.get? filed taken
  refine .of_locals rfl fun slot' => .inr ?_
  simp only [storeLocals, List.foldl_cons, List.foldl_nil, Table.get?_insert, Table.get?_erase]
  by_cases here : slot = slot'
  · subst here
    rw [if_pos home.symm]
    exact taken.symm
  · rw [if_neg fun back => here (home.trans back), if_neg here]

end Store

/-! ### Records a request works on -/

namespace Spec

theorem of_outcome {ε σ α : Type} {P : σ → Prop} {m : EStateM ε σ α} {Q : α → σ → Prop} {E : σ → Prop}
    (outcome : ∀ s, P s → (∃ f t, m s = .error f t ∧ E t) ∨ ∃ a t, m s = .ok a t ∧ Q a t) : Spec P m Q E := by
  intro s start
  rcases outcome s start with ⟨f, t, run, failed⟩ | ⟨a, t, run, returned⟩
  · refine ⟨fun _ _ done => ?_, fun _ _ done => ?_⟩ <;> rw [run] at done <;> cases done
    exact failed
  · refine ⟨fun _ _ done => ?_, fun _ _ done => ?_⟩ <;> rw [run] at done <;> cases done
    exact returned

end Spec

namespace Storage

/-- Steady records, their clear keys filed under their own ids, that are `base` but for clear
keys of session `x` gone. -/
structure Intact (base : Store) (x : Ksid) (st : Storage) : Prop where
  steady : st.Steady
  filed : st.data.LocalsFiled
  spared : base.Spared (·.1 = x) st.data

/-- Records that were `base` but for clear keys of session `x` gone, when batch `b` was cut
from link `ℓ`, its kept keys stored in the clear for `x`. -/
structure Pending (base : Store) (x : Ksid) (ℓ : LinkId) (b : Batch) (st : Storage) : Prop where
  steady : st.Steady
  filed : st.data.LocalsFiled
  cut : ∃ d, base.Spared (·.1 = x) d ∧ Cutting ℓ d b.consumed [] { st.data with locals := d.locals } ∧
    ∀ slot, slot.1 = x ∧ slot.2 ∈ b.storedIds ∨ st.data.locals.get? slot = d.locals.get? slot

variable {base : Store} {x : Ksid} {ℓ : LinkId} {b : Batch} {st st' : Storage}

theorem Intact.start (steady : st.Steady) (filed : st.data.LocalsFiled) : st.Intact st.data x :=
  ⟨steady, filed, .refl _ _⟩

theorem Intact.step {d : Store} (intact : st.Intact base x) (kept : Store.Kept st.data d) (filed : d.LocalsFiled)
    (spared : st.data.Spared (·.1 = x) d) : ({ st with data := d } : Storage).Intact base x :=
  ⟨⟨intact.steady.calm, kept.indexed intact.steady.indexed⟩, filed, intact.spared.trans spared⟩

theorem Intact.restored (intact : st.Intact base x) (steady : st'.Steady) (restored : Store.Restored st.data st'.data) :
    st'.Intact base x :=
  ⟨steady, intact.filed.of_locals restored.only.locals, intact.spared.trans (.of_restored restored)⟩

theorem Pending.restored (pending : st.Pending base x ℓ b) (steady : st'.Steady)
    (restored : Store.Restored st.data st'.data) : st'.Pending base x ℓ b := by
  obtain ⟨d, spared, cutting, slots⟩ := pending.cut
  have same : st'.data.locals = st.data.locals := restored.only.locals
  refine ⟨steady, pending.filed.of_locals same, d, spared, cutting.restored (restored.withLocals d.locals), fun slot => ?_⟩
  rw [same]
  exact slots slot

theorem Intact.pending {dc : Store} {now : Nat} (intact : st.Intact base x) (steady : st'.Steady)
    (cutting : Cutting ℓ st.data b.consumed [] dc)
    (stored : st'.data = dc.storeLocals (b.stored.map fun key => ⟨x, key.keyId, key.material, now⟩)) :
    st'.Pending base x ℓ b := by
  have locals : dc.locals = st.data.locals := cutting.only.locals
  have filed : st'.data.LocalsFiled := by
    rw [stored]
    exact (intact.filed.of_locals locals).storeLocals _
  refine ⟨steady, filed, st.data, intact.spared, ?_, fun slot => ?_⟩
  · rw [stored, ← locals]
    exact cutting
  · by_cases kept : slot.1 = x ∧ slot.2 ∈ b.storedIds
    · exact .inl kept
    refine .inr ?_
    rw [stored, ← locals]
    refine Table.get?_foldl_insert_of_absent _ _ _ (fun l member same => kept ?_) _
    obtain ⟨key, inStored, rfl⟩ := List.mem_map.mp member
    rw [← same]
    exact ⟨rfl, List.mem_map_of_mem inStored⟩

end Storage

namespace Engine

variable {base : Store} {x : Ksid} {ℓ : LinkId} {b : Batch}

theorem discard_calm (x : Ksid) (e : Env) : ∀ (ids : List KeyId) (st : Storage), st.Steady →
    discard x ids (e, st) =
      .ok () (e, { st with data := { st.data with locals := ids.foldl (fun t i => t.erase (x, i)) st.data.locals } })
  | [], _, _ => rfl
  | i :: rest, st, steady => by
    have taken : Storage.takeLocalKey x (some i) st =
        .ok (st.data.locals.get? (x, i)) { st with data := { st.data with locals := st.data.locals.erase (x, i) } } :=
      Storage.write_steady steady.calm _ _
    have kept : Store.Kept st.data { st.data with locals := st.data.locals.erase (x, i) } := Store.Kept.of_blocks rfl rfl
    have steady' : ({ st with data := { st.data with locals := st.data.locals.erase (x, i) } } : Storage).Steady :=
      ⟨steady.calm, kept.indexed steady.indexed⟩
    unfold discard
    rw [run_forM_cons, bind_assoc, run_bind_ok (records_ok e taken)]
    exact discard_calm x e rest _ steady'

/-- Taking a prefetched key loses it at most; one of another size is stored again. -/
theorem takePrefetched_intact (sizeBits : Nat) :
    Spec (·.2.Intact base x) (takePrefetched x sizeBits)
      (fun key s => s.2.Intact base x ∧ ∀ l, key = some l → l.material.bitLen = sizeBits) fun _ => False := by
  refine Spec.of_ok fun s intact => ?_
  obtain ⟨e, st⟩ := s
  have taken : Storage.takeLocalKey x none st =
      .ok (st.data.takeLocal x none).1 { st with data := (st.data.takeLocal x none).2 } :=
    Storage.write_steady intact.steady.calm _ _
  have after := intact.step (Store.takeLocal_kept none) (intact.filed.takeLocal none) (Store.takeLocal_spared none)
  unfold takePrefetched
  rw [run_bind_ok (records_ok e taken)]
  cases found : (st.data.takeLocal x none).1 with
  | none => exact ⟨none, _, rfl, after, fun _ absent => by cases absent⟩
  | some l =>
    dsimp only
    split
    · rename_i sized
      exact ⟨some l, _, rfl, after, fun l' same => by cases same; exact sized⟩
    · -- a key of another size goes back where it was
      have back : Storage.storeLocalKeys [l] { st with data := (st.data.takeLocal x none).2 } =
          .ok () { st with data := (st.data.takeLocal x none).2.storeLocals [l] } :=
        Storage.write_steady after.steady.calm _ _
      rw [run_bind_ok (records_ok e back)]
      refine ⟨none, _, rfl, intact.step ((Store.takeLocal_kept none).trans (Store.Kept.of_blocks rfl rfl))
        ((intact.filed.takeLocal none).storeLocals [l]) (Store.takeLocal_putBack intact.filed none found),
        fun _ absent => by cases absent⟩

/-- Undoing a pending batch drops its kept keys and gives its spans back. -/
theorem undoBatch_pending : Spec (·.2.Pending base x ℓ b) (undoBatch x b) (fun _ s => s.2.Intact base x) fun _ => False := by
  refine Spec.of_ok fun s pending => ?_
  obtain ⟨e, st⟩ := s
  obtain ⟨d, spared, cutting, slots⟩ := pending.cut
  have kept : Store.Kept st.data { st.data with locals := b.storedIds.foldl (fun t i => t.erase (x, i)) st.data.locals } :=
    Store.Kept.of_blocks rfl rfl
  have steady₁ : ({ st with data := { st.data with
      locals := b.storedIds.foldl (fun t i => t.erase (x, i)) st.data.locals } } : Storage).Steady :=
    ⟨pending.steady.calm, kept.indexed pending.steady.indexed⟩
  obtain ⟨F, undone, steady, only, refs⟩ := Pool.undo_counts false b.consumed steady₁
  obtain ⟨F', undone', -, bare⟩ := Pool.undo_spec cutting.carves false _ steady₁ rfl
  rw [undone] at undone'
  cases undone'
  refine ⟨(), (e, F), by rw [undoBatch, run_bind_ok (discard_calm x e b.storedIds st pending.steady), records_ok e undone],
    steady, ?_, spared.trans ⟨?_, fun slot => ?_⟩⟩
  · have dropped : ({ st.data with locals := b.storedIds.foldl (fun t i => t.erase (x, i)) st.data.locals } :
        Store).LocalsFiled := pending.filed.foldl_erase _ _
    exact dropped.of_locals only.locals
  · -- the blocks are back, and nothing but the clear keys differs
    refine Store.restored_of (cutting.only.trans (only.withLocals d.locals)) bare fun X => ?_
    have undoneRefs := refs X
    simp only [Bool.false_eq_true, if_false, Nat.sub_zero] at undoneRefs
    calc ({ F.data with locals := d.locals } : Store).refs X = F.data.refs X := rfl
      _ = ({ st.data with locals := d.locals } : Store).refs X := undoneRefs
      _ = d.refs X := by simpa using cutting.refs X
  · rw [only.locals]
    dsimp only
    rw [Table.get?_foldl_erase]
    split
    · rename_i dropped
      obtain ⟨i, -, rfl⟩ := dropped
      exact .inl ⟨rfl, rfl⟩
    · rename_i kept
      rcases slots slot with ⟨mine, member⟩ | same
      · exact absurd ⟨slot.2, member, by rw [← mine]⟩ kept
      · exact .inr same

/-- Key generation without fault injection: it fails with the records restored, or cuts the
batch's spans and stores its kept keys in the clear. -/
theorem generate_calm (pool : Pool) (ksid : Ksid) (ℓ : LinkId) (sizeBits count keep : Nat) (e : Env) {st : Storage}
    (steady : st.Steady) (fits : keep ≤ count) :
    (∃ f e' st', generate pool ksid ℓ sizeBits count keep (e, st) = .error f (e', st') ∧ st'.Steady ∧
      Store.Restored st.data st'.data) ∨
    ∃ b e' st' dc, generate pool ksid ℓ sizeBits count keep (e, st) = .ok b (e', st') ∧ st'.Steady ∧
      (∀ key ∈ b.keys, key.material.len = sizeBits / 8) ∧ Cutting ℓ st.data b.consumed [] dc ∧
      st'.data = dc.storeLocals (b.stored.map fun key => ⟨ksid, key.keyId, key.material, e.wallSecs⟩) := by
  have sched : st.Scheduled := fun c armed => by
    rw [steady.calm] at armed
    cases armed
  -- the records stay steady whatever the outcome
  have ends : (endState (generate pool ksid ℓ sizeBits count keep (e, st))).2.Steady := by
    rcases generate_spec pool ksid ℓ sizeBits count keep e steady with ⟨_, _, _, run, steady', -⟩ | ⟨_, _, _, run, steady', -⟩
    · rw [run]
      exact steady'
    · rw [run]
      exact steady'
  rcases generate_scheduled pool ksid ℓ sizeBits count keep e sched steady.indexed fits with
    ⟨f, e', st', run, restored | ⟨-, armed, -⟩⟩ | ⟨b, e', st', dc, run, -, -, sized, -, cutting, stored⟩
  · rw [run] at ends
    exact .inl ⟨f, e', st', run, ends, restored⟩
  · obtain ⟨c, n, chaos, -⟩ := armed
    rw [steady.calm] at chaos
    cases chaos
  · rw [run] at ends
    exact .inr ⟨b, e', st', dc, run, ends, sized, cutting, stored⟩

theorem generate_intact (pool : Pool) (sizeBits count keep : Nat) (fits : keep ≤ count) :
    Spec (·.2.Intact base x) (generate pool x ℓ sizeBits count keep)
      (fun b s => s.2.Pending base x ℓ b ∧ ∀ key ∈ b.keys, key.material.len = sizeBits / 8) (·.2.Intact base x) := by
  refine Spec.of_outcome fun s intact => ?_
  rcases generate_calm pool x ℓ sizeBits count keep s.1 intact.steady fits with
    ⟨f, e', st', run, steady', restored⟩ | ⟨b, e', st', dc, run, steady', sized, cutting, stored⟩
  · exact .inl ⟨f, (e', st'), run, intact.restored steady' restored⟩
  · exact .inr ⟨b, (e', st'), run, intact.pending steady' cutting stored, sized⟩

theorem generate_pending (pool : Pool) (ksid : Ksid) (ℓ' : LinkId) (sizeBits count keep : Nat) (fits : keep ≤ count) :
    Spec (·.2.Pending base x ℓ b) (generate pool ksid ℓ' sizeBits count keep)
      (fun b' _ => ∀ key ∈ b'.keys, key.material.len = sizeBits / 8) (·.2.Pending base x ℓ b) := by
  refine Spec.of_outcome fun s pending => ?_
  rcases generate_calm pool ksid ℓ' sizeBits count keep s.1 pending.steady fits with
    ⟨f, e', st', run, steady', restored⟩ | ⟨b', e', st', dc, run, -, sized, -⟩
  · exact .inl ⟨f, (e', st'), run, pending.restored steady' restored⟩
  · exact .inr ⟨b', (e', st'), run, sized⟩

theorem available_calm (pool : Pool) (ℓ : LinkId) (e : Env) {st : Storage} (steady : st.Steady) :
    ∃ n, available pool ℓ (e, st) = .ok n (e, st) := by
  have eligible : Pool.eligible pool ℓ e.wallSecs st =
      .ok ((st.data.blocksForLink ℓ).filter (·.eligible e.wallSecs pool.ttlSecs)) st := by
    unfold Pool.eligible
    rw [run_bind_ok (Storage.blocksForLink_steady steady.calm ℓ)]
    rfl
  have counted : Pool.available pool ℓ e.wallSecs st =
      .ok (Pool.total ((st.data.blocksForLink ℓ).filter (·.eligible e.wallSecs pool.ttlSecs))) st := by
    unfold Pool.available
    rw [run_bind_ok eligible]
    rfl
  exact ⟨_, by rw [available, run_bind_ok (show wallSecs (e, st) = .ok e.wallSecs (e, st) from rfl), records_ok e counted]⟩

end Engine

namespace Kme

theorem pickLink_calm (pool : Pool) (needed : Nat) (e : Env) {st : Storage} (steady : st.Steady)
    (offered : List (LinkId × KmeId)) (best : Option (LinkId × Nat)) :
    ∃ r, pickLink pool needed offered best (e, st) = .ok r (e, st) := by
  induction offered generalizing best with
  | nil => exact ⟨_, rfl⟩
  | cons link rest ih =>
    obtain ⟨n, run⟩ := Engine.available_calm pool link.1 e steady
    rw [pickLink, run_bind_ok run]
    dsimp only
    split
    · exact ⟨_, rfl⟩
    · exact ih _

/-- The node `k₁` with nothing changed but its records, and those intact but for clear keys of
session `x` gone. -/
def Intact (k₁ : Kme) (x : Ksid) (k : Kme) : Prop := RecordsOnly k₁ k ∧ k.storage.Intact k₁.storage.data x

/-- The node `k₁` with nothing changed but its records, on which batch `b` is pending. -/
def Pending (k₁ : Kme) (x : Ksid) (ℓ : LinkId) (b : Batch) (k : Kme) : Prop :=
  RecordsOnly k₁ k ∧ k.storage.Pending k₁.storage.data x ℓ b

/-- What topping a request up leaves: the node intact when no batch was cut, the batch pending
when one was. -/
def Topped (k₁ : Kme) (x : Ksid) (ℓ : LinkId) (r : Option Batch) (k : Kme) : Prop :=
  (r = none → k₁.Intact x k) ∧ ∀ b, r = some b → k₁.Pending x ℓ b k

section Request

variable {k₁ : Kme} {x : Ksid}

theorem triple_engine_total {α : Type} {m : EngineM α} {P : Env × Storage → Prop} {Q : α → Env × Storage → Prop}
    {E : Env × Kme → Prop} (spec : Spec P m Q fun _ => False) :
    Triple (fun s => RecordsOnly k₁ s.2 ∧ P (s.1, s.2.storage)) (engine m)
      (fun a s => RecordsOnly k₁ s.2 ∧ Q a (s.1, s.2.storage)) E :=
  (triple_engine_only spec).conseq (fun _ start => start) (fun _ _ done => done) fun _ failed => failed.2.elim

/-- A generation whose failure keeps what held before it: so does its refusal of a size. -/
theorem generate_only {ksid : Ksid} {ℓ : LinkId} {sizeBits count keep : Nat} {P : Env × Storage → Prop}
    {Q : Batch → Env × Storage → Prop} (spec : ∀ pool, Spec P (Engine.generate pool ksid ℓ sizeBits count keep) Q P) :
    Triple (fun s => RecordsOnly k₁ s.2 ∧ P (s.1, s.2.storage)) (generate ksid ℓ sizeBits count keep)
      (fun b s => RecordsOnly k₁ s.2 ∧ Q b (s.1, s.2.storage)) (fun s => RecordsOnly k₁ s.2 ∧ P (s.1, s.2.storage)) := by
  unfold generate
  refine Triple.bind (Triple.ofExcept _ fun _ start => ⟨start, fun _ _ => start⟩) fun _ => ?_
  refine Triple.bind triple_current fun k => ?_
  exact (triple_engine_only (spec k.pool)).conseq (fun _ start => start.1) (fun _ _ done => done) (fun _ failed => failed)

theorem takeKept_intact (sizeBits : Nat) : ∀ (n : Nat) (keys : List (KeyId × Material)),
    (∀ key ∈ keys, key.2.bitLen = sizeBits) →
    Triple (fun s => k₁.Intact x s.2) (takeKept x sizeBits n keys)
      (fun keys s => k₁.Intact x s.2 ∧ ∀ key ∈ keys, key.2.bitLen = sizeBits) (fun s => k₁.Intact x s.2)
  | 0, keys, sized => Triple.pure keys fun _ start => ⟨start, sized⟩
  | n + 1, keys, sized => by
    rw [takeKept]
    refine Triple.bind (triple_engine_total (Engine.takePrefetched_intact sizeBits)) fun found => ?_
    cases found with
    | none => exact Triple.pure keys fun _ done => ⟨⟨done.1, done.2.1⟩, sized⟩
    | some l =>
      refine Triple.conseq (P := fun s => k₁.Intact x s.2 ∧ l.material.bitLen = sizeBits)
        (Triple.assume fun fetched => ?_) (fun _ start => ⟨⟨start.1, start.2.1⟩, start.2.2 l rfl⟩)
        (fun _ _ done => done) (fun _ failed => failed)
      refine takeKept_intact sizeBits n _ fun key member => ?_
      rcases List.mem_append.mp member with old | new
      · exact sized key old
      · rw [List.mem_singleton.mp new]
        exact fetched

theorem prefetched_intact (number sizeBits : Nat) :
    Triple (fun s => k₁.Intact x s.2) (prefetched x number sizeBits)
      (fun keys s => k₁.Intact x s.2 ∧ ∀ key ∈ keys, key.2.bitLen = sizeBits) (fun s => k₁.Intact x s.2) := by
  unfold prefetched
  refine Triple.bind triple_current fun k => ?_
  split
  · exact Triple.pure [] fun _ start => ⟨start.1, by simp⟩
  · exact (takeKept_intact sizeBits number [] (by simp)).conseq (fun _ start => start.1) (fun _ _ done => done)
      (fun _ failed => failed)

theorem generate_intact (ℓ : LinkId) (sizeBits count keep : Nat) (fits : keep ≤ count) :
    Triple (fun s => k₁.Intact x s.2) (generate x ℓ sizeBits count keep)
      (fun b s => k₁.Pending x ℓ b s.2 ∧ ∀ key ∈ b.keys, key.material.len = sizeBits / 8)
      (fun s => k₁.Intact x s.2) := by
  exact (generate_only fun pool => Engine.generate_intact pool sizeBits count keep fits).conseq
    (fun _ start => start) (fun _ _ done => ⟨⟨done.1, done.2.1⟩, done.2.2⟩) (fun _ failed => failed)

theorem generate_pending {ℓ : LinkId} {b : Batch} (ksid : Ksid) (ℓ' : LinkId) (sizeBits count keep : Nat)
    (fits : keep ≤ count) :
    Triple (fun s => k₁.Pending x ℓ b s.2) (generate ksid ℓ' sizeBits count keep)
      (fun b' s => RecordsOnly k₁ s.2 ∧ ∀ key ∈ b'.keys, key.material.len = sizeBits / 8)
      (fun s => k₁.Pending x ℓ b s.2) := by
  exact generate_only fun pool => Engine.generate_pending pool ksid ℓ' sizeBits count keep fits

theorem topUp_intact (ℓ : LinkId) (missing sizeBits : Nat) :
    Triple (fun s => k₁.Intact x s.2) (topUp x ℓ missing sizeBits)
      (fun r s => k₁.Topped x ℓ r s.2 ∧ ∀ b, r = some b → ∀ key ∈ b.keys, key.material.len = sizeBits / 8)
      (fun s => k₁.Intact x s.2) := by
  unfold topUp
  split
  · exact Triple.pure none fun _ start =>
      ⟨⟨fun _ => start, fun _ absent => by cases absent⟩, fun _ absent => by cases absent⟩
  · refine Triple.bind triple_current fun k => ?_
    dsimp only
    split
    · exact Triple.stop _
    · refine Triple.bind ((generate_intact ℓ sizeBits _ _ (Nat.le_add_left _ _)).conseq (fun _ start => start.1)
        (fun _ _ done => done) (fun _ failed => failed)) fun b => ?_
      refine Triple.pure (some b) fun _ done => ⟨⟨fun absent => (by cases absent), fun b' same => ?_⟩, fun b' same => ?_⟩
      · cases same
        exact done.1
      · cases same
        exact done.2

theorem undoBatch_intact {ℓ : LinkId} (b : Batch) {E : Env × Kme → Prop} :
    Triple (fun s => k₁.Pending x ℓ b s.2) (engine (EStateM.attempt (Engine.undoBatch x b)))
      (fun _ s => k₁.Intact x s.2) E := by
  have spec : Spec (·.2.Pending k₁.storage.data x ℓ b) (EStateM.attempt (Engine.undoBatch x b))
      (fun _ s => s.2.Intact k₁.storage.data x) fun _ => False :=
    Spec.attempt (Engine.undoBatch_pending.conseq (fun _ start => start) (fun _ _ done => done)
      fun _ absurd => absurd.elim)
  exact triple_engine_total spec

theorem pickLink_intact (pool : Pool) (needed : Nat) (offered : List (LinkId × KmeId)) (best : Option (LinkId × Nat))
    {E : Env × Kme → Prop} :
    Triple (fun s => k₁.Intact x s.2) (engine (pickLink pool needed offered best)) (fun _ s => k₁.Intact x s.2) E := by
  have spec : Spec (·.2.Intact k₁.storage.data x) (pickLink pool needed offered best)
      (fun _ s => s.2.Intact k₁.storage.data x) fun _ => False := by
    refine Spec.of_ok fun s intact => ?_
    obtain ⟨r, run⟩ := pickLink_calm pool needed s.1 intact.steady offered best
    exact ⟨r, s, run, intact⟩
  exact triple_engine_total spec

theorem localKeys_intact (r : SessionRecord) (number sizeBits : Nat) :
    Triple (fun s => k₁.Intact r.ksid s.2) (localKeys r number sizeBits) (fun _ _ => True)
      (fun s => k₁.Intact r.ksid s.2) := by
  unfold localKeys
  refine Triple.bind triple_current fun k => ?_
  dsimp only
  refine Triple.bind ((pickLink_intact _ _ _ _).conseq (fun _ start => start.1) (fun _ _ done => done)
    (fun _ failed => failed)) fun picked => ?_
  refine Triple.bind (triple_lift picked) fun chosen => ?_
  obtain ⟨ℓ, c⟩ := chosen
  -- the generation is the last step that can fail
  refine Triple.bind (generate_intact ℓ sizeBits number number (Nat.le_refl _)) fun _ => ?_
  exact Triple.pure _ fun _ _ => trivial

theorem directKeys_intact (r : SessionRecord) (companion : KmeId) (number sizeBits : Nat) :
    Triple (fun s => k₁.Intact r.ksid s.2) (directKeys r companion number sizeBits) (fun _ _ => True)
      (fun s => k₁.Intact r.ksid s.2) := by
  unfold directKeys
  refine Triple.bind (triple_linkTo_frame companion) fun ℓ => ?_
  refine Triple.bind ((prefetched_intact number sizeBits).conseq (fun _ start => start) (fun _ _ done => done.1)
    (fun _ failed => failed)) fun keys => ?_
  refine Triple.bind (topUp_intact ℓ _ sizeBits) fun topped => ?_
  -- nothing after the top-up can fail
  cases topped with
  | none => exact Triple.pure _ fun _ _ => trivial
  | some batch => exact Triple.bind triple_wallSecs fun _ => Triple.pure _ fun _ _ => trivial

/-- Keys for a relayed session: when the one-time keys cannot be cut, the batch cut for the
application is undone, its kept keys dropped; the kept keys taken before it stay taken. -/
theorem relayFirst_intact (r : SessionRecord) (next : KmeId) (number sizeBits : Nat) :
    Triple (fun s => k₁.Intact r.ksid s.2) (relayFirst r next number sizeBits) (fun _ _ => True)
      (fun s => k₁.Intact r.ksid s.2) := by
  unfold relayFirst
  refine Triple.bind (triple_linkTo_frame next) fun ℓ => ?_
  refine Triple.bind (prefetched_intact number sizeBits) fun keys => Triple.assume fun kept => ?_
  refine Triple.bind (topUp_intact ℓ _ sizeBits) fun appBatch => Triple.assume fun app => ?_
  -- the one-time keys are cut from the records the top-up left, pending batch or not
  have generated : Triple (fun s => k₁.Topped r.ksid ℓ appBatch s.2) (generate r.ksid ℓ sizeBits number 0)
      (fun otks s => RecordsOnly k₁ s.2 ∧ ∀ key ∈ otks.keys, key.material.len = sizeBits / 8)
      (fun s => k₁.Topped r.ksid ℓ appBatch s.2) := by
    cases appBatch with
    | none =>
      exact (generate_intact ℓ sizeBits number 0 (Nat.zero_le _)).conseq (fun _ start => start.1 rfl)
        (fun _ _ done => ⟨done.1.1, done.2⟩) fun _ failed => ⟨fun _ => failed, fun _ absent => (by cases absent)⟩
    | some b =>
      exact (generate_pending r.ksid ℓ sizeBits number 0 (Nat.zero_le _)).conseq (fun _ start => start.2 b rfl)
        (fun _ _ done => done) fun _ failed => ⟨fun absent => (by cases absent), fun b' same => by cases same; exact failed⟩
  refine Triple.bind (Triple.tryCatch generated ?undo (fun a => Triple.stop a)) fun otks => Triple.assume fun otk => ?_
  case undo =>
    intro f
    cases appBatch with
    | none => exact Triple.throw _ fun _ start => start.1 rfl
    | some b =>
      exact Triple.bind ((undoBatch_intact b).conseq (fun _ start => start.2 b rfl) (fun _ _ done => done)
        (fun _ failed => failed)) fun _ => Triple.throw _ fun _ done => done
  dsimp only
  refine Triple.bind triple_wallSecs fun now => ?_
  -- every key handed out has the length of the one-time key that masks it, so masking succeeds
  have sized : ∀ key ∈ keys ++ (appBatch.map handedOut).getD [], key.2.len = sizeBits / 8 := by
    intro key member
    rcases List.mem_append.mp member with old | new
    · exact Material.len_of_bitLen (kept key old)
    · cases appBatch with
      | none => cases new
      | some b =>
        obtain ⟨i, issued, rfl⟩ := List.mem_map.mp new
        exact app b rfl i (List.mem_append_left _ issued)
  refine Triple.bind (triple_lift_ok (fun forwards => ∀ a ∈ forwards, True) ?masked) fun forwards =>
    Triple.pure _ fun _ _ => trivial
  case masked =>
    refine mapM_ok _ _ _ fun pair member => ?_
    obtain ⟨⟨keyId, key⟩, pad⟩ := pair
    have ⟨inKeys, inPads⟩ := List.of_mem_zip member
    obtain ⟨cipher, wrapped⟩ := Relay.wrap_ok ((sized _ inKeys).trans (otk pad (List.mem_append_left _ inPads)).symm)
    exact ⟨_, by simp only [wrapped]; rfl, trivial⟩

theorem sessionByApps_found {R : Env × Kme → Prop} (src dst : AppId) :
    Triple (fun s => RecordsOnly k₁ s.2 ∧ R s) (sessionByApps src dst)
      (fun r s => (RecordsOnly k₁ s.2 ∧ R s) ∧ k₁.sessions.byPair? src dst = some r) (fun s => RecordsOnly k₁ s.2 ∧ R s) := by
  unfold sessionByApps
  refine Triple.bind triple_current_only fun k => Triple.assume fun only => ?_
  split
  · rename_i r found
    rw [only.sessions] at found
    exact Triple.pure _ fun _ start => ⟨start, found⟩
  · exact triple_fail _ fun _ start => start

/-- The master application's request for keys, from the node `k₁` it reaches: a failure loses
clear keys of the session of the two applications at most. -/
theorem encKeys_spared (src dst : AppId) (number : Nat) (size : Option Nat) (steady : k₁.storage.Steady)
    (filed : k₁.storage.data.LocalsFiled) :
    Triple (fun s => RecordsOnly k₁ s.2 ∧ s.2.storage = k₁.storage) (encKeys src dst number size) (fun _ _ => True)
      (fun s => RecordsOnly k₁ s.2 ∧ k₁.storage.data.Spared
        (fun slot => ∃ r, k₁.sessions.byPair? src dst = some r ∧ slot.1 = r.ksid) s.2.storage.data) := by
  unfold encKeys
  refine Triple.bind ((sessionByApps_found src dst).conseq (fun _ start => start) (fun _ _ done => done)
    fun _ failed => ⟨failed.1, by rw [failed.2]; exact .refl _ _⟩) fun r => Triple.assume fun found => ?_
  -- from here on, only clear keys of the session found can go
  refine Triple.conseq (P := fun s => k₁.Intact r.ksid s.2) (E := fun s => k₁.Intact r.ksid s.2) ?_
    (fun _ start => ⟨start.1, by rw [start.2]; exact .start steady filed⟩) (fun _ _ done => done)
    fun _ failed => ⟨failed.1, failed.2.spared.mono fun _ mine => ⟨r, found, mine⟩⟩
  refine Triple.bind triple_current fun k => ?_
  dsimp only
  split
  · exact Triple.throw_bind _ fun _ start => start.1
  refine Triple.bind ((triple_checkCount number).conseq (fun _ start => start.1) (fun _ _ done => done)
    (fun _ failed => failed)) fun _ => ?_
  refine Triple.bind (triple_lift _) fun sizeBits => ?_
  refine Triple.bind (triple_lift _) fun role => ?_
  split
  · exact localKeys_intact r number sizeBits
  · exact directKeys_intact r _ number sizeBits
  · exact relayFirst_intact r _ number sizeBits
  · exact triple_fail _ fun _ start => start

end Request

/-- Without fault injection, the sweep before a request for keys returns, changing nothing but
the records and keeping them steady with their clear keys filed. -/
theorem sweepQuietly_steady {k : Kme} (steady : k.storage.Steady) (filed : k.storage.data.LocalsFiled) (e : Env) :
    ∃ e₁ k₁, sweepQuietly (e, k) = .ok () (e₁, k₁) ∧ RecordsOnly k k₁ ∧ k₁.storage.Steady ∧
      k₁.storage.data.LocalsFiled := by
  -- a failure of the sweep is ignored
  obtain ⟨e₁, k₁, swept⟩ : ∃ e₁ k₁, sweepQuietly (e, k) = .ok () (e₁, k₁) := by
    unfold sweepQuietly
    rw [run_bind_ok (show current (e, k) = .ok k (e, k) from rfl), run_engine, run_attempt]
    exact ⟨_, _, rfl⟩
  have shrunk := triple_sweepQuietly (e, k) (Shrunk.refl steady)
  have only := sweepQuietly_only (P := Store.LocalsFiled)
    (fun same filed => filed.of_locals same.2.1) (e, k) ⟨RecordsOnly.refl k, filed⟩
  rw [swept] at shrunk only
  exact ⟨e₁, k₁, swept, only.1, shrunk.steady, only.2⟩

/-- A request of the master application for keys that fails, on records without fault injection
whose clear keys are filed under their ids. The sweep of the blocks that can go, which comes first,
returns; from the node it leaves, the failed request changes nothing but the records, and those
keep every block with its cursor and references, every row, link and session record. The clear
keys are not all kept: keys of the session of the two applications may be gone, those the
request took before a later step failed. No other clear key is lost, and none is added. -/
theorem failed_key_request_loses_only_session_keys {k k' : Kme} (steady : k.storage.Steady)
    (filed : k.storage.data.LocalsFiled) {src dst : AppId} {number : Nat} {size : Option Nat} {e : Env}
    (ran : respond (.encKeys src dst number size) e k = some (none, k')) :
    ∃ e₁ k₁, sweepQuietly (e, k) = .ok () (e₁, k₁) ∧ RecordsOnly k₁ k' ∧
      k₁.storage.data.Spared (fun slot => ∃ r, k.sessions.byPair? src dst = some r ∧ slot.1 = r.ksid)
        k'.storage.data := by
  obtain ⟨e₁, k₁, swept, only, steady₁, filed₁⟩ := sweepQuietly_steady steady filed e
  have handled : handle (.encKeys src dst number size) (e, k) = encKeys src dst number size (e₁, k₁) := by
    show (sweepQuietly >>= fun _ => encKeys src dst number size) (e, k) = _
    rw [run_bind_ok swept]
  have landed := encKeys_spared src dst number size steady₁ filed₁ (e₁, k₁) ⟨RecordsOnly.refl k₁, rfl⟩
  unfold respond at ran
  rw [handled] at ran
  -- only a fault ends the request without a plan
  cases run : encKeys src dst number size (e₁, k₁) with
  | ok p t =>
    rw [run] at ran
    cases ran
  | error h t =>
    rw [run] at ran landed
    obtain ⟨e', k''⟩ := t
    cases h with
    | fault f =>
      cases ran
      obtain ⟨recordsOnly, spared⟩ := landed
      refine ⟨e₁, k₁, swept, recordsOnly, ?_⟩
      rw [← only.sessions]
      exact spared
    | abort a => cases ran

/-- A node of id 1 with one session, 99, of applications 10 and 11, served over link 7 to node 2;
one key of the session kept in the clear, and 16 bytes left on the link's one block. It is what a
first request for one key leaves when one key more is generated and kept. -/
def keptOnShortLink : Kme :=
  let b : Block := ⟨⟨5⟩, ⟨7⟩, 1000, 0, List.replicate 48 1, 32, 0⟩
  let kept : LocalKey := ⟨⟨99⟩, ⟨2⟩, ⟨List.replicate 16 1⟩, 1000⟩
  let r : SessionRecord := ⟨⟨99⟩, ⟨10⟩, ⟨11⟩, ⟨1⟩, ⟨2⟩, ⟨128, 1000⟩, [⟨1⟩, ⟨2⟩], 1000⟩
  let link : LinkState := ⟨⟨⟨7⟩, some ⟨2⟩, some "kme-2", 0, 15, 1000⟩, {}⟩
  { id := ⟨1⟩, config := { defaultKeySize := 128, prefetchKeys := 1 }, pool := ⟨15, 1⟩,
    storage := { data := { (({} : Store).insertBlock b).2 with
      locals := ({} : Table (Ksid × KeyId) LocalKey).insert (⟨99⟩, ⟨2⟩) kept } },
    sessions := (({} : SessionIndex).insert r).1, links := ({} : Table LinkId LinkState).insert ⟨7⟩ link }

/-- Asked for two keys, the node takes its kept key, then fails to cut the two more it needs. -/
theorem failed_key_request_loses_only_session_keys_on_a_short_link :
    keptOnShortLink.storage.Steady ∧ keptOnShortLink.storage.data.LocalsFiled ∧
    ∃ k', respond (.encKeys ⟨10⟩ ⟨11⟩ 2 none) default keptOnShortLink = some (none, k') ∧
      ∃ e₁ k₁, sweepQuietly (default, keptOnShortLink) = .ok () (e₁, k₁) ∧ RecordsOnly k₁ k' ∧
        k₁.storage.data.Spared
          (fun slot => ∃ r, keptOnShortLink.sessions.byPair? ⟨10⟩ ⟨11⟩ = some r ∧ slot.1 = r.ksid) k'.storage.data := by
  have steady : keptOnShortLink.storage.Steady := by
    let b : Block := ⟨⟨5⟩, ⟨7⟩, 1000, 0, List.replicate 48 1, 32, 0⟩
    have kept : Store.Kept (({} : Store).insertBlock b).2 keptOnShortLink.storage.data := Store.Kept.of_blocks rfl rfl
    exact ⟨rfl, kept.indexed (Store.indexed_default.insertBlock b)⟩
  have empty : ({} : Store).LocalsFiled := fun _ _ member => by cases member
  have filed : keptOnShortLink.storage.data.LocalsFiled :=
    Table.Keyed.insert empty (⟨⟨99⟩, ⟨2⟩, ⟨List.replicate 16 1⟩, 1000⟩ : LocalKey)
  have failed : ((respond (.encKeys ⟨10⟩ ⟨11⟩ 2 none) default keptOnShortLink).map fun out => out.1.isNone) =
      some true := by
    decide +kernel
  obtain ⟨⟨out, k'⟩, ran, noPlan⟩ := Option.map_eq_some_iff.mp failed
  obtain rfl : out = none := Option.isNone_iff_eq_none.mp noPlan
  exact ⟨steady, filed, k', ran, failed_key_request_loses_only_session_keys steady filed ran⟩

/-- The same request: it fails with the block as it was, but the key it took is gone. -/
theorem failed_key_request_drops_a_prefetched_key :
    ∃ k', respond (.encKeys ⟨10⟩ ⟨11⟩ 2 none) default keptOnShortLink = some (none, k') ∧
      (keptOnShortLink.storage.data.locals.get? (⟨99⟩, ⟨2⟩)).isSome ∧ k'.storage.data.locals.get? (⟨99⟩, ⟨2⟩) = none ∧
      k'.storage.data.blocks.get? ⟨5⟩ = keptOnShortLink.storage.data.blocks.get? ⟨5⟩ := by
  have failed : ((respond (.encKeys ⟨10⟩ ⟨11⟩ 2 none) default keptOnShortLink).map fun out =>
      (out.1.isNone, (out.2.storage.data.locals.get? (⟨99⟩, ⟨2⟩)).isNone,
        decide (out.2.storage.data.blocks.get? ⟨5⟩ = keptOnShortLink.storage.data.blocks.get? ⟨5⟩))) =
      some (true, true, true) := by
    decide +kernel
  obtain ⟨⟨out, k'⟩, ran, outcome⟩ := Option.map_eq_some_iff.mp failed
  simp only [Prod.mk.injEq, Option.isNone_iff_eq_none, decide_eq_true_eq] at outcome
  obtain ⟨rfl, gone, same⟩ := outcome
  exact ⟨k', ran, by decide +kernel, gone, same⟩

end Kme

end KeyRelay
