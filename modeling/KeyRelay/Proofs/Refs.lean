import KeyRelay.Proofs.Pool

/-! Reference counts set against the rows that will replay them. A row stored for a key holds
one reference on the block of each of its spans; `Store.held` counts these (row, span) pairs
on a block and `Store.refs` reads the block's count, none once the block is gone. The records
back their rows (`Store.Backs`) when each block's count covers the pairs on it, together with
the references a computation has taken and still owes a release. Each operation of the records
and of the pool says here what it does to that account: storing rows spends owed references,
taking rows makes their references owed, a carve or an acknowledgement adds owed references,
a release pays them, and a sweep deletes only blocks nothing refers to. -/

namespace KeyRelay

namespace Table

variable {κ α : Type} [DecidableEq κ]

/-! ### Sums over the values

A weight summed over a table's values: what an update adds and what it takes away, when no key
has two entries. -/

section Sums

variable (w : α → Nat)

private theorem sum_filter_find? (k : κ) : ∀ (entries : List (κ × α)), (entries.map (·.1)).Nodup →
    ((entries.filter (·.1 ≠ k)).map (w ·.2)).sum + (((entries.find? (·.1 = k)).map (·.2)).map w).getD 0 =
      (entries.map (w ·.2)).sum
  | [], _ => rfl
  | e :: rest, distinct => by
    rw [List.map_cons, List.nodup_cons] at distinct
    by_cases hit : e.1 = k
    · -- the rest has no entry of the key
      have kept : rest.filter (·.1 ≠ k) = rest := List.filter_eq_self.mpr fun e' member => by
        have other : e'.1 ≠ k := fun same => distinct.1 (hit ▸ same ▸ List.mem_map_of_mem member)
        simpa using other
      simp only [List.filter_cons, hit, ne_eq, not_true_eq_false, decide_false, Bool.false_eq_true,
        if_false, kept, List.find?_cons, decide_true, Option.map_some, Option.getD_some, List.map_cons,
        List.sum_cons]
      omega
    · have step := sum_filter_find? k rest distinct.2
      simp only [List.filter_cons, hit, ne_eq, not_false_eq_true, decide_true, if_true, List.find?_cons,
        decide_false, List.map_cons, List.sum_cons] at step ⊢
      omega

/-- Erasing a key takes its value's weight away. -/
theorem sum_erase {t : Table κ α} (distinct : t.KeysNodup) (k : κ) :
    ((t.erase k).values.map w).sum + ((t.get? k).map w).getD 0 = (t.values.map w).sum := by
  simpa [values, erase, get?, List.map_map, Function.comp_def] using
    sum_filter_find? w k t.entries distinct

private theorem sum_replace (k : κ) (v : α) : ∀ (entries : List (κ × α)), (entries.map (·.1)).Nodup →
    entries.any (·.1 = k) →
    ((entries.map fun e => if e.1 = k then (k, v) else e).map (w ·.2)).sum =
      ((entries.filter (·.1 ≠ k)).map (w ·.2)).sum + w v
  | [], _, present => by simp at present
  | e :: rest, distinct, present => by
    rw [List.map_cons, List.nodup_cons] at distinct
    by_cases hit : e.1 = k
    · -- the entry replaced is the only one of its key
      have same : (rest.map fun e => if e.1 = k then (k, v) else e) = rest.map id :=
        List.map_congr_left fun e' member => by
          have other : e'.1 ≠ k := fun same => distinct.1 (hit ▸ same ▸ List.mem_map_of_mem member)
          simp [other]
      rw [List.map_id] at same
      have kept : rest.filter (·.1 ≠ k) = rest := List.filter_eq_self.mpr fun e' member => by
        have other : e'.1 ≠ k := fun same => distinct.1 (hit ▸ same ▸ List.mem_map_of_mem member)
        simpa using other
      simp only [List.map_cons, hit, if_true, same, List.sum_cons, List.filter_cons, ne_eq,
        not_true_eq_false, decide_false, Bool.false_eq_true, if_false, kept]
      omega
    · have later : rest.any (·.1 = k) := by simpa [hit] using present
      have step := sum_replace k v rest distinct.2 later
      simp only [List.map_cons, hit, if_false, List.sum_cons, List.filter_cons, ne_eq, not_false_eq_true,
        decide_true, if_true] at step ⊢
      omega

/-- Inserting sets the weight of the key to that of its new value. -/
theorem sum_insert {t : Table κ α} (distinct : t.KeysNodup) (k : κ) (v : α) :
    ((t.insert k v).values.map w).sum = ((t.erase k).values.map w).sum + w v := by
  unfold insert
  split
  · rename_i present
    simpa [values, erase, List.map_map, Function.comp_def] using
      sum_replace w k v t.entries distinct (by simpa [contains] using present)
  · rename_i absent
    have kept : t.entries.filter (·.1 ≠ k) = t.entries := List.filter_eq_self.mpr fun e member => by
      have other : e.1 ≠ k := fun same => absent (List.any_eq_true.mpr ⟨e, member, by simp [same]⟩)
      simpa using other
    have same : (t.erase k).values = t.values := by
      simp only [erase, values]
      rw [kept]
    rw [same]
    simp [values]

/-- Keeping the keys that pass takes away the weights of the values of the others, wherever
they are listed. -/
theorem sum_filter {t : Table κ α} (distinct : t.KeysNodup) (p : κ → Bool) :
    ((t.filter fun k _ => p k).values.map w).sum + (((t.keys.filter (!p ·)).filterMap t.get?).map w).sum =
      (t.values.map w).sum := by
  -- the values of the keys that fail are those of the entries that fail
  have found : (t.keys.filter (!p ·)).filterMap t.get? = (t.entries.filter (!p ·.1)).map (·.2) := by
    have each : ∀ e ∈ t.entries.filter (!p ·.1), t.get? e.1 = some e.2 :=
      fun e member => get?_of_mem distinct (List.mem_filter.mp member).1
    simp only [keys, List.filter_map, List.filterMap_map, Function.comp_def]
    rw [List.filterMap_congr each]
    simp
  rw [found]
  simpa [values, filter, List.map_map, Function.comp_def] using
    List.sum_map_filter_add_sum_map_filter_not (fun e : κ × α => p e.1 = true) (w ·.2) t.entries

end Sums

end Table

/-- The spans of a list that lie on block `X`. -/
def onBlock (spans : List Span) (X : BlockId) : Nat := spans.countP (·.block = X)

@[simp] theorem onBlock_nil (X : BlockId) : onBlock [] X = 0 := rfl

@[simp] theorem onBlock_cons (s : Span) (spans : List Span) (X : BlockId) :
    onBlock (s :: spans) X = onBlock spans X + if s.block = X then 1 else 0 := by
  simp [onBlock, List.countP_cons]

@[simp] theorem onBlock_append (a b : List Span) (X : BlockId) :
    onBlock (a ++ b) X = onBlock a X + onBlock b X :=
  List.countP_append

theorem onBlock_flatMap (rows : List KeyRow) (X : BlockId) :
    onBlock (rows.flatMap (·.spans)) X = (rows.map fun r => onBlock r.spans X).sum := by
  simp only [onBlock, List.countP_flatMap, Function.comp_def]

namespace Store

/-- The references a block holds: its count, none once it is gone. -/
def refs (s : Store) (X : BlockId) : Nat := ((s.blocks.get? X).map (·.inUse)).getD 0

/-- The pairs of a stored row and one of its spans that lie on block `X`. -/
def held (s : Store) (X : BlockId) : Nat := (s.rows.values.map fun r => onBlock r.spans X).sum

/-- The records back their rows, with `owed` references taken and not yet released: no block
and no row is filed twice, and the count of each block covers the pairs of the stored rows on
it and the owed references on it. -/
structure Backs (s : Store) (owed : List Span) : Prop where
  blocksKeyed : s.blocks.KeysNodup
  rowsKeyed : s.rows.KeysNodup
  covers : ∀ X, s.held X + onBlock owed X ≤ s.refs X

theorem backs_default : ({} : Store).Backs [] :=
  ⟨List.nodup_nil, List.nodup_nil, fun X => by simp [held, refs, Table.values]⟩

section Backs

variable {s : Store} {owed : List Span}

/-- Owing fewer references on every block. -/
theorem Backs.mono {fewer : List Span} (backs : s.Backs owed) (le : ∀ X, onBlock fewer X ≤ onBlock owed X) :
    s.Backs fewer :=
  ⟨backs.blocksKeyed, backs.rowsKeyed, fun X => le_trans (Nat.add_le_add_left (le X) _) (backs.covers X)⟩

theorem Backs.of_append {more : List Span} (backs : s.Backs (owed ++ more)) : s.Backs owed :=
  backs.mono fun X => by simp

/-- A block that a stored row or an owed reference names is resident, and its count covers
them. -/
theorem Backs.resident (backs : s.Backs owed) {X : BlockId} (named : 0 < s.held X + onBlock owed X) :
    ∃ b, s.blocks.get? X = some b ∧ s.held X + onBlock owed X ≤ b.inUse := by
  have covers := backs.covers X
  unfold refs at covers
  cases found : s.blocks.get? X with
  | none =>
    rw [found] at covers
    simp only [Option.map_none, Option.getD_none] at covers
    omega
  | some b =>
    rw [found] at covers
    exact ⟨b, rfl, covers⟩

/-! ### Storing and taking rows -/

theorem held_insert (rowsKeyed : s.rows.KeysNodup) (k : Ksid × KeyId) (r : KeyRow) (X : BlockId) :
    ({ s with rows := s.rows.insert k r } : Store).held X ≤ s.held X + onBlock r.spans X := by
  have inserted := Table.sum_insert (fun r : KeyRow => onBlock r.spans X) rowsKeyed k r
  have erased := Table.sum_erase (fun r : KeyRow => onBlock r.spans X) rowsKeyed k
  simp only [held]
  omega

/-- Storing a row spends the references owed on its spans; a row it replaces frees its own. -/
theorem Backs.insertRow {r : KeyRow} (backs : s.Backs (owed ++ r.spans)) (k : Ksid × KeyId) :
    ({ s with rows := s.rows.insert k r } : Store).Backs owed := by
  refine ⟨backs.blocksKeyed, Table.keysNodup_insert backs.rowsKeyed k r, fun X => ?_⟩
  have stored := held_insert backs.rowsKeyed k r X
  have covers := backs.covers X
  simp only [onBlock_append] at covers
  exact le_trans (by omega) covers

theorem storeRows_cons (r : KeyRow) (rows : List KeyRow) :
    s.storeRows (r :: rows) = ({ s with rows := s.rows.insert (r.ksid, r.keyId) r } : Store).storeRows rows := rfl

/-- Storing rows spends the references owed on all their spans. -/
theorem Backs.storeRows : ∀ (rows : List KeyRow) {s : Store}, s.Backs (owed ++ rows.flatMap (·.spans)) →
    (s.storeRows rows).Backs owed
  | [], s, backs => by simpa [Store.storeRows] using backs
  | r :: rest, s, backs => by
    rw [storeRows_cons]
    apply Backs.storeRows rest
    apply Backs.insertRow
    exact backs.mono fun X => by simp only [List.flatMap_cons, onBlock_append]; omega

/-- Taking a row makes the references on its spans owed. -/
theorem Backs.takeRow (backs : s.Backs owed) (ksid : Ksid) (key : KeyId) :
    (s.takeRow ksid key).2.Backs (owed ++ ((s.takeRow ksid key).1.map (·.spans)).getD []) := by
  show ({ s with rows := s.rows.erase (ksid, key) } : Store).Backs
    (owed ++ ((s.rows.get? (ksid, key)).map (·.spans)).getD [])
  refine ⟨backs.blocksKeyed, Table.keysNodup_erase backs.rowsKeyed _, fun X => ?_⟩
  have erased := Table.sum_erase (fun r : KeyRow => onBlock r.spans X) backs.rowsKeyed (ksid, key)
  have covers := backs.covers X
  simp only [held, refs] at erased covers ⊢
  cases found : s.rows.get? (ksid, key) with
  | none =>
    rw [found] at erased
    simp only [Option.map_none, Option.getD_none] at erased
    simp only [Option.map_none, Option.getD_none, List.append_nil]
    omega
  | some r =>
    rw [found] at erased
    simp only [Option.map_some, Option.getD_some, onBlock_append] at erased ⊢
    omega

/-- Taking a session's rows makes the references on all their spans owed. -/
theorem Backs.takeSessionRows (backs : s.Backs owed) (ksid : Ksid) :
    (s.takeSessionRows ksid).2.Backs (owed ++ (s.takeSessionRows ksid).1.flatMap (·.spans)) := by
  show ({ s with rows := s.rows.filter fun k _ => k.1 ≠ ksid } : Store).Backs
    (owed ++ ((sessionKeys s.rows ksid).filterMap s.rows.get?).flatMap (·.spans))
  refine ⟨backs.blocksKeyed, List.Nodup.sublist (List.Sublist.map _ List.filter_sublist) backs.rowsKeyed,
    fun X => ?_⟩
  -- the rows taken are those of the session's keys, in another order
  have session : s.rows.keys.filter (fun k => !decide (k.1 ≠ ksid)) = s.rows.keys.filter (·.1 = ksid) :=
    List.filter_congr fun k _ => by simp
  have listed : List.Perm (((sessionKeys s.rows ksid).filterMap s.rows.get?).map fun r => onBlock r.spans X)
      (((s.rows.keys.filter fun k => !decide (k.1 ≠ ksid)).filterMap s.rows.get?).map
        fun r => onBlock r.spans X) := by
    rw [session]
    exact ((List.mergeSort_perm _ _).filterMap _).map _
  have split := Table.sum_filter (fun r : KeyRow => onBlock r.spans X) backs.rowsKeyed fun k => decide (k.1 ≠ ksid)
  have covers := backs.covers X
  simp only [onBlock_append, onBlock_flatMap, held, refs] at covers ⊢
  rw [listed.sum_eq]
  exact le_trans (by omega) covers

/-! ### Blocks coming and going -/

theorem refs_deleteBlock (Y X : BlockId) : (s.deleteBlock Y).refs X = if Y = X then 0 else s.refs X := by
  unfold deleteBlock
  split
  · rename_i absent
    by_cases same : Y = X
    · subst same
      simp [refs, absent]
    · simp [same]
  · by_cases same : Y = X <;> simp [refs, same]

/-- A block with no reference left can go. -/
theorem Backs.deleteBlock (backs : s.Backs owed) {Y : BlockId} (idle : s.refs Y = 0) :
    (s.deleteBlock Y).Backs owed := by
  refine ⟨?_, ?_, fun X => ?_⟩
  · unfold Store.deleteBlock
    split
    · exact backs.blocksKeyed
    · exact Table.keysNodup_erase backs.blocksKeyed Y
  · unfold Store.deleteBlock
    split <;> exact backs.rowsKeyed
  · have covers := backs.covers X
    have rows : (s.deleteBlock Y).held X = s.held X := by
      unfold Store.deleteBlock
      split <;> rfl
    rw [rows, refs_deleteBlock]
    split
    · rename_i same
      subst same
      omega
    · exact covers

/-- A new block arrives with no reference. -/
theorem Backs.insertBlock (backs : s.Backs owed) {b : Block} (fresh : b.inUse = 0) :
    (s.insertBlock b).2.Backs owed := by
  unfold Store.insertBlock
  split
  · exact backs
  · rename_i present
    have absent : s.blocks.get? b.id = none := Table.get?_eq_none_of_contains _ _ (by simpa using present)
    refine ⟨Table.keysNodup_insert backs.blocksKeyed _ _, backs.rowsKeyed, fun X => ?_⟩
    have covers := backs.covers X
    simp only [held, refs, Table.get?_insert] at covers ⊢
    split
    · rename_i same
      subst same
      simp only [absent, Option.map_none, Option.getD_none] at covers
      simp only [Option.map_some, Option.getD_some, fresh]
      omega
    · exact covers

end Backs

end Store

namespace Storage

theorem refs_written {st : Storage} {b c : Block} (stored : st.data.blocks.get? b.id = some c) (X : BlockId) :
    (st.written b).data.refs X = if b.id = X then b.inUse else st.data.refs X := by
  by_cases same : b.id = X
  · subst same
    simp [Store.refs, get?_written, stored]
  · simp [Store.refs, get?_written, same]

end Storage

/-- Writing back a stored block whose count covers what is owed on it afterwards; elsewhere
no more is owed than before. -/
theorem Store.Backs.written {st : Storage} {owed owed' : List Span} (backs : st.data.Backs owed) {b c : Block}
    (stored : st.data.blocks.get? b.id = some c) (here : st.data.held b.id + onBlock owed' b.id ≤ b.inUse)
    (elsewhere : ∀ X, b.id ≠ X → onBlock owed' X ≤ onBlock owed X) : (st.written b).data.Backs owed' := by
  refine ⟨Table.keysNodup_modify backs.blocksKeyed _ _, backs.rowsKeyed, fun X => ?_⟩
  rw [Storage.refs_written stored]
  show st.data.held X + _ ≤ _
  split
  · rename_i same
    subst same
    exact here
  · rename_i other
    exact le_trans (Nat.add_le_add_left (elsewhere X other) _) (backs.covers X)

theorem Block.uncarve_some {b b' : Block} {s : Span} {release : Bool} (undone : b.uncarve s release = some b') :
    b' = { b with offset := s.start, inUse := if release then b.inUse - 1 else b.inUse } := by
  unfold Block.uncarve at undone
  split at undone
  · cases undone
  · cases undone
    rfl

/-- Runs that keep the state of records without fault injection as it was. -/
def Storage.Still (s t : Storage) : Prop := s.chaos = none → t = s

theorem Storage.still_chains : Chains Storage.Still where
  refl := fun _ _ => rfl
  trans := fun first second calm => by
    have middle := first calm
    subst middle
    exact second calm

/-- A run whose every step returns, keeping what the steps keep. -/
theorem foldlM_invariant {ε σ α β : Type} {f : β → α → EStateM ε σ β} (I : σ → Prop) :
    ∀ (xs : List α), (∀ b x s, x ∈ xs → I s → ∃ b' t, f b x s = .ok b' t ∧ I t) →
      ∀ (init : β) (s : σ), I s → ∃ b t, xs.foldlM f init s = .ok b t ∧ I t
  | [], _, init, s, holds => ⟨init, s, rfl, holds⟩
  | x :: rest, step, init, s, holds => by
    obtain ⟨b, t, first, next⟩ := step init x s List.mem_cons_self holds
    rw [List.foldlM_cons, run_bind_ok first]
    exact foldlM_invariant I rest (fun b y u member => step b y u (List.mem_cons_of_mem x member)) b t next

namespace Pool

variable {owed : List Span}

/-- Dropping the references of spans pays what was owed on them. -/
theorem releaseRange_backs : ∀ (spans : List Span) {st : Storage}, st.Steady → st.data.Backs (owed ++ spans) →
    ∃ st', releaseRange spans st = .ok () st' ∧ st'.Steady ∧ st'.data.Backs owed
  | [], st, steady, backs => ⟨st, rfl, steady, by simpa using backs⟩
  | s :: rest, st, steady, backs => by
    unfold releaseRange
    rw [run_forM_cons, bind_assoc, run_bind_ok (Storage.loadBlock_steady steady.calm _)]
    cases found : st.data.blocks.get? s.block with
    | none =>
      exact releaseRange_backs rest steady (backs.mono fun X => by simp only [onBlock_append, onBlock_cons]; omega)
    | some b =>
      have ident : b.id = s.block := steady.indexed.ids _ _ found
      have stored : st.data.blocks.get? b.release.id = some b := by simpa [Block.release, ident] using found
      rw [run_bind_ok (Storage.updateBlock_stored steady stored rfl)]
      apply releaseRange_backs rest (steady.written stored rfl)
      apply backs.written stored
      · -- the reference owed on the span's block is the one dropped
        have covers := backs.covers b.id
        have count : st.data.refs s.block = b.inUse := by simp [Store.refs, found]
        simp only [onBlock_append, onBlock_cons, ident, if_true, count] at covers
        simp only [Block.release, ident, onBlock_append]
        omega
      · intro X _
        simp only [onBlock_append, onBlock_cons]
        omega

/-- Giving spans back, with their references when asked, pays what was owed on them. -/
theorem undo_backs (release : Bool) (spans : List Span) :
    ∀ {st : Storage}, st.Steady → st.data.Backs (owed ++ if release then spans else []) →
      ∃ st', undo spans release st = .ok () st' ∧ st'.Steady ∧ st'.data.Backs owed := by
  induction spans using List.reverseRecOn with
  | nil => exact fun steady backs => ⟨_, rfl, steady, backs.mono fun X => by cases release <;> simp⟩
  | append_singleton spans s ih =>
    intro st steady backs
    -- the span given back first is the last one, and it owes one reference on its block
    have last : ∀ X, onBlock (owed ++ if release then spans ++ [s] else []) X =
        onBlock (owed ++ if release then spans else []) X + if release ∧ s.block = X then 1 else 0 := by
      intro X
      cases release <;> by_cases here : s.block = X <;> simp [here, Nat.add_assoc]
    simp only [undo, List.reverse_append, List.reverse_cons, List.reverse_nil, List.nil_append,
      List.singleton_append]
    rw [run_forM_cons, bind_assoc, run_bind_ok (Storage.loadBlock_steady steady.calm _)]
    cases found : st.data.blocks.get? s.block with
    | none => exact ih steady (backs.mono fun X => by rw [last X]; omega)
    | some b =>
      have ident : b.id = s.block := steady.indexed.ids _ _ found
      -- whether the span ends the cursor or not, the block loses the span's reference when asked
      have write : ∀ b' : Block, b'.id = b.id → b'.link = b.link →
          b'.inUse = (if release then b.inUse - 1 else b.inUse) →
          ∃ st', (Storage.updateBlock b' >>= fun _ => undo spans release) st = .ok () st' ∧ st'.Steady ∧
            st'.data.Backs owed := by
        intro b' id link count
        have stored : st.data.blocks.get? b'.id = some b := by rw [id, ident]; exact found
        rw [run_bind_ok (Storage.updateBlock_stored steady stored link.symm)]
        apply ih (steady.written stored link.symm)
        apply backs.written stored
        · have covers := backs.covers s.block
          have refs : st.data.refs s.block = b.inUse := by simp [Store.refs, found]
          rw [last, refs] at covers
          rw [id, ident, count]
          cases release <;> simp at covers ⊢ <;> omega
        · intro X _
          rw [last X]
          omega
      cases undone : b.uncarve s release with
      | some b' =>
        obtain rfl := Block.uncarve_some undone
        simp only [undone]
        exact write _ rfl rfl rfl
      | none =>
        simp only [undone]
        cases release
        · exact write b rfl rfl rfl
        · exact write b.release rfl rfl rfl

/-- Cutting from a snapshot of stored blocks, each once, takes a reference for each span cut,
owed until it is released. -/
theorem carveAll_backs : ∀ (blocks : List Block) (remaining : Nat) (carved : List Span) {owed : List Span}
    {st : Storage}, st.Steady → st.data.Backs owed → (∀ b ∈ blocks, st.data.blocks.get? b.id = some b) →
    (blocks.map (·.id)).Nodup →
    ∃ C st', carveAll blocks remaining carved st = .ok (carved ++ C) st' ∧ st'.Steady ∧
      st'.data.Backs (owed ++ C)
  | [], _, carved, _, st, steady, backs, _, _ => ⟨[], st, by simp [carveAll, run_pure], steady, by simpa using backs⟩
  | b :: rest, remaining, carved, owed, st, steady, backs, stored, distinct => by
    have here := stored b List.mem_cons_self
    rw [List.map_cons, List.nodup_cons] at distinct
    by_cases done : remaining = 0
    · exact ⟨[], st, by simp [carveAll, done, run_pure], steady, by simpa using backs⟩
    cases cut : b.carve remaining with
    | none =>
      obtain ⟨C, st', run, steady', backs'⟩ := carveAll_backs rest remaining carved steady backs
        (fun c member => stored c (List.mem_cons_of_mem b member)) distinct.2
      exact ⟨C, st', by simpa [carveAll, done, cut] using run, steady', backs'⟩
    | some result =>
      obtain ⟨b', s⟩ := result
      obtain ⟨block, -, -, -, -, -, rfl⟩ := Block.carve_eq_some cut
      let b' : Block := { b with offset := s.stop, inUse := b.inUse + 1 }
      have update := Storage.updateBlock_stored steady (b := b') here rfl
      -- the cut block gains the reference its span owes
      have backs1 : (st.written b').data.Backs (owed ++ [s]) := by
        apply backs.written (b := b') here
        · have covers := backs.covers b.id
          have refs : st.data.refs b.id = b.inUse := by simp [Store.refs, here]
          rw [refs] at covers
          simp only [b', onBlock_append, onBlock_cons, onBlock_nil, block, if_true]
          omega
        · intro X other
          have away : b.id ≠ X := other
          simp only [onBlock_append, onBlock_cons, onBlock_nil, block, if_neg away]
          omega
      have stored1 : ∀ c ∈ rest, (st.written b').data.blocks.get? c.id = some c := by
        intro c member
        have other : b.id ≠ c.id := fun same => distinct.1 (same ▸ List.mem_map_of_mem member)
        simpa [Storage.get?_written, b', other] using stored c (List.mem_cons_of_mem b member)
      obtain ⟨C, st', run, steady', backs'⟩ := carveAll_backs rest (remaining - s.len) (carved ++ [s])
        (steady.written (b := b') here rfl) backs1 stored1 distinct.2
      refine ⟨[s] ++ C, st', ?_, steady', by simpa using backs'⟩
      simp only [carveAll, done, if_false, cut]
      rw [run_bind_ok (run_tryCatch_ok update)]
      simpa using run

/-- A reservation either refuses, changing nothing, or takes a reference for each span it
cuts, owed until released. -/
theorem reserve_backs (p : Pool) (ℓ : LinkId) (n now : Nat) {st : Storage} (steady : st.Steady)
    (backs : st.data.Backs owed) :
    (∃ e, p.reserve ℓ n now st = .error e st) ∨
    ∃ C st', p.reserve ℓ n now st = .ok C st' ∧ st'.Steady ∧ st'.data.Backs (owed ++ C) := by
  unfold reserve
  by_cases zero : n = 0
  · exact .inl ⟨_, by simp only [zero, if_true]; rfl⟩
  let blocks := (st.data.blocksForLink ℓ).filter (·.eligible now p.ttlSecs)
  have listed : p.eligible ℓ now st = .ok blocks st := by
    unfold eligible
    rw [run_bind_ok (Storage.blocksForLink_steady steady.calm ℓ)]
    rfl
  simp only [zero, if_false]
  rw [run_bind_ok listed]
  by_cases short : total blocks < n
  · exact .inl ⟨_, by simp only [short, if_true]; rfl⟩
  have stored : ∀ b ∈ blocks, st.data.blocks.get? b.id = some b :=
    fun b member => (Store.mem_blocksForLink steady.indexed (List.mem_filter.mp member).1).1
  have distinct : (blocks.map (·.id)).Nodup :=
    (Store.blocksForLink_nodup steady.indexed ℓ).sublist (List.filter_sublist.map _)
  obtain ⟨C, st', run, steady', backs'⟩ := carveAll_backs blocks n [] steady backs stored distinct
  refine .inr ⟨C, st', ?_, steady', backs'⟩
  simp only [short, if_false]
  simpa using run

/-! ### Reading -/

theorem keeps_still_loadAll : ∀ (spans : List Span) (cache : Table BlockId Block),
    Keeps Storage.Still (loadAll spans cache)
  | [], _ => Keeps.pure Storage.still_chains _
  | s :: rest, cache => by
    unfold loadAll
    split
    · exact keeps_still_loadAll rest cache
    · refine Keeps.bind Storage.still_chains (fun st calm => ?_) fun found => ?_
      · rw [Storage.loadBlock_steady calm]
        rfl
      cases found with
      | none => exact Keeps.throw Storage.still_chains _
      | some b => exact keeps_still_loadAll rest _

/-- Reading the bytes of spans changes nothing. -/
theorem keeps_still_read (spans : List Span) : Keeps Storage.Still (read spans) :=
  Keeps.bind Storage.still_chains (keeps_still_loadAll spans {}) fun cache =>
    Keeps.bind Storage.still_chains (Keeps.mapM Storage.still_chains spans fun s _ => by
      split
      · exact Keeps.throw Storage.still_chains _
      · exact Keeps.ofExcept Storage.still_chains _) fun _ => Keeps.pure Storage.still_chains _

/-- Loading the blocks a companion's consumption names succeeds only if each block a span to
be kept lies on is resident. -/
theorem touched_retained {st : Storage} (steady : st.Steady) (ℓ : LinkId) (retained : List Span) :
    ∀ (spans : List Span) (t : Table BlockId Block) {t' : Table BlockId Block} {st' : Storage},
    (∀ X, (t.get? X).isSome → (st.data.blocks.get? X).isSome) →
    touched ℓ retained spans t st = .ok t' st' →
    ∀ s ∈ spans, retained.contains s = true → (st.data.blocks.get? s.block).isSome
  | [], _, _, _, _, _ => fun _ absent => absurd absent List.not_mem_nil
  | s :: rest, t, t', st', known, loaded => by
    unfold touched at loaded
    cases valid : s.validate with
    | error e =>
      rw [valid, run_bind_error (run_ofExcept_error e st)] at loaded
      cases loaded
    | ok u =>
      rw [valid, run_bind_ok (run_ofExcept_ok u st)] at loaded
      by_cases cached : t.contains s.block
      · rw [if_pos cached] at loaded
        intro x member kept
        rcases List.mem_cons.mp member with rfl | later
        · exact known _ (by rw [← Table.contains_eq_isSome]; exact cached)
        · exact touched_retained steady ℓ retained rest t known loaded x later kept
      rw [if_neg cached, run_bind_ok (Storage.loadBlock_steady steady.calm _)] at loaded
      cases found : st.data.blocks.get? s.block with
      | some b =>
        rw [found] at loaded
        dsimp only at loaded
        by_cases foreign : b.link ≠ ℓ
        · rw [if_pos foreign] at loaded
          cases loaded
        rw [if_neg foreign] at loaded
        have ident : b.id = s.block := steady.indexed.ids _ _ found
        have known' : ∀ X, ((t.insert b.id b).get? X).isSome → (st.data.blocks.get? X).isSome := by
          intro X hit
          rw [Table.get?_insert] at hit
          split at hit
          · rename_i same
            rw [← same, ident, found]
            rfl
          · exact known X hit
        intro x member kept
        rcases List.mem_cons.mp member with rfl | later
        · rw [found]
          rfl
        · exact touched_retained steady ℓ retained rest _ known' loaded x later kept
      | none =>
        rw [found] at loaded
        dsimp only at loaded
        by_cases kept : retained.contains s
        · rw [if_pos kept] at loaded
          cases loaded
        rw [if_neg kept] at loaded
        intro x member kept'
        rcases List.mem_cons.mp member with rfl | later
        · exact absurd kept' kept
        · exact touched_retained steady ℓ retained rest t known loaded x later kept'

theorem ackBlock_inUse (spans retained : List Span) (X : BlockId) (b : Block) :
    (ackBlock spans retained X b).inUse = b.inUse + onBlock (spans.filter (retained.contains ·)) X := by
  induction spans generalizing b with
  | nil => rfl
  | cons s rest ih =>
    by_cases here : s.block = X
    · simp only [ackBlock, List.foldl_cons, here, if_true] at ih ⊢
      rw [ih]
      cases kept : retained.contains s
      · simp only [List.filter_cons, kept, Bool.false_eq_true, if_false, Block.acknowledge]
      · simp only [List.filter_cons, kept, if_true, onBlock_cons, here, Block.acknowledge]
        omega
    · simp only [ackBlock, List.foldl_cons, here, if_false] at ih ⊢
      rw [ih]
      cases kept : retained.contains s <;>
        simp only [List.filter_cons, kept, if_true, Bool.false_eq_true, if_false, onBlock_cons, here, Nat.add_zero]

/-- Writing back blocks of distinct ids, each stored on its own link: each written block's
count is the one written, the other counts and the rows stay. -/
theorem updateAll_refs {st : Storage} (steady : st.Steady) (L : List Block) (distinct : (L.map (·.id)).Nodup)
    (stored : ∀ b ∈ L, ∃ c, st.data.blocks.get? b.id = some c ∧ c.link = b.link) :
    ∃ st', L.forM Storage.updateBlock st = .ok () st' ∧ st'.Steady ∧ st'.data.rows = st.data.rows ∧
      (st.data.blocks.KeysNodup → st'.data.blocks.KeysNodup) ∧
      (∀ b ∈ L, st'.data.refs b.id = b.inUse) ∧ ∀ X, (∀ b ∈ L, b.id ≠ X) → st'.data.refs X = st.data.refs X := by
  induction L generalizing st with
  | nil => exact ⟨st, rfl, steady, rfl, id, by simp, fun _ _ => rfl⟩
  | cons b rest ih =>
    rw [List.map_cons, List.nodup_cons] at distinct
    obtain ⟨c, found, link⟩ := stored b List.mem_cons_self
    have other : ∀ b' ∈ rest, b.id ≠ b'.id := fun b' member same =>
      distinct.1 (same ▸ List.mem_map_of_mem member)
    have stored' : ∀ b' ∈ rest, ∃ c, (st.written b).data.blocks.get? b'.id = some c ∧ c.link = b'.link := by
      intro b' member
      simpa [Storage.get?_written, other b' member] using stored b' (List.mem_cons_of_mem b member)
    obtain ⟨st', run, steady', rows, keyed, written, stay⟩ := ih (steady.written found link) distinct.2 stored'
    refine ⟨st', ?_, steady', rows, fun nodup => keyed (Table.keysNodup_modify nodup _ _), ?_, ?_⟩
    · rw [run_forM_cons, run_bind_ok (Storage.updateBlock_stored steady found link)]
      exact run
    · intro b' member
      rcases List.mem_cons.mp member with rfl | later
      · rw [stay _ fun b'' inside => Ne.symm (other b'' inside), Storage.refs_written found]
        simp
      · exact written b' later
    · intro X absent
      rw [stay X fun b' inside => absent b' (List.mem_cons_of_mem b inside), Storage.refs_written found,
        if_neg (absent b List.mem_cons_self)]

/-- What acknowledging writes back: the blocks loaded, each acknowledged, with distinct ids,
and each stored on its own link. -/
theorem acknowledged_written {st : Storage} (steady : st.Steady) {ℓ : LinkId} (consumed retained : List Span)
    {t : Table BlockId Block} (distinct : t.KeysNodup)
    (agree : ∀ X b, t.get? X = some b → st.data.blocks.get? X = some b ∧ b.link = ℓ) :
    let L := sortedBy (·.id.val)
      (consumed.foldl (fun t s => t.modify s.block (·.acknowledge s (retained.contains s))) t).values
    (L.map (·.id)).Nodup ∧ (∀ b ∈ L, ∃ c, st.data.blocks.get? b.id = some c ∧ c.link = b.link) ∧
      ∀ b, b ∈ L ↔ ∃ c, t.get? b.id = some c ∧ b = ackBlock consumed retained b.id c := by
  intro L
  let t2 := consumed.foldl (fun t s => t.modify s.block (·.acknowledge s (retained.contains s))) t
  have distinct2 : t2.KeysNodup := keysNodup_ackAll consumed retained t distinct
  have entry : ∀ X b, (X, b) ∈ t2.entries → ∃ c, t.get? X = some c ∧ b = ackBlock consumed retained X c := by
    intro X b member
    have hit := Table.get?_of_mem distinct2 member
    rw [get?_ackAll] at hit
    obtain ⟨c, found, rfl⟩ := Option.map_eq_some_iff.mp hit
    exact ⟨c, found, rfl⟩
  have ident : ∀ e ∈ t2.entries, e.2.id = e.1 := by
    intro e member
    obtain ⟨c, found, same⟩ := entry e.1 e.2 member
    rw [same, ackBlock_id]
    exact steady.indexed.ids _ _ (agree _ _ found).1
  have perm : L.Perm t2.values := List.mergeSort_perm _ _
  have idsNodup : (t2.values.map (·.id)).Nodup := by
    have same : t2.values.map (·.id) = t2.entries.map (·.1) := by
      simp only [Table.values, List.map_map]
      exact List.map_congr_left fun e member => ident e member
    rw [same]
    exact distinct2
  have inL : ∀ b, b ∈ L ↔ t2.get? b.id = some b := by
    intro b
    rw [perm.mem_iff, Table.mem_values]
    constructor
    · rintro ⟨X, member⟩
      have named := ident _ member
      simp only at named
      rw [named]
      exact Table.get?_of_mem distinct2 member
    · intro hit
      exact ⟨b.id, Table.mem_of_get? hit⟩
  refine ⟨(perm.map _).nodup_iff.mpr idsNodup, fun b member => ?_, fun b => ?_⟩
  · obtain ⟨c, found, same⟩ := entry b.id b (Table.mem_of_get? ((inL b).mp member))
    refine ⟨c, (agree _ _ found).1, ?_⟩
    rw [same]
    exact (by simpa using congrArg Block.link (ackBlock_bare consumed retained b.id c) :
      (ackBlock consumed retained b.id c).link = c.link).symm
  · rw [inL, get?_ackAll]
    constructor
    · intro hit
      obtain ⟨c, found, same⟩ := Option.map_eq_some_iff.mp hit
      exact ⟨c, found, same.symm⟩
    · rintro ⟨c, found, same⟩
      rw [found, Option.map_some, ← same]

/-- Following a companion's consumption takes a reference on each block for each consumed span
on it that a row will replay, owed until the rows are stored. -/
theorem acknowledge_backs (ℓ : LinkId) (consumed retained : List Span) {st st' : Storage} (steady : st.Steady)
    (backs : st.data.Backs owed) (acked : acknowledge ℓ consumed retained st = .ok () st') :
    st'.Steady ∧ st'.data.Backs (owed ++ consumed.filter (retained.contains ·)) := by
  unfold acknowledge at acked
  rcases touched_spec steady ℓ retained consumed {} Table.keysNodup_empty (by simp) with
    ⟨e, run⟩ | ⟨t, run, distinct, agree, keys⟩
  · rw [run_bind_error run] at acked
    cases acked
  rw [run_bind_ok run] at acked
  have resident := touched_retained steady ℓ retained consumed {} (by simp) run
  obtain ⟨idsNodup, stored, inL⟩ := acknowledged_written steady consumed retained distinct agree
  obtain ⟨st₁, written, steady₁, rows, keyed, counts, stay⟩ := updateAll_refs steady _ idsNodup stored
  rw [written] at acked
  cases acked
  refine ⟨steady₁, ⟨keyed backs.blocksKeyed, rows ▸ backs.rowsKeyed, fun X => ?_⟩⟩
  have covers := backs.covers X
  have held : st'.data.held X = st.data.held X := by simp only [Store.held, rows]
  rw [held, onBlock_append]
  cases hit : t.get? X with
  | some c =>
    -- a block loaded: written back with a reference for each span kept on it
    have count : st.data.refs X = c.inUse := by simp [Store.refs, (agree _ _ hit).1]
    have ident : (ackBlock consumed retained X c).id = X := by
      rw [ackBlock_id]
      exact steady.indexed.ids _ _ (agree _ _ hit).1
    have member := (inL (ackBlock consumed retained X c)).mpr ⟨c, by rw [ident]; exact hit, by rw [ident]⟩
    have refs := counts _ member
    rw [ident, ackBlock_inUse] at refs
    rw [refs]
    omega
  | none =>
    -- a block not loaded: no span on it is kept, and nothing is written to it
    have none : onBlock (consumed.filter (retained.contains ·)) X = 0 := by
      refine List.countP_eq_zero.mpr fun s member same => ?_
      obtain ⟨inside, kept⟩ := List.mem_filter.mp member
      have loaded := (keys X).mpr (.inr ⟨s, inside, of_decide_eq_true same, by
        rw [← of_decide_eq_true same]
        exact resident s inside kept⟩)
      rw [hit] at loaded
      cases loaded
    have absent : ∀ b ∈ sortedBy (·.id.val)
        (consumed.foldl (fun t s => t.modify s.block (·.acknowledge s (retained.contains s))) t).values,
        b.id ≠ X := by
      intro b member same
      obtain ⟨c, found, -⟩ := (inL b).mp member
      rw [same, hit] at found
      cases found
    rw [stay X absent, none]
    omega

/-! ### Sweeping and taking in blocks -/

/-- A sweep deletes only blocks that nothing refers to. -/
theorem sweep_backs (p : Pool) (now : Nat) {st : Storage} (steady : st.Steady) (backs : st.data.Backs owed) :
    ∃ n st', p.sweep now st = .ok n st' ∧ st'.Steady ∧ st'.data.Backs owed := by
  unfold sweep
  have list : Storage.listBlocks st = .ok st.data.listBlocks st := Storage.read_steady steady.calm _ _
  rw [run_bind_ok list]
  -- each listed block is the one stored under its id
  have listed : ∀ b ∈ st.data.listBlocks, st.data.refs b.id = b.inUse := by
    intro b member
    obtain ⟨X, entry⟩ := Table.mem_values.mp ((List.mergeSort_perm _ _).mem_iff.mp member)
    have found := Table.get?_of_mem backs.blocksKeyed entry
    rw [← steady.indexed.ids X b found] at found
    simp [Store.refs, found]
  -- deleting keeps the invariant and never raises a count
  refine (foldlM_invariant
    (fun cur : Storage => cur.Steady ∧ cur.data.Backs owed ∧ ∀ X, cur.data.refs X ≤ st.data.refs X)
    st.data.listBlocks ?step 0 st ⟨steady, backs, fun X => le_refl _⟩).imp
      fun n => Exists.imp fun st' holds => ⟨holds.1, holds.2.1, holds.2.2.1⟩
  intro n b cur member holds
  obtain ⟨steady₁, backs₁, lower⟩ := holds
  by_cases idle : b.evictable now p.ttlSecs
  · have zero : cur.data.refs b.id = 0 := by
      have below := lower b.id
      rw [listed b member] at below
      simp only [Block.evictable, Bool.and_eq_true, beq_iff_eq] at idle
      omega
    refine ⟨n + 1, { cur with data := cur.data.deleteBlock b.id }, ?_, ?_⟩
    · rw [if_pos idle, run_bind_ok (Storage.deleteBlock_steady steady₁.calm _)]
      rfl
    · refine ⟨⟨steady₁.calm, steady₁.indexed.deleteBlock b.id⟩, backs₁.deleteBlock zero, fun X => ?_⟩
      show (cur.data.deleteBlock b.id).refs X ≤ _
      rw [Store.refs_deleteBlock]
      split
      · exact Nat.zero_le _
      · exact lower X
  · exact ⟨n, cur, by rw [if_neg idle]; rfl, steady₁, backs₁, lower⟩

end Pool

end KeyRelay
