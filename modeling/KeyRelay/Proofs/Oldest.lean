import KeyRelay.Proofs.Pool

/-!
Oldest-first allocation. A link's eligible blocks are those with bytes left that have not
expired; the index gives them oldest first, by timestamp and then by arrival, once every block is
in the index of its link (`Store.Listed`). A reservation of `n > 0` bytes succeeds exactly when
the eligible blocks hold `n` bytes together. It then cuts a prefix of them: each block to its end
but the last, whose cut completes the `n` bytes; each cut block's cursor moves past its cut and
it takes one reference, and no other block changes. A reservation that finds too few bytes says
how many there are and changes nothing.

Every block is in the index when blocks are only added with an arrival number no stored block
has, as the pool adds them.
-/
namespace KeyRelay

namespace Block

/-- The span of `take` bytes at the cursor. -/
def spanAt (b : Block) (take : Nat) : Span := ⟨b.id, b.offset, b.offset + take⟩

/-- The block once `take` bytes at its cursor are cut for one more key. -/
def cutBy (b : Block) (take : Nat) : Block := { b with offset := b.offset + take, inUse := b.inUse + 1 }

@[simp] theorem spanAt_len (b : Block) (take : Nat) : (b.spanAt take).len = take := by
  simp [spanAt, Span.len]

end Block

namespace Store

/-- Every block is in the index, under its link, timestamp and arrival number. -/
def Listed (d : Store) : Prop :=
  ∀ X b, d.blocks.get? X = some b → ((b.link, b.timestamp, b.arrival), X) ∈ d.chain.entries

/-- A block added under an index key no stored block has keeps every block in the index. -/
theorem Listed.insertBlock {d : Store} (listed : d.Listed) (ix : d.Indexed) {b : Block}
    (fresh : ∀ X c, d.blocks.get? X = some c → (c.link, c.timestamp, c.arrival) ≠ (b.link, b.timestamp, b.arrival)) :
    (d.insertBlock b).2.Listed := by
  unfold Store.insertBlock
  split
  · exact listed
  · intro X c found
    simp only [Table.get?_insert] at found
    split at found
    · rename_i same
      cases found
      subst same
      exact Table.mem_of_get? (by simp)
    · rename_i other
      -- the old entry of `c` survives the insert: its key is not the new one
      have entry := listed X c found
      apply Table.mem_of_get?
      rw [Table.get?_insert, if_neg (Ne.symm (fresh X c found))]
      exact Table.get?_of_mem ix.chainKeys entry

theorem Listed.updateBlock {d d' : Store} {b : Block} (listed : d.Listed) (ok : d.updateBlock b = .ok d') :
    d'.Listed := by
  obtain ⟨_, _, _, rfl⟩ := updateBlock_ok ok
  intro X c found
  simp only [Table.get?_modify] at found
  split at found
  · obtain ⟨old, hit, rfl⟩ := Option.map_eq_some_iff.mp found
    exact listed X old hit
  · exact listed X c found

theorem Listed.deleteBlock {d : Store} (listed : d.Listed) (ix : d.Indexed) (Y : BlockId) :
    (d.deleteBlock Y).Listed := by
  unfold Store.deleteBlock
  split
  · exact listed
  · rename_i gone found
    intro X c hit
    simp only [Table.get?_erase] at hit
    split at hit
    · cases hit
    · rename_i other
      have entry := listed X c hit
      refine List.mem_filter.mpr ⟨entry, ?_⟩
      -- the erased key is the deleted block's, which no other block is filed under
      simp only [ne_eq, decide_eq_true_eq]
      intro same
      have owner := Table.get?_of_mem ix.chainKeys entry
      rw [same] at owner
      have mine := Table.get?_of_mem ix.chainKeys (listed Y gone found)
      rw [owner] at mine
      exact other (Option.some.inj mine).symm

end Store

namespace Pool

/-- `plan` cuts `n` bytes from a prefix of `E`: some bytes at the cursor of each block, all of
its bytes left for every block but the last. -/
structure Cuts (E : List Block) (n : Nat) (plan : List (Block × Nat)) : Prop where
  front : (plan.map Prod.fst).IsPrefix E
  sum : (plan.map Prod.snd).sum = n
  within : ∀ c ∈ plan, 0 < c.2 ∧ c.2 ≤ c.1.available
  exhausted : ∀ c ∈ plan.dropLast, c.2 = c.1.available

/-- `st'` is `st` with the blocks of the plan cut and nothing else changed. -/
structure CutFrom (st : Storage) (plan : List (Block × Nat)) (st' : Storage) : Prop where
  cut : ∀ c ∈ plan, st'.data.blocks.get? c.1.id = some (c.1.cutBy c.2)
  others : ∀ X, (∀ c ∈ plan, c.1.id ≠ X) → st'.data.blocks.get? X = st.data.blocks.get? X
  rest : st' = { st with data := { st.data with blocks := st'.data.blocks } }

/-- A plan whose bytes add up to nothing cuts no block. -/
theorem Cuts.eq_nil {E : List Block} {plan : List (Block × Nat)} (cuts : Cuts E 0 plan) : plan = [] := by
  cases plan with
  | nil => rfl
  | cons c rest =>
    have positive := (cuts.within c List.mem_cons_self).1
    have sum := cuts.sum
    simp only [List.map_cons, List.sum_cons] at sum
    omega

/-- Cutting `take` bytes from the first block in front of a plan for the rest: all of its bytes
when more are still to come. -/
theorem Cuts.cons {b : Block} {E : List Block} {n take : Nat} {plan : List (Block × Nat)}
    (cuts : Cuts E (n - take) plan) (positive : 0 < take) (fits : take ≤ b.available)
    (whole : 0 < n - take → take = b.available) (within : take ≤ n) :
    Cuts (b :: E) n ((b, take) :: plan) where
  front := by simpa using cuts.front
  sum := by
    simp only [List.map_cons, List.sum_cons, cuts.sum]
    omega
  within := by
    intro c member
    rcases List.mem_cons.mp member with rfl | later
    · exact ⟨positive, fits⟩
    · exact cuts.within c later
  exhausted := by
    intro c member
    cases plan with
    | nil => simp at member
    | cons first more =>
      rw [List.dropLast_cons_of_ne_nil (List.cons_ne_nil first more)] at member
      rcases List.mem_cons.mp member with rfl | later
      · -- a block cut before another gives all its bytes
        have more : 0 < n - take := by
          have positive' := (cuts.within first List.mem_cons_self).1
          have sum := cuts.sum
          simp only [List.map_cons, List.sum_cons] at sum
          omega
        exact whole more
      · exact cuts.exhausted c later

/-- Cutting the first block, then the rest as a plan for them says. -/
theorem CutFrom.cons {st st' : Storage} {b : Block} {take : Nat} {plan : List (Block × Nat)}
    (here : st.data.blocks.get? b.id = some b) (cutFrom : CutFrom (st.written (b.cutBy take)) plan st')
    (later : ∀ c ∈ plan, c.1.id ≠ b.id) : CutFrom st ((b, take) :: plan) st' := by
  have first : (st.written (b.cutBy take)).data.blocks.get? b.id = some (b.cutBy take) := by
    simp [Storage.get?_written, Block.cutBy, here]
  refine ⟨fun c member => ?_, fun X apart => ?_, ?_⟩
  · rcases List.mem_cons.mp member with rfl | member
    · rw [cutFrom.others _ fun c inside same => later c inside same]
      exact first
    · exact cutFrom.cut c member
  · rw [cutFrom.others X fun c inside => apart c (List.mem_cons_of_mem _ inside)]
    have other : b.id ≠ X := apart (b, take) List.mem_cons_self
    simp [Storage.get?_written, Block.cutBy, other]
  · rw [cutFrom.rest]
    rfl

/-- Cutting stored blocks keeps every block in the index: a cut block keeps its link, timestamp
and arrival number, and the index is not touched. -/
theorem CutFrom.listed {st st' : Storage} {plan : List (Block × Nat)} (cutFrom : CutFrom st plan st')
    (listed : st.data.Listed) (stored : ∀ c ∈ plan, st.data.blocks.get? c.1.id = some c.1) :
    st'.data.Listed := by
  intro X b found
  have chain : st'.data.chain = st.data.chain := by rw [cutFrom.rest]
  rw [chain]
  by_cases touched : ∃ c ∈ plan, c.1.id = X
  · obtain ⟨c, member, rfl⟩ := touched
    rw [cutFrom.cut c member] at found
    cases found
    exact listed c.1.id c.1 (stored c member)
  · push Not at touched
    rw [cutFrom.others X touched] at found
    exact listed X b found

end Pool

end KeyRelay
