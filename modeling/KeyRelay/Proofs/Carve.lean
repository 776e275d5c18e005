import KeyRelay.Proofs.Records

/-! Cutting spans from blocks, seen on the blocks without their reference counts. A carve takes
the bytes at a block's cursor and moves the cursor past them. `Carves ℓ v spans w` says that
cutting `spans` one after the other from the blocks `v` of link `ℓ` leaves the blocks `w`: each
cursor ends at the furthest end of the spans cut from its block (`reach`). Spans cut so share no
byte with each other, nor with anything before the cursors they started from. Acknowledging spans
cut at the other end of a link moves each cursor the same way, never past the block's end
(`ackReach`). -/

namespace KeyRelay

/-- The cursor of block `X`, from `o`, once the spans are cut: the furthest end of those on `X`. -/
def reach (spans : List Span) (X : BlockId) (o : Nat) : Nat :=
  spans.foldl (fun o s => if s.block = X then max o s.stop else o) o

/-- The cursor of block `X` of length `len`, from `o`, once spans cut at the other end of the
link are acknowledged: as `reach`, with each end held to the block. -/
def ackReach (spans : List Span) (X : BlockId) (len o : Nat) : Nat :=
  spans.foldl (fun o s => if s.block = X then max o (min s.stop len) else o) o

@[simp] theorem reach_nil (X : BlockId) (o : Nat) : reach [] X o = o := rfl

theorem reach_snoc (C : List Span) (s : Span) (X : BlockId) (o : Nat) :
    reach (C ++ [s]) X o = if s.block = X then max (reach C X o) s.stop else reach C X o := by
  simp [reach]

theorem le_reach (C : List Span) (X : BlockId) (o : Nat) : o ≤ reach C X o := by
  induction C generalizing o with
  | nil => exact Nat.le_refl o
  | cons s rest ih =>
    have step : o ≤ (if s.block = X then max o s.stop else o) := by split <;> omega
    exact Nat.le_trans step (ih _)

theorem stop_le_reach {C : List Span} {c : Span} (member : c ∈ C) (o : Nat) :
    c.stop ≤ reach C c.block o := by
  induction C generalizing o with
  | nil => cases member
  | cons s rest ih =>
    rcases List.mem_cons.mp member with rfl | later
    · have step : c.stop ≤ (if c.block = c.block then max o c.stop else o) := by
        rw [if_pos rfl]
        exact Nat.le_max_right _ _
      exact Nat.le_trans step (le_reach rest _ _)
    · exact ih later _

/-- With every end inside the block, acknowledging spans moves the cursor as cutting them does. -/
theorem ackReach_eq_reach (spans : List Span) (X : BlockId) (len o : Nat)
    (inside : ∀ s ∈ spans, s.block = X → s.stop ≤ len) : ackReach spans X len o = reach spans X o := by
  induction spans generalizing o with
  | nil => rfl
  | cons s rest ih =>
    have tail := fun o => ih o (fun t member => inside t (List.mem_cons_of_mem s member))
    by_cases here : s.block = X
    · have held : min s.stop len = s.stop := Nat.min_eq_left (inside s (by simp) here)
      simp only [ackReach, reach, List.foldl_cons, here, if_true, held] at tail ⊢
      exact tail _
    · simp only [ackReach, reach, List.foldl_cons, here, if_false] at tail ⊢
      exact tail _

theorem ackReach_of_absent (spans : List Span) (X : BlockId) (len o : Nat)
    (absent : ∀ s ∈ spans, s.block ≠ X) : ackReach spans X len o = o := by
  induction spans generalizing o with
  | nil => rfl
  | cons s rest ih =>
    have other := absent s (by simp)
    simp only [ackReach, List.foldl_cons, other, if_false] at ih ⊢
    exact ih o (fun t member => absent t (List.mem_cons_of_mem s member))

theorem reach_of_absent (spans : List Span) (X : BlockId) (o : Nat) (absent : ∀ s ∈ spans, s.block ≠ X) :
    reach spans X o = o := by
  induction spans generalizing o with
  | nil => rfl
  | cons s rest ih =>
    have other := absent s (by simp)
    simp only [reach, List.foldl_cons, other, if_false] at ih ⊢
    exact ih o (fun t member => absent t (List.mem_cons_of_mem s member))

theorem le_ackReach (spans : List Span) (X : BlockId) (len o : Nat) : o ≤ ackReach spans X len o := by
  induction spans generalizing o with
  | nil => exact Nat.le_refl o
  | cons s rest ih =>
    have step : o ≤ (if s.block = X then max o (min s.stop len) else o) := by split <;> omega
    exact Nat.le_trans step (ih _)

/-- Acknowledging a span moves its block's cursor to its end or to the block's end. -/
theorem min_stop_le_ackReach {spans : List Span} {c : Span} (member : c ∈ spans) (len o : Nat) :
    min c.stop len ≤ ackReach spans c.block len o := by
  induction spans generalizing o with
  | nil => cases member
  | cons s rest ih =>
    rcases List.mem_cons.mp member with rfl | later
    · have step : min c.stop len ≤ (if c.block = c.block then max o (min c.stop len) else o) := by
        rw [if_pos rfl]
        exact Nat.le_max_right _ _
      exact Nat.le_trans step (le_ackReach rest _ _ _)
    · exact ih later _

/-- Two spans are apart when they share no byte. -/
def Span.Apart (a b : Span) : Prop := a.overlaps b = false

theorem Span.apart_of_stop_le {a b : Span} (before : a.stop ≤ b.start) : a.Apart b := by
  simp [Span.Apart, Span.overlaps]
  omega

/-! ### Carving -/

namespace Block

theorem carve_eq_some {b b' : Block} {max : Nat} {s : Span} (cut : b.carve max = some (b', s)) :
    s.block = b.id ∧ s.start = b.offset ∧ s.start < s.stop ∧ s.stop ≤ b.bytes.length ∧
      s.len ≤ max ∧ s.len = min b.available max ∧
      b' = { b with offset := s.stop, inUse := b.inUse + 1 } := by
  unfold carve at cut
  dsimp only at cut
  split at cut
  · cases cut
  · rename_i taken
    simp only [Option.some.injEq, Prod.mk.injEq] at cut
    obtain ⟨rfl, rfl⟩ := cut
    simp only [available] at taken
    refine ⟨rfl, rfl, ?_, ?_, ?_, ?_, rfl⟩ <;> simp only [Span.len, available] <;> omega

theorem carve_eq_none {b : Block} {max : Nat} (none : b.carve max = none) : min b.available max = 0 := by
  unfold carve at none
  dsimp only at none
  split at none
  · assumption
  · cases none

theorem uncarve_last {b : Block} {s : Span} (block : s.block = b.id) (last : s.stop = b.offset)
    (release : Bool) :
    b.uncarve s release = some { b with offset := s.start, inUse := if release then b.inUse - 1 else b.inUse } := by
  simp [uncarve, block, last]

end Block

/-- Spans cut in order from the blocks of link `ℓ`, each at its block's cursor: from the blocks
`v`, cutting `spans` leaves the blocks `w`. -/
inductive Carves (ℓ : LinkId) (v : BlockId → Option Block) :
    List Span → (BlockId → Option Block) → Prop
  | nil : Carves ℓ v [] v
  | snoc {spans : List Span} {w : BlockId → Option Block} {b : Block} (s : Span) :
      Carves ℓ v spans w → w s.block = some b → b.link = ℓ → s.start = b.offset →
      s.start < s.stop → s.stop ≤ b.bytes.length →
      Carves ℓ v (spans ++ [s]) (Function.update w s.block (some { b with offset := s.stop }))

namespace Carves

variable {ℓ : LinkId} {u v w : BlockId → Option Block} {C D : List Span}

theorem append (first : Carves ℓ u C v) (second : Carves ℓ v D w) : Carves ℓ u (C ++ D) w := by
  induction second with
  | nil => simpa using first
  | snoc s _ found link start nonempty inside ih =>
    rw [← List.append_assoc]
    exact snoc s ih found link start nonempty inside

/-- What carving leaves: the same blocks, each cursor at `reach`. -/
theorem eq_reach (carves : Carves ℓ v C w) :
    w = fun X => (v X).map fun b => { b with offset := reach C X b.offset } := by
  induction carves with
  | nil =>
    funext X
    cases v X <;> rfl
  | snoc s _ found _ start nonempty _ ih =>
    subst ih
    funext X
    rw [Function.update_apply]
    split
    · rename_i here
      subst here
      obtain ⟨b0, was, rfl⟩ := Option.map_eq_some_iff.mp found
      simp only at start
      simp [was, reach_snoc]
      omega
    · rename_i other
      cases v X <;> simp [reach_snoc, Ne.symm other]

/-- A block is there after carving exactly when it was, with its link and bytes. -/
theorem get_eq (carves : Carves ℓ v C w) (X : BlockId) :
    w X = (v X).map fun b => { b with offset := reach C X b.offset } := by
  rw [carves.eq_reach]

/-- Each span is cut from a block of the link, at or past the cursor it had before, and inside
it. -/
theorem span_bounds (carves : Carves ℓ v C w) {c : Span} (member : c ∈ C) :
    ∃ b, v c.block = some b ∧ b.link = ℓ ∧ b.offset ≤ c.start ∧ c.start < c.stop ∧
      c.stop ≤ b.bytes.length := by
  induction carves with
  | nil => cases member
  | @snoc spans _ _ s prior found link start nonempty inside ih =>
    rcases List.mem_append.mp member with earlier | last
    · exact ih earlier
    · rw [List.mem_singleton.mp last]
      rw [prior.get_eq] at found
      obtain ⟨b0, was, rfl⟩ := Option.map_eq_some_iff.mp found
      have moved := le_reach spans s.block b0.offset
      exact ⟨b0, was, link, by simp only at start; omega, nonempty, inside⟩

/-- Every span ends at or before the cursor of its block once all are cut. -/
theorem stop_le (carves : Carves ℓ v C w) {c : Span} (member : c ∈ C) :
    ∃ b, w c.block = some b ∧ c.stop ≤ b.offset := by
  obtain ⟨b, was, -⟩ := carves.span_bounds member
  exact ⟨_, by rw [carves.get_eq, was]; rfl, stop_le_reach member _⟩

/-- Spans cut one after the other share no byte. -/
theorem pairwise_apart (carves : Carves ℓ v C w) : C.Pairwise Span.Apart := by
  induction carves with
  | nil => exact List.Pairwise.nil
  | snoc s prior found _ start _ _ ih =>
    refine List.pairwise_append.mpr ⟨ih, List.pairwise_singleton _ _, ?_⟩
    intro c member t last
    rw [List.mem_singleton.mp last]
    rw [prior.get_eq] at found
    obtain ⟨b0, _, rfl⟩ := Option.map_eq_some_iff.mp found
    by_cases same : c.block = s.block
    · apply Span.apart_of_stop_le
      have reached := stop_le_reach member b0.offset
      simp only at start
      rw [same] at reached
      omega
    · simp [Span.Apart, Span.overlaps, same]

end Carves

end KeyRelay
