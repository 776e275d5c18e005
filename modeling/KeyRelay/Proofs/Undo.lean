import KeyRelay.Proofs.Generation
import KeyRelay.Proofs.Acknowledgement

/-! Giving carved spans back. `Pool.undo` walks the spans newest first; on each block it moves the
cursor back over a span that ends at the cursor and leaves it otherwise, and when asked it drops
one reference per span either way. On records without fault injection this is exactly
`Block.givenBack`, block by block (`Pool.undo_blocks`).

The spans that successive reservations hand out tile each block they touch from its cursor
before the first of them (`Tiles`), edge to edge. Walking back over a tiling returns the cursor
to where it started; spans that all end below the cursor leave it where it is, which is the case
once a later carve has moved the block on. Main statement: `Pool.undo_restores_carves`. -/

namespace KeyRelay

/-- The cursor `e` of block `X` walked back over spans, newest first: a span of `X` that ends at
the cursor moves it to the span's start, and any other span leaves it. -/
def backOver (C : List Span) (X : BlockId) (e : Nat) : Nat :=
  C.foldr (fun s o => if s.block = X ∧ s.stop = o then s.start else o) e

@[simp] theorem backOver_nil (X : BlockId) (e : Nat) : backOver [] X e = e := rfl

theorem backOver_snoc (C : List Span) (s : Span) (X : BlockId) (e : Nat) :
    backOver (C ++ [s]) X e = backOver C X (if s.block = X ∧ s.stop = e then s.start else e) := by
  unfold backOver
  rw [List.foldr_append]
  rfl

/-- Spans that all end below the cursor leave it where it is. -/
theorem backOver_of_below {C : List Span} {X : BlockId} {e : Nat}
    (below : ∀ s ∈ C, s.block = X → s.stop < e) : backOver C X e = e := by
  induction C with
  | nil => rfl
  | cons s rest ih =>
    have kept : backOver rest X e = e := ih fun t member => below t (List.mem_cons_of_mem s member)
    have passed : ¬(s.block = X ∧ s.stop = e) := fun ⟨here, ends⟩ =>
      Nat.lt_irrefl e (ends ▸ below s List.mem_cons_self here)
    simp only [backOver, List.foldr_cons] at kept ⊢
    rw [kept, if_neg passed]

/-- A block once spans are given back: its cursor walked back over them, and with `release` one
reference fewer for each span on it. -/
def Block.givenBack (b : Block) (C : List Span) (release : Bool) : Block :=
  { b with offset := backOver C b.id b.offset, inUse := b.inUse - if release then onBlock C b.id else 0 }

namespace Block

variable (b : Block) (s : Span) (C : List Span) (release : Bool)

@[simp] theorem givenBack_nil : b.givenBack [] release = b := by
  cases release <;> simp [givenBack]

/-- A span of another block changes nothing here. -/
theorem givenBack_snoc_other (away : s.block ≠ b.id) : b.givenBack (C ++ [s]) release = b.givenBack C release := by
  simp [givenBack, backOver_snoc, away]

/-- A stored block, if there is one, that is not the span's block is left as it is. -/
theorem givenBack_snoc_away {v : Option Block} (away : ∀ b, v = some b → s.block ≠ b.id) :
    v.map (·.givenBack (C ++ [s]) release) = v.map (·.givenBack C release) := by
  cases v with
  | none => rfl
  | some b => simp [givenBack_snoc_other b s C release (away b rfl)]

/-- The newest span goes first: the cursor steps back over it if it ends there, and it drops its
reference when asked; then the older spans follow. -/
theorem givenBack_snoc (here : s.block = b.id) :
    b.givenBack (C ++ [s]) release =
      ({ b with offset := if s.stop = b.offset then s.start else b.offset,
                inUse := if release then b.inUse - 1 else b.inUse } : Block).givenBack C release := by
  cases release <;> simp [givenBack, backOver_snoc, here, Nat.sub_sub, Nat.add_comm]

end Block

/-- The spans of `C` on block `X`, in order, lie edge to edge from `o` to `e`; spans of other
blocks may come between them. -/
inductive Tiles (X : BlockId) (o : Nat) : List Span → Nat → Prop
  | nil : Tiles X o [] o
  | skip {C : List Span} {e : Nat} (s : Span) : Tiles X o C e → s.block ≠ X → Tiles X o (C ++ [s]) e
  | cut {C : List Span} (s : Span) : Tiles X o C s.start → s.block = X → s.start < s.stop →
      Tiles X o (C ++ [s]) s.stop

namespace Tiles

variable {X : BlockId} {o e f : Nat} {C D : List Span}

theorem append (first : Tiles X o C e) (second : Tiles X e D f) : Tiles X o (C ++ D) f := by
  induction second with
  | nil => simpa using first
  | skip s _ away ih =>
    rw [← List.append_assoc]
    exact skip s ih away
  | cut s _ here nonempty ih =>
    rw [← List.append_assoc]
    exact cut s ih here nonempty

theorem le (tiles : Tiles X o C e) : o ≤ e := by
  induction tiles with
  | nil => exact Nat.le_refl o
  | skip _ _ _ ih => exact ih
  | cut _ _ _ nonempty ih => omega

/-- Every span of the block ends at or before the end of the tiling. -/
theorem stop_le (tiles : Tiles X o C e) {s : Span} (member : s ∈ C) (here : s.block = X) : s.stop ≤ e := by
  induction tiles with
  | nil => cases member
  | skip t _ away ih =>
    rcases List.mem_append.mp member with earlier | last
    · exact ih earlier
    · rw [List.mem_singleton.mp last] at here
      exact absurd here away
  | cut t prior _ nonempty ih =>
    rcases List.mem_append.mp member with earlier | last
    · have := ih earlier
      omega
    · rw [List.mem_singleton.mp last]

/-- A tiling with no span on the block is empty. -/
theorem eq_of_untouched (tiles : Tiles X o C e) (untouched : ∀ s ∈ C, s.block ≠ X) : e = o := by
  induction tiles with
  | nil => rfl
  | skip t _ _ ih => exact ih fun s member => untouched s (List.mem_append_left _ member)
  | cut t _ here _ _ => exact absurd here (untouched t (by simp))

/-- A tiling with a span on the block ends past its start. -/
theorem lt_of_touched (tiles : Tiles X o C e) (touched : ∃ s ∈ C, s.block = X) : o < e := by
  induction tiles with
  | nil =>
    obtain ⟨s, member, -⟩ := touched
    cases member
  | skip t _ away ih =>
    obtain ⟨s, member, here⟩ := touched
    rcases List.mem_append.mp member with earlier | last
    · exact ih ⟨s, earlier, here⟩
    · rw [List.mem_singleton.mp last] at here
      exact absurd here away
  | cut t prior _ nonempty _ =>
    have := prior.le
    omega

/-- Walking back over a tiling returns the cursor to where the tiling started. -/
theorem backOver_eq (tiles : Tiles X o C e) : backOver C X e = o := by
  induction tiles with
  | nil => rfl
  | skip t _ away ih => rw [backOver_snoc, if_neg fun both => away both.1, ih]
  | cut t _ here _ ih => rw [backOver_snoc, if_pos ⟨here, rfl⟩, ih]

end Tiles

/-- The spans cut one after the other tile each block from the cursor it had. -/
theorem Carves.tiles {ℓ : LinkId} {v w : BlockId → Option Block} {C : List Span} (carves : Carves ℓ v C w)
    {X : BlockId} {b : Block} (was : v X = some b) : Tiles X b.offset C (reach C X b.offset) := by
  induction carves with
  | nil => exact .nil
  | @snoc spans w bs s prior found _ start nonempty _ ih =>
    rw [reach_snoc]
    by_cases here : s.block = X
    · -- the new span starts at the block's cursor, where the spans before it ended
      subst here
      rw [prior.get_eq, was] at found
      have begins : s.start = reach spans s.block b.offset := by
        rw [start, ← (Option.some.inj found)]
      rw [if_pos rfl, Nat.max_eq_right (by omega)]
      exact .cut s (begins ▸ ih) rfl nonempty
    · rw [if_neg here]
      exact .skip s ih here

namespace Pool

/-- Giving spans back on records without fault injection always succeeds, changes nothing but
the blocks, and leaves each block as `Block.givenBack` says. -/
theorem undo_blocks (release : Bool) (C : List Span) :
    ∀ {st : Storage}, st.Steady → ∃ st', undo C release st = .ok () st' ∧ st'.Steady ∧
      Store.OnlyBlocks st.data st'.data ∧
      ∀ X, st'.data.blocks.get? X = (st.data.blocks.get? X).map (·.givenBack C release) := by
  induction C using List.reverseRecOn with
  | nil => exact fun steady => ⟨_, rfl, steady, .refl _, fun X => by simp⟩
  | append_singleton C s ih =>
    intro st steady
    simp only [undo, List.reverse_append, List.reverse_cons, List.reverse_nil, List.nil_append,
      List.singleton_append]
    rw [run_forM_cons, bind_assoc, run_bind_ok (Storage.loadBlock_steady steady.calm _)]
    cases found : st.data.blocks.get? s.block with
    | none =>
      -- a block that is gone is passed over, so the span changes no block
      obtain ⟨st', run, steady', only, blocks⟩ := ih steady
      refine ⟨st', run, steady', only, fun X => ?_⟩
      rw [blocks X]
      refine (Block.givenBack_snoc_away s C release fun c stored => ?_).symm
      rw [steady.indexed.ids _ _ stored]
      rintro rfl
      rw [found] at stored
      cases stored
    | some b =>
      have ident : b.id = s.block := steady.indexed.ids _ _ found
      -- the block written back has the cursor and count that the span's turn gives it
      have write : ∀ b' : Block, b'.id = b.id → b'.link = b.link →
          b'.offset = (if s.stop = b.offset then s.start else b.offset) →
          b'.inUse = (if release then b.inUse - 1 else b.inUse) →
          ∃ st', (Storage.updateBlock b' >>= fun _ => undo C release) st = .ok () st' ∧ st'.Steady ∧
            Store.OnlyBlocks st.data st'.data ∧
            ∀ X, st'.data.blocks.get? X = (st.data.blocks.get? X).map (·.givenBack (C ++ [s]) release) := by
        intro b' id link cursor count
        have stored : st.data.blocks.get? b'.id = some b := by rw [id, ident]; exact found
        rw [run_bind_ok (Storage.updateBlock_stored steady stored link.symm)]
        obtain ⟨st', run, steady', only, blocks⟩ := ih (steady.written stored link.symm)
        refine ⟨st', run, steady', (Storage.onlyBlocks_written _ _).trans only, fun X => ?_⟩
        rw [blocks X, Storage.get?_written]
        by_cases same : b'.id = X
        · rw [if_pos same, ← same, stored, Option.map_some, Option.map_some, Option.map_some,
            Block.givenBack_snoc b s C release ident.symm, cursor, count]
        · rw [if_neg same]
          refine (Block.givenBack_snoc_away s C release fun c other => ?_).symm
          rw [steady.indexed.ids _ _ other, ← ident, ← id]
          exact same
      cases undone : b.uncarve s release with
      | some b' =>
        obtain rfl := Block.uncarve_some undone
        have ends : s.stop = b.offset := by
          by_contra apart
          simp [Block.uncarve, apart] at undone
        simp only [undone]
        exact write _ rfl rfl (by simp [ends]) rfl
      | none =>
        have apart : s.stop ≠ b.offset := by
          intro ends
          simp [Block.uncarve, ident, ends] at undone
        simp only [undone]
        cases release
        · exact write b rfl rfl (by simp [apart]) rfl
        · exact write b.release rfl rfl (by simp [apart, Block.release]) rfl

/-- A reservation that returns moves each block's cursor over the spans it cut from it, which
tile the block from its old cursor, and takes one reference per span. -/
theorem reserve_blocks {p : Pool} {ℓ : LinkId} {n now : Nat} {st st' : Storage} {D : List Span}
    (steady : st.Steady) (run : p.reserve ℓ n now st = .ok D st') :
    st'.Steady ∧ Store.OnlyBlocks st.data st'.data ∧
      ∀ X b, st.data.blocks.get? X = some b → Tiles X b.offset D (reach D X b.offset) ∧
        st'.data.blocks.get? X = some { b with offset := reach D X b.offset, inUse := b.inUse + onBlock D X } := by
  rcases reserve_spec p ℓ n now steady with ⟨e, refused⟩ | ⟨D', st'', ran, steady', carves, -⟩
  · rw [refused] at run
    cases run
  rw [ran] at run
  cases run
  obtain ⟨only, refs⟩ := reserve_counts p ℓ n now steady ran
  refine ⟨steady', only, fun X b stored => ⟨carves.tiles (b := b.bare) (by simp [Store.bare, stored]), ?_⟩⟩
  have view := carves.get_eq X
  simp only [Store.bare, stored, Option.map_some] at view
  obtain ⟨b', found, bare⟩ := Option.map_eq_some_iff.mp view
  have count := refs X
  simp only [Store.refs, found, stored, Option.map_some, Option.getD_some] at count
  rw [found]
  congr 1
  exact Block.eq_of_bare (by simpa [Block.bare] using bare) count

end Pool

/-- Reservations made one after the other from `st`, of any links, sizes and instants: together
they hand out the spans `C`, in order, and leave `st'`. -/
inductive Reserves (st : Storage) : List Span → Storage → Prop
  | nil : Reserves st [] st
  | snoc {st' st'' : Storage} {C D : List Span} (p : Pool) (ℓ : LinkId) (n now : Nat) :
      Reserves st C st' → p.reserve ℓ n now st' = .ok D st'' → Reserves st (C ++ D) st''

/-- After successive reservations each block holds its bytes with the cursor at the end of a
tiling of what was cut from it, and one more reference per span. -/
theorem Reserves.blocks {st st' : Storage} {C : List Span} (reserves : Reserves st C st') (steady : st.Steady) :
    st'.Steady ∧ Store.OnlyBlocks st.data st'.data ∧
      ∀ X b, st.data.blocks.get? X = some b →
        ∃ e, Tiles X b.offset C e ∧ st'.data.blocks.get? X = some { b with offset := e, inUse := b.inUse + onBlock C X } := by
  induction reserves with
  | nil => exact ⟨steady, .refl _, fun X b stored => ⟨b.offset, .nil, by simp [stored]⟩⟩
  | snoc p ℓ n now _ run ih =>
    obtain ⟨steady₁, only₁, blocks₁⟩ := ih
    obtain ⟨steady₂, only₂, blocks₂⟩ := Pool.reserve_blocks steady₁ run
    refine ⟨steady₂, only₁.trans only₂, fun X b stored => ?_⟩
    obtain ⟨e, tiles, found⟩ := blocks₁ X b stored
    obtain ⟨more, found'⟩ := blocks₂ X _ found
    refine ⟨_, tiles.append more, ?_⟩
    rw [found']
    simp [Nat.add_assoc]

namespace Pool

/-- Undo restores carves. Let `C` be what successive reservations from steady records handed
out, and `D` what later reservations handed out. Giving `C` back succeeds and changes nothing but
the blocks. A block that no later carve touched gets back the cursor it had before the first
span of `C`; a block that a later carve touched keeps its cursor. Either way, with `release` the
block drops exactly one reference for each span of `C` on it, and otherwise keeps its count. -/
theorem undo_restores_carves {st₀ st₁ st₂ : Storage} {C D : List Span} (steady : st₀.Steady)
    (carved : Reserves st₀ C st₁) (later : Reserves st₁ D st₂) (release : Bool) :
    ∃ st₃, undo C release st₂ = .ok () st₃ ∧ Store.OnlyBlocks st₂.data st₃.data ∧
      ∀ X b₀ b₂, st₀.data.blocks.get? X = some b₀ → st₂.data.blocks.get? X = some b₂ →
        onBlock C X ≤ b₂.inUse ∧
        ((∀ s ∈ D, s.block ≠ X) → st₃.data.blocks.get? X =
          some { b₂ with offset := b₀.offset, inUse := b₂.inUse - if release then onBlock C X else 0 }) ∧
        ((∃ s ∈ D, s.block = X) → st₃.data.blocks.get? X =
          some { b₂ with inUse := b₂.inUse - if release then onBlock C X else 0 }) := by
  obtain ⟨steady₁, -, first⟩ := carved.blocks steady
  obtain ⟨steady₂, -, second⟩ := later.blocks steady₁
  obtain ⟨st₃, run, -, only, given⟩ := undo_blocks release C steady₂
  refine ⟨st₃, run, only, fun X b₀ b₂ was now => ?_⟩
  obtain ⟨e₁, tiles₁, at₁⟩ := first X b₀ was
  obtain ⟨e₂, tiles₂, at₂⟩ := second X _ at₁
  rw [now] at at₂
  cases at₂
  have ident : b₀.id = X := steady.indexed.ids _ _ was
  have back : st₃.data.blocks.get? X =
      some { b₀ with offset := backOver C X e₂,
                     inUse := b₀.inUse + onBlock C X + onBlock D X - if release then onBlock C X else 0 } := by
    rw [given X, now]
    simp [Block.givenBack, ident]
  refine ⟨by dsimp only; omega, fun untouched => ?_, fun touched => ?_⟩
  · -- untouched since: the cursor is where `C` left it, at the end of its tiling
    have same : e₂ = e₁ := tiles₂.eq_of_untouched untouched
    rw [back, same, tiles₁.backOver_eq]
  · -- moved on since: every span of `C` on the block ends below the cursor
    have below : ∀ s ∈ C, s.block = X → s.stop < e₂ := fun s member here =>
      Nat.lt_of_le_of_lt (tiles₁.stop_le member here) (tiles₂.lt_of_touched touched)
    rw [back, backOver_of_below below]

/-- The value a run returned, if it returned. -/
def returned {ε σ α : Type} : EStateM.Result ε σ α → Option α
  | .ok a _ => some a
  | .error _ _ => none

theorem ok_of_returned {ε σ α : Type} {r : EStateM.Result ε σ α} {a : α} (done : returned r = some a) :
    ∃ s, r = .ok a s := by
  cases r with
  | ok a' s =>
    cases done
    exact ⟨s, rfl⟩
  | error e s => cases done

/-- Block 1 of eight bytes on link 7 and block 2 of eight bytes on link 8. Eight bytes of link 7
and then four of link 8 take all of block 1 and the front of block 2; a later reservation of two
bytes of link 8 moves block 2 on. Giving the twelve bytes back with their references restores
block 1 as it was, and leaves block 2's cursor where the later carve put it, with only the later
carve's reference. -/
theorem undo_restores_carves_on_two_links :
    let st₀ : Storage :=
      { data := ((({} : Store).insertBlock ⟨⟨1⟩, ⟨7⟩, 0, 0, List.replicate 8 0, 0, 0⟩).2.insertBlock
          ⟨⟨2⟩, ⟨8⟩, 0, 1, List.replicate 8 0, 0, 0⟩).2 }
    let C : List Span := [⟨⟨1⟩, 0, 8⟩, ⟨⟨2⟩, 0, 4⟩]
    let D : List Span := [⟨⟨2⟩, 4, 6⟩]
    ∃ st₁ st₂, st₀.Steady ∧ Reserves st₀ C st₁ ∧ Reserves st₁ D st₂ ∧
      ∃ st₃, undo C true st₂ = .ok () st₃ ∧ Store.OnlyBlocks st₂.data st₃.data ∧
        ∀ X b₀ b₂, st₀.data.blocks.get? X = some b₀ → st₂.data.blocks.get? X = some b₂ →
          onBlock C X ≤ b₂.inUse ∧
          ((∀ s ∈ D, s.block ≠ X) → st₃.data.blocks.get? X =
            some { b₂ with offset := b₀.offset, inUse := b₂.inUse - if true then onBlock C X else 0 }) ∧
          ((∃ s ∈ D, s.block = X) → st₃.data.blocks.get? X =
            some { b₂ with inUse := b₂.inUse - if true then onBlock C X else 0 }) := by
  intro st₀ C D
  have steady : st₀.Steady := ⟨rfl, (Store.indexed_default.insertBlock _).insertBlock _⟩
  -- the three reservations, each run on the records the one before left
  have first : returned ((⟨15, 2⟩ : Pool).reserve ⟨7⟩ 8 0 st₀) = some [⟨⟨1⟩, 0, 8⟩] := by
    decide +kernel
  obtain ⟨stA, runA⟩ := ok_of_returned first
  have second : returned ((⟨15, 2⟩ : Pool).reserve ⟨8⟩ 4 0 (endState ((⟨15, 2⟩ : Pool).reserve ⟨7⟩ 8 0 st₀))) =
      some [⟨⟨2⟩, 0, 4⟩] := by
    decide +kernel
  rw [runA, endState_ok] at second
  obtain ⟨st₁, runB⟩ := ok_of_returned second
  have third : returned ((⟨15, 2⟩ : Pool).reserve ⟨8⟩ 2 0
      (endState ((⟨15, 2⟩ : Pool).reserve ⟨8⟩ 4 0 (endState ((⟨15, 2⟩ : Pool).reserve ⟨7⟩ 8 0 st₀))))) =
      some D := by
    decide +kernel
  rw [runA, endState_ok, runB, endState_ok] at third
  obtain ⟨st₂, runC⟩ := ok_of_returned third
  have carved : Reserves st₀ C st₁ := by
    simpa using (Reserves.nil.snoc ⟨15, 2⟩ ⟨7⟩ 8 0 runA).snoc ⟨15, 2⟩ ⟨8⟩ 4 0 runB
  have later : Reserves st₁ D st₂ := by simpa using Reserves.nil.snoc ⟨15, 2⟩ ⟨8⟩ 2 0 runC
  exact ⟨st₁, st₂, steady, carved, later, undo_restores_carves steady carved later true⟩

end Pool

end KeyRelay
