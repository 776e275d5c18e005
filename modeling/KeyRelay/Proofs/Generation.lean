import KeyRelay.Proofs.Scheduled
import KeyRelay.Proofs.Prefetch

/-! Key generation on records whose fault injection fails one scheduled operation, or none. A
generation cuts its keys one after the other, drops the reference of each span it cut, and
stores the keys it keeps in the clear; each step that fails gives back what was cut. Up to the
scheduled failure the records answer as without fault injection, and after it the giving back
runs as without fault injection too, so a generation either returns its keys or restores the
blocks, the rows and the clear keys exactly: cursors and reference counts included. The one way
out is a link that runs short while the failure is still to come: the giving back may then meet
the failure itself and stop part way. -/

namespace KeyRelay

/-! ### Exact counts of references -/

/-- Writing back a block changes nothing but the blocks. -/
theorem Storage.onlyBlocks_written (st : Storage) (b : Block) : Store.OnlyBlocks st.data (st.written b).data := rfl

namespace Pool

/-- Cutting from a snapshot of stored blocks, each once, takes one reference for each span cut
and changes nothing but the blocks. -/
theorem carveAll_counts : ∀ (blocks : List Block) (remaining : Nat) (carved : List Span) (st : Storage),
    st.Steady → (∀ b ∈ blocks, st.data.blocks.get? b.id = some b) → (blocks.map (·.id)).Nodup →
    ∃ C st', carveAll blocks remaining carved st = .ok (carved ++ C) st' ∧ Store.OnlyBlocks st.data st'.data ∧
      ∀ X, st'.data.refs X = st.data.refs X + onBlock C X
  | [], _, carved, st, _, _, _ => ⟨[], st, by simp [carveAll, run_pure], .refl _, fun X => by simp⟩
  | b :: rest, remaining, carved, st, steady, stored, distinct => by
    have here := stored b List.mem_cons_self
    rw [List.map_cons, List.nodup_cons] at distinct
    by_cases done : remaining = 0
    · exact ⟨[], st, by simp [carveAll, done, run_pure], .refl _, fun X => by simp⟩
    cases cut : b.carve remaining with
    | none =>
      obtain ⟨C, st', run, only, refs⟩ := carveAll_counts rest remaining carved st steady
        (fun c member => stored c (List.mem_cons_of_mem b member)) distinct.2
      exact ⟨C, st', by simpa [carveAll, done, cut] using run, only, refs⟩
    | some result =>
      obtain ⟨b', s⟩ := result
      obtain ⟨block, -, -, -, -, -, rfl⟩ := Block.carve_eq_some cut
      let b' : Block := { b with offset := s.stop, inUse := b.inUse + 1 }
      have update := Storage.updateBlock_stored steady (b := b') here rfl
      have stored1 : ∀ c ∈ rest, (st.written b').data.blocks.get? c.id = some c := by
        intro c member
        have other : b.id ≠ c.id := fun same => distinct.1 (same ▸ List.mem_map_of_mem member)
        simpa [Storage.get?_written, b', other] using stored c (List.mem_cons_of_mem b member)
      obtain ⟨C, st', run, only, refs⟩ := carveAll_counts rest (remaining - s.len) (carved ++ [s])
        (st.written b') (steady.written (b := b') here rfl) stored1 distinct.2
      refine ⟨[s] ++ C, st', ?_, (Storage.onlyBlocks_written _ _).trans only, fun X => ?_⟩
      · simp only [carveAll, done, if_false, cut]
        rw [run_bind_ok (run_tryCatch_ok update)]
        simpa using run
      · -- the cut block gains the span's reference
        rw [refs X, Storage.refs_written (b := b') here X]
        by_cases same : b.id = X
        · subst same
          simp [b', block, Store.refs, here]
          omega
        · simp [b', block, same]

/-- A reservation that returns takes one reference for each span it cuts and changes nothing
but the blocks. -/
theorem reserve_counts (p : Pool) (ℓ : LinkId) (n now : Nat) {st : Storage} (steady : st.Steady)
    {C : List Span} {st' : Storage} (run : p.reserve ℓ n now st = .ok C st') :
    Store.OnlyBlocks st.data st'.data ∧ ∀ X, st'.data.refs X = st.data.refs X + onBlock C X := by
  unfold reserve at run
  by_cases zero : n = 0
  · simp only [zero, if_true] at run
    cases run
  let blocks := (st.data.blocksForLink ℓ).filter (·.eligible now p.ttlSecs)
  have listed : p.eligible ℓ now st = .ok blocks st := by
    unfold eligible
    rw [run_bind_ok (Storage.blocksForLink_steady steady.calm ℓ)]
    rfl
  simp only [zero, if_false] at run
  rw [run_bind_ok listed] at run
  by_cases short : total blocks < n
  · simp only [short, if_true] at run
    cases run
  simp only [short, if_false] at run
  have stored : ∀ b ∈ blocks, st.data.blocks.get? b.id = some b :=
    fun b member => (Store.mem_blocksForLink steady.indexed (List.mem_filter.mp member).1).1
  have distinct : (blocks.map (·.id)).Nodup :=
    (Store.blocksForLink_nodup steady.indexed ℓ).sublist (List.filter_sublist.map _)
  obtain ⟨C', st'', cut, only, refs⟩ := carveAll_counts blocks n [] st steady stored distinct
  rw [cut] at run
  cases run
  exact ⟨only, fun X => by simpa using refs X⟩

/-- Giving spans back drops one reference for each span when asked, and changes nothing but the
blocks. -/
theorem undo_counts (release : Bool) (spans : List Span) :
    ∀ {st : Storage}, st.Steady → ∃ st', undo spans release st = .ok () st' ∧ st'.Steady ∧
      Store.OnlyBlocks st.data st'.data ∧
      ∀ X, st'.data.refs X = st.data.refs X - if release then onBlock spans X else 0 := by
  induction spans using List.reverseRecOn with
  | nil => exact fun steady => ⟨_, rfl, steady, .refl _, fun X => by cases release <;> simp⟩
  | append_singleton spans s ih =>
    intro st steady
    -- the span given back first is the last one
    have last : ∀ X, (if release then onBlock (spans ++ [s]) X else 0) =
        (if release then onBlock spans X else 0) + if release ∧ s.block = X then 1 else 0 := by
      intro X
      cases release <;> by_cases here : s.block = X <;> simp [here]
    simp only [undo, List.reverse_append, List.reverse_cons, List.reverse_nil, List.nil_append,
      List.singleton_append]
    rw [run_forM_cons, bind_assoc, run_bind_ok (Storage.loadBlock_steady steady.calm _)]
    cases found : st.data.blocks.get? s.block with
    | none =>
      obtain ⟨st', run, steady', only, refs⟩ := ih steady
      refine ⟨st', run, steady', only, fun X => ?_⟩
      rw [refs X, last X]
      by_cases here : s.block = X
      · -- a block that is gone holds no reference
        subst here
        have gone : st.data.refs s.block = 0 := by simp [Store.refs, found]
        simp [gone]
      · simp [here]
    | some b =>
      have ident : b.id = s.block := steady.indexed.ids _ _ found
      -- whether the span ends the cursor or not, the block loses the span's reference when asked
      have write : ∀ b' : Block, b'.id = b.id → b'.link = b.link →
          b'.inUse = (if release then b.inUse - 1 else b.inUse) →
          ∃ st', (Storage.updateBlock b' >>= fun _ => undo spans release) st = .ok () st' ∧ st'.Steady ∧
            Store.OnlyBlocks st.data st'.data ∧
            ∀ X, st'.data.refs X = st.data.refs X - if release then onBlock (spans ++ [s]) X else 0 := by
        intro b' id link count
        have stored : st.data.blocks.get? b'.id = some b := by rw [id, ident]; exact found
        rw [run_bind_ok (Storage.updateBlock_stored steady stored link.symm)]
        obtain ⟨st', run, steady', only, refs⟩ := ih (steady.written stored link.symm)
        refine ⟨st', run, steady', (Storage.onlyBlocks_written _ _).trans only, fun X => ?_⟩
        rw [refs X, Storage.refs_written stored X, last X]
        by_cases here : s.block = X
        · subst here
          have held : st.data.refs s.block = b.inUse := by simp [Store.refs, found]
          rw [if_pos (id.trans ident), count, held]
          cases release
          · simp
          · simp
            omega
        · have away : b'.id ≠ X := fun same => here (ident ▸ id ▸ same)
          rw [if_neg away]
          simp [here]
      cases undone : b.uncarve s release with
      | some b' =>
        obtain rfl := Block.uncarve_some undone
        simp only [undone]
        exact write _ rfl rfl rfl
      | none =>
        simp only [undone]
        cases release
        · exact write b rfl rfl rfl
        · exact write b.release rfl rfl rfl

/-- Dropping the references of spans drops one for each span and changes nothing but the
blocks. -/
theorem releaseRange_counts : ∀ (spans : List Span) {st : Storage}, st.Steady →
    ∃ st', releaseRange spans st = .ok () st' ∧ st'.Steady ∧ Store.OnlyBlocks st.data st'.data ∧
      ∀ X, st'.data.refs X = st.data.refs X - onBlock spans X
  | [], st, steady => ⟨st, rfl, steady, .refl _, fun X => by simp⟩
  | s :: rest, st, steady => by
    unfold releaseRange
    rw [run_forM_cons, bind_assoc, run_bind_ok (Storage.loadBlock_steady steady.calm _)]
    cases found : st.data.blocks.get? s.block with
    | none =>
      obtain ⟨st', run, steady', only, refs⟩ := releaseRange_counts rest steady
      refine ⟨st', run, steady', only, fun X => ?_⟩
      rw [refs X, onBlock_cons]
      by_cases here : s.block = X
      · subst here
        have gone : st.data.refs s.block = 0 := by simp [Store.refs, found]
        simp [gone]
      · simp [here]
    | some b =>
      have ident : b.id = s.block := steady.indexed.ids _ _ found
      have stored : st.data.blocks.get? b.release.id = some b := by simpa [Block.release, ident] using found
      rw [run_bind_ok (Storage.updateBlock_stored steady stored rfl)]
      obtain ⟨st', run, steady', only, refs⟩ := releaseRange_counts rest (steady.written stored rfl)
      refine ⟨st', run, steady', (Storage.onlyBlocks_written _ _).trans only, fun X => ?_⟩
      rw [refs X, Storage.refs_written stored X, onBlock_cons]
      by_cases here : s.block = X
      · subst here
        have held : st.data.refs s.block = b.inUse := by simp [Store.refs, found]
        simp only [Block.release, ident, if_true, held]
        omega
      · have away : b.release.id ≠ X := by simpa [Block.release, ident] using here
        rw [if_neg away]
        simp [here]

end Pool

/-- Spans cut one after the other split at any point into those cut first, from the blocks they
started from, and the rest, from the blocks the first left. -/
theorem Carves.split {ℓ : LinkId} {v w : BlockId → Option Block} {C : List Span} (carves : Carves ℓ v C w) :
    ∀ A B, C = A ++ B → ∃ u, Carves ℓ v A u ∧ Carves ℓ u B w := by
  induction carves with
  | nil =>
    intro A B parts
    obtain ⟨rfl, rfl⟩ := List.append_eq_nil_iff.mp parts.symm
    exact ⟨_, .nil, .nil⟩
  | @snoc spans w b s prior found link start nonempty inside ih =>
    intro A B parts
    cases B using List.reverseRecOn with
    | nil =>
      rw [List.append_nil] at parts
      subst parts
      exact ⟨_, .snoc s prior found link start nonempty inside, .nil⟩
    | append_singleton B s' =>
      rw [← List.append_assoc] at parts
      obtain ⟨front, last⟩ := List.append_inj' parts rfl
      obtain rfl := List.singleton_inj.mp last
      obtain ⟨u, first, second⟩ := ih A B front
      exact ⟨u, first, .snoc s second found link start nonempty inside⟩

/-- A run that continues where another ended. -/
theorem run_bind_congr {ε σ α β : Type} {m m' : EStateM ε σ α} {k : α → EStateM ε σ β} {s t : σ}
    (same : m s = m' t) : (m >>= k) s = (m' >>= k) t := by
  show EStateM.bind m k s = EStateM.bind m' k t
  simp only [EStateM.bind, same]

namespace Store.OnlyBlocks

variable {d d' : Store}

theorem rows (only : Store.OnlyBlocks d d') : d'.rows = d.rows := by rw [only]

theorem locals (only : Store.OnlyBlocks d d') : d'.locals = d.locals := by rw [only]

end Store.OnlyBlocks

theorem Pool.rollback_of_undo {C : List Span} {release : Bool} {st st' : Storage}
    (run : Pool.undo C release st = .ok () st') : Pool.rollback C release st = .ok () st' := by
  unfold Pool.rollback
  rw [run_attempt, run]
  rfl

/-! ### A generation midway -/

/-- Records midway through a generation that started from `base`: only the blocks have
changed, the spans `carved` are cut from them one after the other, and of those the spans
`owing` still hold their references. -/
structure Cutting (ℓ : LinkId) (base : Store) (carved owing : List Span) (d : Store) : Prop where
  only : Store.OnlyBlocks base d
  indexed : d.Indexed
  carves : Carves ℓ base.bare carved d.bare
  refs : ∀ X, d.refs X = base.refs X + onBlock owing X

namespace Cutting

open Storage

variable {ℓ : LinkId} {base d d' : Store} {carved owing : List Span}

theorem start (ix : base.Indexed) : Cutting ℓ base [] [] base :=
  ⟨.refl _, ix, .nil, fun X => by simp⟩

/-- Records restored to the ones midway keep the generation where it was. -/
theorem restored (cutting : Cutting ℓ base carved owing d) (restored : Store.Restored d d') :
    Cutting ℓ base carved owing d' :=
  ⟨cutting.only.trans restored.only, restored.indexed cutting.indexed, restored.bare ▸ cutting.carves,
    fun X => (restored.refs X).trans (cutting.refs X)⟩

/-- Spans cut from the records midway join the generation, with their references. -/
theorem extend (cutting : Cutting ℓ base carved owing d) {C : List Span} (only : Store.OnlyBlocks d d')
    (ix : d'.Indexed) (carves : Carves ℓ d.bare C d'.bare) (refs : ∀ X, d'.refs X = d.refs X + onBlock C X) :
    Cutting ℓ base (carved ++ C) (owing ++ C) d' :=
  ⟨cutting.only.trans only, ix, cutting.carves.append carves, fun X => by
    rw [refs X, cutting.refs X, onBlock_append, Nat.add_assoc]⟩

/-- Dropping the reference of the first span that still holds one keeps the generation, the span
now without it. -/
theorem drop {s : Span} (cutting : Cutting ℓ base carved (s :: owing) d) (only : Store.OnlyBlocks d d')
    (ix : d'.Indexed) (bare : d'.bare = d.bare) (refs : ∀ X, d'.refs X = d.refs X - onBlock [s] X) :
    Cutting ℓ base carved owing d' :=
  ⟨cutting.only.trans only, ix, bare ▸ cutting.carves, fun X => by
    rw [refs X, cutting.refs X, onBlock_cons, onBlock_cons, onBlock_nil]
    omega⟩

/-- Writing back a block carved at its cursor adds its span to the generation. -/
theorem carve {st : Storage} (cutting : Cutting ℓ base carved owing st.data) {b b' : Block} {s : Span}
    {max : Nat} (here : st.data.blocks.get? b.id = some b) (link : b.link = ℓ) (cut : b.carve max = some (b', s)) :
    Cutting ℓ base (carved ++ [s]) (owing ++ [s]) (st.written b').data := by
  obtain ⟨block, start, nonempty, inside, -, -, rfl⟩ := Block.carve_eq_some cut
  have steady := (steady_calm cutting.indexed).written (b := { b with offset := s.stop, inUse := b.inUse + 1 }) here rfl
  refine cutting.extend (onlyBlocks_written _ _) steady.indexed ?_ fun X => ?_
  · rw [Storage.bare_written (b := { b with offset := s.stop, inUse := b.inUse + 1 }) here]
    simp only
    rw [← block]
    exact Carves.snoc s .nil (by simp [Store.bare, block, here]) link start nonempty inside
  · rw [Storage.refs_written (b := { b with offset := s.stop, inUse := b.inUse + 1 }) here X]
    by_cases same : b.id = X
    · subst same
      simp [block, Store.refs, here]
    · simp [block, same]

/-- Without fault injection, giving back the spans of a generation newest first, the last ones
with the references they still hold and the first ones without, restores the records the
generation started from. -/
theorem giveBack_calm {A B : List Span} {st : Storage} (cutting : Cutting ℓ base (A ++ B) B st.data) :
    ∃ s1 s2, Pool.rollback B true st.calm = .ok () s1 ∧ Pool.rollback A false s1 = .ok () s2 ∧
      Store.Restored base s2.data := by
  obtain ⟨u, first, second⟩ := cutting.carves.split A B rfl
  have steady := steady_calm cutting.indexed
  obtain ⟨s1, run1, steady1, bare1⟩ := Pool.undo_spec second true st.calm steady rfl
  obtain ⟨s1', run1', -, only1, refs1⟩ := Pool.undo_counts true B steady
  rw [run1] at run1'
  cases run1'
  obtain ⟨s2, run2, -, bare2⟩ := Pool.undo_spec first false s1 steady1 bare1
  obtain ⟨s2', run2', -, only2, refs2⟩ := Pool.undo_counts false A steady1
  rw [run2] at run2'
  cases run2'
  refine ⟨s1, s2, Pool.rollback_of_undo run1, Pool.rollback_of_undo run2,
    Store.restored_of (cutting.only.trans (only1.trans only2)) bare2 fun X => ?_⟩
  rw [refs2 X, refs1 X]
  simp [cutting.refs X]

/-- Once the scheduled failure is spent, giving back the spans of a generation runs as without
fault injection, and restores the records the generation started from. -/
theorem giveBack_spent {A B : List Span} {st : Storage} (cutting : Cutting ℓ base (A ++ B) B st.data)
    (sched : st.Scheduled) (spent : ¬ st.Armed) :
    ∃ t1 t2, Pool.rollback B true st = .ok () t1 ∧ Pool.rollback A false t1 = .ok () t2 ∧
      t2.Scheduled ∧ Store.Restored base t2.data := by
  obtain ⟨s1, s2, run1, run2, restored⟩ := cutting.giveBack_calm
  obtain ⟨mirror1, spent1⟩ := (Pool.faithful_rollback B true).mirrors sched spent
  have sched1 := (Pool.faithful_rollback B true st sched).1
  obtain ⟨t1, back1, calmed1⟩ := ok_of_mirrors mirror1 run1
  rw [back1, endState_ok] at spent1 sched1
  rw [← calmed1] at run2
  obtain ⟨mirror2, -⟩ := (Pool.faithful_rollback A false).mirrors sched1 spent1
  have sched2 := (Pool.faithful_rollback A false t1 sched1).1
  obtain ⟨t2, back2, calmed2⟩ := ok_of_mirrors mirror2 run2
  rw [back2, endState_ok] at sched2
  refine ⟨t1, t2, back1, back2, sched2, ?_⟩
  rw [data_of_calm calmed2]
  exact restored

/-- Giving back every span of a generation, references included, from scheduled records:
either the records the generation started from come back, the failure still to come exactly
when it was, or the giving back meets the scheduled failure and stops. -/
theorem rollback_scheduled {C : List Span} {st : Storage} (cutting : Cutting ℓ base C C st.data)
    (sched : st.Scheduled) :
    ∃ t, Pool.rollback C true st = .ok () t ∧ t.Scheduled ∧
      (Store.Restored base t.data ∧ (t.Armed ↔ st.Armed) ∨ st.Armed ∧ ¬ t.Armed) := by
  have whole : Cutting ℓ base ([] ++ C) C st.data := by simpa using cutting
  obtain ⟨s1, s2, run1, run2, restored⟩ := whole.giveBack_calm
  rw [show Pool.rollback [] false s1 = .ok () s1 from rfl] at run2
  cases run2
  obtain ⟨t, run⟩ : ∃ t, Pool.rollback C true st = .ok () t := ⟨_, run_attempt _ _⟩
  obtain ⟨sched', outcome⟩ := Pool.faithful_rollback C true st sched
  rw [run, endState_ok] at sched'
  refine ⟨t, run, sched', ?_⟩
  rcases outcome with ⟨mirror, arming⟩ | fired
  · obtain ⟨t', run', calmed⟩ := ok_of_mirrors mirror run1
    rw [run] at run' arming
    cases run'
    refine .inl ⟨?_, arming⟩
    rw [data_of_calm calmed]
    exact restored
  · rw [run, endState_ok] at fired
    exact .inr fired

end Cutting

/-! ### The pool's operations on scheduled records -/

namespace Pool

open Storage

theorem eligible_scheduled (p : Pool) (ℓ : LinkId) (now : Nat) {st : Storage} (sched : st.Scheduled) :
    (st.Armed ∧ ∃ e t, p.eligible ℓ now st = .error e t ∧ t.data = st.data ∧ t.Scheduled ∧ ¬ t.Armed) ∨
    ∃ t, p.eligible ℓ now st = .ok ((st.data.blocksForLink ℓ).filter (·.eligible now p.ttlSecs)) t ∧
      t.data = st.data ∧ t.Scheduled ∧ (t.Armed ↔ st.Armed) := by
  unfold eligible
  rcases Storage.read_scheduled "blocks_for_link" (·.blocksForLink ℓ) sched with
    ⟨armed, e, t, fired, rest⟩ | ⟨t, listed, rest⟩
  · have fired' : Storage.blocksForLink ℓ st = .error e t := fired
    exact .inl ⟨armed, e, t, run_bind_error fired', rest⟩
  · have listed' : Storage.blocksForLink ℓ st = .ok (st.data.blocksForLink ℓ) t := listed
    exact .inr ⟨t, by rw [run_bind_ok listed']; rfl, rest⟩

/-- Without fault injection a reservation of some bytes fails only when the link runs short. -/
theorem reserve_shortage (p : Pool) (ℓ : LinkId) {n : Nat} (pos : 0 < n) (now : Nat) {st : Storage}
    (steady : st.Steady) {f : Fault} {t : Storage} (refused : p.reserve ℓ n now st = .error f t) :
    ∃ k a, f = .shortage ℓ k a := by
  unfold reserve at refused
  let blocks := (st.data.blocksForLink ℓ).filter (·.eligible now p.ttlSecs)
  have listed : p.eligible ℓ now st = .ok blocks st := by
    unfold eligible
    rw [run_bind_ok (Storage.blocksForLink_steady steady.calm ℓ)]
    rfl
  simp only [Nat.pos_iff_ne_zero.mp pos, if_false] at refused
  rw [run_bind_ok listed] at refused
  by_cases short : total blocks < n
  · simp only [short, if_true] at refused
    cases refused
    exact ⟨_, _, rfl⟩
  simp only [short, if_false] at refused
  have stored : ∀ b ∈ blocks, st.data.blocks.get? b.id = some b ∧ b.link = ℓ :=
    fun b member => Store.mem_blocksForLink steady.indexed (List.mem_filter.mp member).1
  have distinct : (blocks.map (·.id)).Nodup :=
    (Store.blocksForLink_nodup steady.indexed ℓ).sublist (List.filter_sublist.map _)
  obtain ⟨C, st', cut, -⟩ := carveAll_spec blocks n [] st steady stored distinct
  rw [cut] at refused
  cases refused

/-- Cutting from a snapshot of stored blocks meets the scheduled failure only at a write, which
it answers by giving back what it cut, references included. -/
theorem carveAll_spent {ℓ : LinkId} {base : Store} : ∀ (blocks : List Block) (remaining : Nat)
    (carved : List Span) (st : Storage), st.Scheduled → Cutting ℓ base carved carved st.data →
    (∀ b ∈ blocks, st.data.blocks.get? b.id = some b ∧ b.link = ℓ) → (blocks.map (·.id)).Nodup →
    st.Armed → ¬ (endState (carveAll blocks remaining carved st)).Armed →
    ∃ f t, carveAll blocks remaining carved st = .error f t ∧ Store.Restored base t.data
  | [], _, _, _, _, _, _, _, armed, spent => absurd armed spent
  | b :: rest, remaining, carved, st, sched, cutting, stored, distinct, armed, spent => by
    obtain ⟨here, link⟩ := stored b List.mem_cons_self
    have others : ∀ c ∈ rest, st.data.blocks.get? c.id = some c ∧ c.link = ℓ :=
      fun c member => stored c (List.mem_cons_of_mem b member)
    rw [List.map_cons, List.nodup_cons] at distinct
    unfold carveAll at spent ⊢
    by_cases done : remaining = 0
    · rw [if_pos done] at spent
      exact absurd armed spent
    rw [if_neg done] at spent ⊢
    cases cut : b.carve remaining with
    | none =>
      rw [cut] at spent
      exact carveAll_spent rest remaining carved st sched cutting others distinct.2 armed spent
    | some result =>
      obtain ⟨b', s⟩ := result
      rw [cut] at spent
      have cutting1 := cutting.carve here link cut
      obtain ⟨-, -, -, -, -, -, rfl⟩ := Block.carve_eq_some cut
      dsimp only at spent ⊢
      rcases Storage.updateBlock_scheduled sched (b := { b with offset := s.stop, inUse := b.inUse + 1 }) here rfl
        with ⟨-, e, t, fired, same, sched1, spent1⟩ | ⟨t, written, same, sched1, arming⟩
      · -- the write is the failure: what was cut is given back, references included
        obtain ⟨t2, back, -, outcome⟩ := (cutting.restored (.of_eq same)).rollback_scheduled sched1
        rcases outcome with ⟨restored, -⟩ | ⟨armed1, -⟩
        · refine ⟨e, t2, ?_, restored⟩
          rw [run_bind_congr (run_tryCatch_error fired), bind_assoc, run_bind_ok back]
          rfl
        · exact absurd armed1 spent1
      · rw [run_bind_ok (run_tryCatch_ok written)] at spent ⊢
        have others1 : ∀ c ∈ rest, t.data.blocks.get? c.id = some c ∧ c.link = ℓ := by
          intro c member
          have other : b.id ≠ c.id := fun same => distinct.1 (same ▸ List.mem_map_of_mem member)
          rw [same]
          simpa [Storage.get?_written, other] using others c member
        exact carveAll_spent rest _ _ t sched1 (cutting1.restored (.of_eq same)) others1 distinct.2
          (arming.mpr armed) spent

/-- A reservation that meets the scheduled failure fails, and gives back what it cut. -/
theorem reserve_spent (p : Pool) (ℓ : LinkId) (n now : Nat) {st : Storage} (sched : st.Scheduled)
    (ix : st.data.Indexed) (armed : st.Armed) (spent : ¬ (endState (p.reserve ℓ n now st)).Armed) :
    ∃ f t, p.reserve ℓ n now st = .error f t ∧ Store.Restored st.data t.data := by
  unfold reserve at spent ⊢
  by_cases zero : n = 0
  · rw [if_pos zero] at spent
    exact absurd armed spent
  rw [if_neg zero] at spent ⊢
  dsimp only at spent ⊢
  rcases eligible_scheduled p ℓ now sched with ⟨-, e, t, fired, same, -⟩ | ⟨t, listed, same, sched1, arming⟩
  · exact ⟨e, t, run_bind_error fired, .of_eq same⟩
  rw [run_bind_ok listed] at spent ⊢
  by_cases short : total ((st.data.blocksForLink ℓ).filter (·.eligible now p.ttlSecs)) < n
  · rw [if_pos short] at spent
    exact absurd (arming.mpr armed) spent
  rw [if_neg short] at spent ⊢
  have stored : ∀ b ∈ (st.data.blocksForLink ℓ).filter (·.eligible now p.ttlSecs),
      t.data.blocks.get? b.id = some b ∧ b.link = ℓ :=
    fun b member => same ▸ Store.mem_blocksForLink ix (List.mem_filter.mp member).1
  have distinct : (((st.data.blocksForLink ℓ).filter (·.eligible now p.ttlSecs)).map (·.id)).Nodup :=
    (Store.blocksForLink_nodup ix ℓ).sublist (List.filter_sublist.map _)
  exact carveAll_spent _ n [] t sched1 ((Cutting.start ix).restored (.of_eq same)) stored distinct
    (arming.mpr armed) spent

/-- A reservation on scheduled records midway through a generation either fails, leaving the
records as they were, or cuts the bytes asked for and adds its spans to the generation. A
failure is the scheduled one, spent, or a shortage of the link, the failure still to come
exactly when it was. -/
theorem reserve_scheduled (p : Pool) (ℓ : LinkId) {n : Nat} (pos : 0 < n) (now : Nat) {base : Store}
    {carved : List Span} {st : Storage} (sched : st.Scheduled) (cutting : Cutting ℓ base carved carved st.data) :
    (∃ f t, p.reserve ℓ n now st = .error f t ∧ t.Scheduled ∧ Store.Restored st.data t.data ∧
      ((∃ k a, f = .shortage ℓ k a) ∧ (t.Armed ↔ st.Armed) ∨ st.Armed ∧ ¬ t.Armed)) ∨
    ∃ C t, p.reserve ℓ n now st = .ok C t ∧ t.Scheduled ∧ (t.Armed ↔ st.Armed) ∧
      Cutting ℓ base (carved ++ C) (carved ++ C) t.data ∧ (C.map Span.len).sum = n := by
  have steady := steady_calm cutting.indexed
  obtain ⟨sched', outcome⟩ := faithful_reserve p ℓ n now st sched
  rcases outcome with ⟨mirror, arming⟩ | ⟨armed, spent⟩
  · rcases reserve_spec p ℓ n now steady with ⟨f, refused⟩ | ⟨C, t', reserved, steady', cut, sum⟩
    · obtain ⟨t, run, calmed⟩ := error_of_mirrors mirror refused
      rw [run, endState_error] at sched' arming
      exact .inl ⟨f, t, run, sched', .of_eq (data_of_calm calmed : t.data = st.calm.data),
        .inl ⟨reserve_shortage p ℓ pos now steady refused, arming⟩⟩
    · obtain ⟨t, run, calmed⟩ := ok_of_mirrors mirror reserved
      rw [run, endState_ok] at sched' arming
      obtain ⟨only, refs⟩ := reserve_counts p ℓ n now steady reserved
      refine .inr ⟨C, t, run, sched', arming, ?_, sum⟩
      rw [data_of_calm calmed]
      exact cutting.extend only steady'.indexed cut refs
  · obtain ⟨f, t, run, restored⟩ := reserve_spent p ℓ n now sched cutting.indexed armed spent
    rw [run, endState_error] at sched' spent
    exact .inl ⟨f, t, run, sched', restored, .inr ⟨armed, spent⟩⟩

/-- Reading spans inside stored blocks on scheduled records either meets the failure and fails,
leaving the records as they were, or reads as without fault injection. -/
theorem read_scheduled {st : Storage} (sched : st.Scheduled) (ix : st.data.Indexed) (spans : List Span)
    (inside : ∀ s ∈ spans, ∃ b, st.data.blocks.get? s.block = some b ∧ s.start < s.stop ∧
      s.stop ≤ b.bytes.length) :
    (∃ f t, read spans st = .error f t ∧ t.data = st.data ∧ t.Scheduled ∧ st.Armed ∧ ¬ t.Armed) ∨
    ∃ m t, read spans st = .ok m t ∧ t.data = st.data ∧ t.Scheduled ∧ (t.Armed ↔ st.Armed) ∧
      m.len = (spans.map Span.len).sum := by
  have same : (endState (read spans st)).data = st.data := keeps_same_read spans st
  obtain ⟨sched', outcome⟩ := faithful_read spans st sched
  rcases outcome with ⟨mirror, arming⟩ | ⟨armed, spent⟩
  · obtain ⟨m, calmRun, length⟩ := read_spec (steady_calm ix) spans inside
    obtain ⟨t, run, -⟩ := ok_of_mirrors mirror calmRun
    rw [run, endState_ok] at sched' arming same
    exact .inr ⟨m, t, run, same, sched', arming, length⟩
  · obtain ⟨f, t, run⟩ := raises_read spans st sched armed spent
    rw [run, endState_error] at sched' spent same
    exact .inl ⟨f, t, run, same, sched', armed, spent⟩

end Pool

/-! ### Generating keys on scheduled records -/

namespace Engine

open Storage

theorem rollback_ok {C : List Span} {release : Bool} {st t : Storage} (e : Env)
    (back : Pool.rollback C release st = .ok () t) : rollback C release (e, st) = .ok () (e, t) :=
  records_ok e back

/-- Cutting keys on scheduled records: a failure gives back every span cut so far and restores
the records the generation started from, unless the link ran short and the giving back met the
scheduled failure; otherwise each new key has `size` bytes and the spans cut so far are those
of the keys. -/
theorem cutKeys_scheduled (pool : Pool) (ℓ : LinkId) {size : Nat} (pos : 0 < size) (now : Nat) (base : Store) :
    ∀ (k : Nat) (carved : List Span) (keys : List Issued) (e : Env) (st : Storage), st.Scheduled →
    Cutting ℓ base carved carved st.data → carved = keys.flatMap (·.spans) →
    (∀ key ∈ keys, key.material.len = size) →
    (∃ f e' st', cutKeys pool ℓ size now k carved keys (e, st) = .error f (e', st') ∧ st'.Scheduled ∧
      (Store.Restored base st'.data ∨ (∃ n a, f = .shortage ℓ n a) ∧ st.Armed ∧ ¬ st'.Armed)) ∨
    ∃ keys' e' st', cutKeys pool ℓ size now k carved keys (e, st) =
        .ok (keys'.flatMap (·.spans), keys') (e', st') ∧ st'.Scheduled ∧ (st'.Armed ↔ st.Armed) ∧
      Cutting ℓ base (keys'.flatMap (·.spans)) (keys'.flatMap (·.spans)) st'.data ∧
      keys'.length = keys.length + k ∧ ∀ key ∈ keys', key.material.len = size
  | 0, carved, keys, e, st, sched, cutting, spans, sized =>
    .inr ⟨keys, e, st, by rw [spans]; rfl, sched, Iff.rfl, spans ▸ cutting, rfl, sized⟩
  | k + 1, carved, keys, e, st, sched, cutting, spans, sized => by
    simp only [cutKeys]
    rcases Pool.reserve_scheduled pool ℓ pos now sched cutting with
      ⟨f, t, refused, sched1, restored, cause⟩ | ⟨C, t, reserved, sched1, arming, cutting1, total⟩
    · -- nothing was cut for this key: the earlier keys are given back
      obtain ⟨t2, back, sched2, outcome⟩ := (cutting.restored restored).rollback_scheduled sched1
      have failed : onFailure (records (pool.reserve ℓ size now)) (fun _ => rollback carved true) (e, st) =
          .error f (e, t2) := by
        rw [run_onFailure_error (records_error e refused), run_bind_ok (rollback_ok e back)]
        rfl
      refine .inl ⟨f, e, t2, by rw [run_bind_error failed], sched2, ?_⟩
      rcases outcome with ⟨restored2, -⟩ | ⟨armed1, spent2⟩
      · exact .inl restored2
      · -- the giving back met the failure: the reservation failed on its own, for a shortage
        rcases cause with ⟨shortage, arming⟩ | ⟨-, spent1⟩
        · exact .inr ⟨shortage, arming.mp armed1, spent2⟩
        · exact absurd armed1 spent1
    have inside : ∀ s ∈ C, ∃ b, t.data.blocks.get? s.block = some b ∧ s.start < s.stop ∧
        s.stop ≤ b.bytes.length :=
      fun s member => cutting1.carves.readable (List.mem_append_right _ member)
    rw [run_bind_ok (run_onFailure_ok (records_ok e reserved))]
    rcases Pool.read_scheduled sched1 cutting1.indexed C inside with
      ⟨f, t2, failed, same, sched2, armed1, spent2⟩ | ⟨m, t2, read, same, sched2, arming2, length⟩
    · -- the read met the failure: every span cut so far is given back
      obtain ⟨t3, back, sched3, outcome⟩ := (cutting1.restored (.of_eq same)).rollback_scheduled sched2
      have failed' : onFailure (records (Pool.read C)) (fun _ => rollback (carved ++ C) true) (e, t) =
          .error f (e, t3) := by
        rw [run_onFailure_error (records_error e failed), run_bind_ok (rollback_ok e back)]
        rfl
      refine .inl ⟨f, e, t3, by rw [run_bind_error failed'], sched3, .inl ?_⟩
      rcases outcome with ⟨restored3, -⟩ | ⟨armed2, -⟩
      · exact restored3
      · exact absurd armed2 spent2
    rw [run_bind_ok (run_onFailure_ok (records_ok e read))]
    rw [run_bind_ok (show draw (e, t2) = .ok e.draw.1 (e.draw.2, t2) from rfl)]
    have spans1 : carved ++ C = (keys ++ [(⟨e.draw.1, C, m⟩ : Issued)]).flatMap (·.spans) := by simp [spans]
    have sized1 : ∀ key ∈ keys ++ [(⟨e.draw.1, C, m⟩ : Issued)], key.material.len = size := by
      intro key member
      rcases List.mem_append.mp member with old | new
      · exact sized key old
      · rw [List.mem_singleton.mp new, length, total]
    rcases cutKeys_scheduled pool ℓ pos now base k (carved ++ C) (keys ++ [(⟨e.draw.1, C, m⟩ : Issued)])
      e.draw.2 t2 sched2 (cutting1.restored (.of_eq same)) spans1 sized1 with
      ⟨f, e', st', failed, sched', outcome⟩ | ⟨keys', e', st', run, sched', arming', cutting', count, sized'⟩
    · refine .inl ⟨f, e', st', failed, sched', ?_⟩
      rcases outcome with restored | ⟨shortage, armed2, spent⟩
      · exact .inl restored
      · exact .inr ⟨shortage, arming.mp (arming2.mp armed2), spent⟩
    · refine .inr ⟨keys', e', st', run, sched', arming'.trans (arming2.trans arming), cutting', ?_, sized'⟩
      simp only [count, List.length_append, List.length_singleton]
      omega

/-- Dropping the references of the cut spans one by one on scheduled records: either every
reference goes, the failure still to come exactly when it was, or the failure is met, and giving
back the spans, those not yet released with their references and the others without, restores
the records the generation started from. -/
theorem releaseEach_scheduled {ℓ : LinkId} {base : Store} (carved : List Span) :
    ∀ (released : Nat) (rest : List Span) (e : Env) (st : Storage), st.Scheduled →
    Cutting ℓ base carved rest st.data → rest = carved.drop released →
    (∃ f st', releaseEach carved released rest (e, st) = .error f (e, st') ∧ st'.Scheduled ∧
      Store.Restored base st'.data) ∨
    ∃ st', releaseEach carved released rest (e, st) = .ok () (e, st') ∧ st'.Scheduled ∧
      (st'.Armed ↔ st.Armed) ∧ Cutting ℓ base carved [] st'.data
  | _, [], e, st, sched, cutting, _ => .inr ⟨st, rfl, sched, Iff.rfl, cutting⟩
  | released, s :: rest, e, st, sched, cutting, tail => by
    simp only [releaseEach]
    obtain ⟨sched1, outcome⟩ := Pool.faithful_releaseRange [s] st sched
    rcases outcome with ⟨mirror, arming⟩ | ⟨armed, spent⟩
    · -- as without fault injection: the span's reference goes
      have steady := steady_calm cutting.indexed
      obtain ⟨s1, dropped, steady1, only1, refs1⟩ := Pool.releaseRange_counts [s] steady
      obtain ⟨s1', dropped', -, bare1⟩ := Pool.releaseRange_spec steady [s]
      rw [dropped] at dropped'
      cases dropped'
      obtain ⟨t, run, calmed⟩ := ok_of_mirrors mirror dropped
      rw [run, endState_ok] at sched1 arming
      have cutting1 : Cutting ℓ base carved rest t.data := by
        rw [data_of_calm calmed]
        exact cutting.drop only1 steady1.indexed bare1 refs1
      have tail1 : rest = carved.drop (released + 1) := by
        rw [← List.drop_drop, ← tail]
        rfl
      rw [run_bind_ok (run_onFailure_ok (records_ok e run))]
      rcases releaseEach_scheduled carved (released + 1) rest e t sched1 cutting1 tail1 with
        failed | ⟨st', ran, sched', arming', cutting'⟩
      · exact .inl failed
      · exact .inr ⟨st', ran, sched', arming'.trans arming, cutting'⟩
    · -- the failure is met and changes nothing; everything is given back
      obtain ⟨f, t, failed, restored⟩ := Pool.atomic_releaseOne s st sched armed spent
      rw [failed, endState_error] at sched1 spent
      have whole : Cutting ℓ base (carved.take released ++ carved.drop released) (carved.drop released) t.data := by
        rw [List.take_append_drop, ← tail]
        exact cutting.restored restored
      obtain ⟨t1, t2, back1, back2, sched2, restored2⟩ := whole.giveBack_spent sched1 spent
      have failed' : onFailure (records (Pool.releaseRange [s])) (fun _ => do
          rollback (carved.drop released) true
          rollback (carved.take released) false) (e, st) = .error f (e, t2) := by
        rw [run_onFailure_error (records_error e failed), bind_assoc, run_bind_ok (rollback_ok e back1),
          run_bind_ok (rollback_ok e back2)]
        rfl
      exact .inl ⟨f, t2, by rw [run_bind_error failed'], sched2, restored2⟩

end Engine

/-- A generation whose spans hold no more references leaves the rows, the clear keys and the
reference counts it started from. -/
theorem Cutting.done {ℓ : LinkId} {base d : Store} {carved : List Span} (cutting : Cutting ℓ base carved [] d) :
    d.rows = base.rows ∧ d.locals = base.locals ∧ ∀ X, d.refs X = base.refs X :=
  ⟨cutting.only.rows, cutting.only.locals, fun X => by simpa using cutting.refs X⟩

namespace Engine

open Storage

/-- Key generation on records whose fault injection fails at most one scheduled operation, in
the form later proofs use: on success, the records are those cut for the batch's spans with the
kept keys stored in the clear. -/
theorem generate_scheduled (pool : Pool) (ksid : Ksid) (ℓ : LinkId) (sizeBits count keepLocal : Nat)
    (e : Env) {st : Storage} (sched : st.Scheduled) (ix : st.data.Indexed) (fits : keepLocal ≤ count) :
    (∃ f e' st', generate pool ksid ℓ sizeBits count keepLocal (e, st) = .error f (e', st') ∧
      (Store.Restored st.data st'.data ∨ (∃ n a, f = .shortage ℓ n a) ∧ st.Armed ∧ ¬ st'.Armed)) ∨
    ∃ batch e' st' d, generate pool ksid ℓ sizeBits count keepLocal (e, st) = .ok batch (e', st') ∧
      batch.link = ℓ ∧ batch.keys.length = count ∧ (∀ key ∈ batch.keys, key.material.len = sizeBits / 8) ∧
      batch.stored.length = keepLocal ∧ Cutting ℓ st.data batch.consumed [] d ∧
      st'.data = d.storeLocals (batch.stored.map fun key => ⟨ksid, key.keyId, key.material, e.wallSecs⟩) := by
  unfold generate
  by_cases bad : sizeBits = 0 ∨ sizeBits % 8 ≠ 0
  · exact .inl ⟨_, e, st, by rw [if_pos bad]; rfl, .inl (.refl _)⟩
  rw [if_neg bad]
  dsimp only
  have pos : 0 < sizeBits / 8 := by omega
  rw [run_bind_ok (show wallSecs (e, st) = .ok e.wallSecs (e, st) from rfl)]
  rcases cutKeys_scheduled pool ℓ pos e.wallSecs st.data count [] [] e st sched (.start ix) rfl (by simp) with
    ⟨f, e', st', failed, -, outcome⟩ | ⟨keys, e1, st1, cut, sched1, -, cutting1, count', sized⟩
  · exact .inl ⟨f, e', st', by rw [run_bind_error failed], outcome⟩
  rw [run_bind_ok cut]
  dsimp only
  rcases releaseEach_scheduled (keys.flatMap (·.spans)) 0 (keys.flatMap (·.spans)) e1 st1 sched1 cutting1 rfl with
    ⟨f, st2, failed, -, restored⟩ | ⟨st2, released, sched2, -, cutting2⟩
  · exact .inl ⟨f, e1, st2, by rw [run_bind_error failed], .inl restored⟩
  rw [run_bind_ok released]
  -- what the batch holds, whether or not keys are kept in the clear
  have whole : keys.take (count - keepLocal) ++ keys.drop (count - keepLocal) = keys := List.take_append_drop _ _
  have total : (keys.take (count - keepLocal) ++ keys.drop (count - keepLocal)).length = count := by
    rw [whole, count', List.length_nil, Nat.zero_add]
  have sized' : ∀ key ∈ keys.take (count - keepLocal) ++ keys.drop (count - keepLocal),
      key.material.len = sizeBits / 8 := by
    rw [whole]
    exact sized
  have kept : (keys.drop (count - keepLocal)).length = keepLocal := by
    rw [List.length_drop, count']
    simp only [List.length_nil, Nat.zero_add]
    omega
  have cutting : Cutting ℓ st.data ((keys.take (count - keepLocal) ++ keys.drop (count - keepLocal)).flatMap
      (·.spans)) [] st2.data := by
    rw [whole]
    exact cutting2
  split
  · -- the keys kept in the clear are stored; a failure there gives every span back, without
    -- the references already dropped
    let clear := (keys.drop (count - keepLocal)).map fun k => (⟨ksid, k.keyId, k.material, e.wallSecs⟩ : LocalKey)
    rcases Storage.write_scheduled "store_local_keys" (fun s => ((), s.storeLocals clear)) sched2 with
      ⟨-, f, t, fired, same, sched3, spent3⟩ | ⟨t, stored, same, -, -⟩
    · have whole : Cutting ℓ st.data (keys.flatMap (·.spans) ++ []) [] t.data := by
        rw [List.append_nil]
        exact cutting2.restored (.of_eq same)
      obtain ⟨t1, t2, back1, back2, -, restored⟩ := whole.giveBack_spent sched3 spent3
      rw [show Pool.rollback [] true t = .ok () t from rfl] at back1
      cases back1
      have fired' : Storage.storeLocalKeys clear st2 = .error f t := fired
      refine .inl ⟨f, e1, t2, ?_, .inl restored⟩
      rw [run_bind_congr (run_onFailure_error (records_error e1 fired')), bind_assoc,
        run_bind_ok (rollback_ok e1 back2)]
      rfl
    · have stored' : Storage.storeLocalKeys clear st2 = .ok () t := stored
      rw [run_bind_ok (run_onFailure_ok (records_ok e1 stored'))]
      exact .inr ⟨_, e1, t, st2.data, rfl, rfl, total, sized', kept, cutting, same⟩
  · -- nothing is kept in the clear
    rename_i none
    have empty : keys.drop (count - keepLocal) = [] := by simpa using none
    refine .inr ⟨_, e1, st2, st2.data, rfl, rfl, total, sized', kept, cutting, ?_⟩
    rw [empty]
    rfl

end Engine

/-- The fault a run failed with, if it failed. -/
def failure {ε σ α : Type} : EStateM.Result ε σ α → Option ε
  | .ok _ _ => none
  | .error e _ => some e

namespace Engine

end Engine

end KeyRelay
