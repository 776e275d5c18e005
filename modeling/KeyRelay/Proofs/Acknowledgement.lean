import KeyRelay.Proofs.Retrieval

/-! Following a companion's consumption on records behind fault injection that fails one
scheduled operation at most. The blocks the consumption names are loaded, acknowledged, and
written back one at a time in ascending order of id; the rows come after them, and only a failed
row store is followed by dropping the rows' references again. So a sync that fails leaves the
records as they were; or, having met the scheduled failure while writing the blocks back, the
blocks below some id acknowledged and the others as they were; or, having met it while storing
the rows, every block acknowledged and the rows' references dropped again. A sync that fails
stores no row, and without fault injection it changes nothing. -/

namespace KeyRelay

theorem Block.eq_of_bare {a c : Block} (bare : a.bare = c.bare) (count : a.inUse = c.inUse) : a = c := by
  cases a
  cases c
  simp only [Block.bare, Block.mk.injEq] at bare count
  obtain ⟨rfl, rfl, rfl, rfl, rfl, rfl, -⟩ := bare
  rw [count]

/-- In a list sorted by a key that no two elements share, a prefix holds exactly the elements
whose key lies below some bound. -/
theorem below_of_prefix {α : Type} {key : α → Nat} {A L : List α} (sorted : L.Pairwise fun a b => key a ≤ key b)
    (distinct : (L.map key).Nodup) (first : A <+: L) : ∃ n, ∀ x ∈ L, x ∈ A ↔ key x < n := by
  obtain ⟨B, rfl⟩ := first
  cases B with
  | nil =>
    refine ⟨(A.map key).sum + 1, fun x member => iff_of_true (by simpa using member) ?_⟩
    have := List.le_sum_of_mem (List.mem_map_of_mem (f := key) (by simpa using member))
    omega
  | cons y rest =>
    rw [List.pairwise_append] at sorted
    rw [List.map_append, List.nodup_append] at distinct
    refine ⟨key y, fun x member => ⟨fun inA => ?_, fun below => ?_⟩⟩
    · have le := sorted.2.2 x inA y List.mem_cons_self
      have ne : key x ≠ key y :=
        distinct.2.2 _ (List.mem_map_of_mem inA) _ (List.mem_map_of_mem List.mem_cons_self)
      omega
    · rcases List.mem_append.mp member with inA | inB
      · exact inA
      rcases List.mem_cons.mp inB with rfl | later
      · omega
      · have := (List.pairwise_cons.mp sorted.2.1).1 x later
        omega

namespace Pool

/-! ### Acknowledged blocks -/

/-- Acknowledging spans in turn moves a block's cursor to the furthest end consumed on it, held
to the block, and takes a reference for each retained span on it. -/
theorem ackBlock_eq (spans retained : List Span) (X : BlockId) (b : Block) :
    ackBlock spans retained X b =
      { b with offset := ackReach spans X b.bytes.length b.offset
               inUse := b.inUse + onBlock (spans.filter (retained.contains ·)) X } :=
  Block.eq_of_bare (by rw [ackBlock_bare]; rfl) (ackBlock_inUse spans retained X b)

/-- Writing an acknowledged block's cursor and count over the block gives the acknowledged block. -/
theorem ackBlock_written (spans retained : List Span) (X : BlockId) (c : Block) :
    { c with offset := (ackBlock spans retained X c).offset, inUse := (ackBlock spans retained X c).inUse } =
      ackBlock spans retained X c := by
  rw [ackBlock_eq]

theorem ackBlock_of_absent {spans : List Span} (retained : List Span) {X : BlockId}
    (absent : ∀ s ∈ spans, s.block ≠ X) (b : Block) : ackBlock spans retained X b = b := by
  induction spans generalizing b with
  | nil => rfl
  | cons s rest ih =>
    simp only [ackBlock, List.foldl_cons, absent s List.mem_cons_self, if_false] at ih ⊢
    exact ih (fun s' member => absent s' (List.mem_cons_of_mem s member)) b

/-- The loaded blocks once each consumed span is acknowledged on its block. -/
def ackAll (consumed retained : List Span) (t : Table BlockId Block) : Table BlockId Block :=
  consumed.foldl (fun t s => t.modify s.block (·.acknowledge s (retained.contains s))) t

theorem acknowledge_eq (ℓ : LinkId) (consumed retained : List Span) :
    acknowledge ℓ consumed retained = touched ℓ retained consumed {} >>= fun t =>
      (sortedBy (·.id.val) (ackAll consumed retained t).values).forM Storage.updateBlock := rfl

/-- The blocks an acknowledgement writes back: each loaded block acknowledged, by ascending id,
no id twice. -/
theorem ackList_spec (consumed retained : List Span) {t : Table BlockId Block} (distinct : t.KeysNodup)
    (ident : ∀ X b, t.get? X = some b → b.id = X) :
    ((sortedBy (·.id.val) (ackAll consumed retained t).values).map (·.id.val)).Nodup ∧
    (sortedBy (·.id.val) (ackAll consumed retained t).values).Pairwise (fun a b => a.id.val ≤ b.id.val) ∧
    ∀ b, b ∈ sortedBy (·.id.val) (ackAll consumed retained t).values ↔
      ∃ c, t.get? b.id = some c ∧ b = ackBlock consumed retained b.id c := by
  have distinct' : (ackAll consumed retained t).KeysNodup := keysNodup_ackAll consumed retained t distinct
  have entry : ∀ X b, (X, b) ∈ (ackAll consumed retained t).entries →
      ∃ c, t.get? X = some c ∧ b = ackBlock consumed retained X c := by
    intro X b member
    have hit := Table.get?_of_mem distinct' member
    rw [ackAll, get?_ackAll] at hit
    obtain ⟨c, found, rfl⟩ := Option.map_eq_some_iff.mp hit
    exact ⟨c, found, rfl⟩
  have identAll : ∀ e ∈ (ackAll consumed retained t).entries, e.2.id = e.1 := by
    intro e member
    obtain ⟨c, found, same⟩ := entry e.1 e.2 member
    rw [same, ackBlock_id]
    exact ident _ _ found
  have perm : (sortedBy (·.id.val) (ackAll consumed retained t).values).Perm (ackAll consumed retained t).values :=
    List.mergeSort_perm _ _
  refine ⟨?_, ?_, fun b => ?_⟩
  · -- the ids written are the keys of the table, which is keyed by id
    have same : (ackAll consumed retained t).values.map (·.id) = (ackAll consumed retained t).entries.map (·.1) := by
      simp only [Table.values, List.map_map]
      exact List.map_congr_left fun e member => identAll e member
    have valInj : Function.Injective Ident.val := fun a b equal => by
      cases a
      cases b
      cases equal
      rfl
    have ids : ((ackAll consumed retained t).values.map (·.id)).Nodup := by
      rw [same]
      exact distinct'
    have vals := ((perm.map (·.id)).nodup_iff.mpr ids).map valInj
    rw [List.map_map] at vals
    exact vals
  · have sorted : (sortedBy (·.id.val) (ackAll consumed retained t).values).Pairwise
        fun a b => decide (a.id.val ≤ b.id.val) = true :=
      List.pairwise_mergeSort (fun _ _ _ first second => by simp only [decide_eq_true_eq] at first second ⊢; omega)
        (fun a b => by simp only [Bool.or_eq_true, decide_eq_true_eq]; omega) _
    exact sorted.imp fun holds => of_decide_eq_true holds
  · rw [perm.mem_iff, Table.mem_values]
    constructor
    · rintro ⟨X, member⟩
      have named := identAll _ member
      simp only at named
      rw [named]
      exact entry X b member
    · rintro ⟨c, found, shaped⟩
      refine ⟨b.id, Table.mem_of_get? ?_⟩
      rw [ackAll, get?_ackAll, found, Option.map_some, ← shaped]

end Pool

namespace Store

/-- `d'` is `d` with each block of an id in `W` acknowledged as `consumed` says, a reference
taken for each span on it that `retained` holds; the other blocks, and everything else, as they
were. -/
structure Acked (consumed retained : List Span) (W : BlockId → Prop) (d d' : Store) : Prop where
  only : OnlyBlocks d d'
  acked : ∀ X, W X → d'.blocks.get? X = (d.blocks.get? X).map (Pool.ackBlock consumed retained X)
  kept : ∀ X, ¬ W X → d'.blocks.get? X = d.blocks.get? X

/-- `d'` is `d` with the cursor and count of each block of `A` written over the stored block of
its id; the other blocks, and everything else, as they were. -/
structure Rewritten (A : List Block) (d d' : Store) : Prop where
  only : OnlyBlocks d d'
  indexed : d'.Indexed
  written : ∀ b ∈ A, d'.blocks.get? b.id =
    (d.blocks.get? b.id).map fun x => { x with offset := b.offset, inUse := b.inUse }
  others : ∀ X, (∀ b ∈ A, b.id ≠ X) → d'.blocks.get? X = d.blocks.get? X

namespace Rewritten

variable {A B : List Block} {d d' d'' : Store}

theorem of_eq (ix : d.Indexed) (same : d' = d) : Rewritten [] d d' := by
  subst same
  exact ⟨OnlyBlocks.refl _, ix, by simp, fun _ _ => rfl⟩

theorem one {st : Storage} (ix : st.data.Indexed) {b c : Block} (stored : st.data.blocks.get? b.id = some c)
    (link : c.link = b.link) : Rewritten [b] st.data (st.written b).data := by
  refine ⟨Storage.onlyBlocks_written st b, ((Storage.steady_calm ix).written stored link).indexed, ?_, ?_⟩
  · intro b' member
    rw [List.mem_singleton.mp member, Storage.get?_written, if_pos rfl]
  · intro X other
    rw [Storage.get?_written, if_neg (other b List.mem_cons_self)]

theorem trans (first : Rewritten A d d') (second : Rewritten B d' d'') (apart : ∀ a ∈ A, ∀ b ∈ B, a.id ≠ b.id) :
    Rewritten (A ++ B) d d'' := by
  refine ⟨first.only.trans second.only, second.indexed, fun b member => ?_, fun X other => ?_⟩
  · rcases List.mem_append.mp member with inA | inB
    · rw [second.others b.id fun b' inB => (apart b inA b' inB).symm, first.written b inA]
    · rw [second.written b inB, first.others b.id fun a inA => apart a inA b inB]
  · rw [second.others X fun b inB => other b (List.mem_append_right A inB),
      first.others X fun a inA => other a (List.mem_append_left B inA)]

/-- Blocks written back acknowledged, as loaded into `t`: every block of an id in `W` reads
acknowledged when the blocks written are loaded ones in `W`, and every loaded one in `W` is
written. A block not loaded has no consumed span on it, if it is stored at all. -/
theorem acked {consumed retained : List Span} {W : BlockId → Prop} {t : Table BlockId Block}
    (rewritten : Rewritten A d d') (agree : ∀ X c, t.get? X = some c → d.blocks.get? X = some c)
    (named : ∀ X, (∃ s ∈ consumed, s.block = X) → (d.blocks.get? X).isSome → (t.get? X).isSome)
    (shape : ∀ b ∈ A, ∃ c, t.get? b.id = some c ∧ b = Pool.ackBlock consumed retained b.id c)
    (within : ∀ b ∈ A, W b.id) (covers : ∀ X, W X → (t.get? X).isSome → ∃ b ∈ A, b.id = X) :
    Acked consumed retained W d d' := by
  refine ⟨rewritten.only, fun X inW => ?_, fun X notW => rewritten.others X fun b inA same => notW (same ▸ within b inA)⟩
  cases hit : t.get? X with
  | some c =>
    obtain ⟨b, inA, ident⟩ := covers X inW (by simp [hit])
    obtain ⟨c', hit', shaped⟩ := shape b inA
    rw [ident, hit] at hit'
    cases hit'
    have written := rewritten.written b inA
    rw [ident] at shaped written
    subst shaped
    rw [written, agree X c hit]
    exact congrArg some (Pool.ackBlock_written consumed retained X c)
  | none =>
    -- a block not loaded is not written, and no consumed span lies on it
    have notWritten : ∀ b ∈ A, b.id ≠ X := by
      intro b inA same
      obtain ⟨c, hit', -⟩ := shape b inA
      rw [same, hit] at hit'
      cases hit'
    rw [rewritten.others X notWritten]
    cases found : d.blocks.get? X with
    | none => rfl
    | some c =>
      have absent : ∀ s ∈ consumed, s.block ≠ X := by
        intro s member same
        have loaded := named X ⟨s, member, same⟩ (by simp [found])
        rw [hit] at loaded
        cases loaded
      rw [Option.map_some, Pool.ackBlock_of_absent retained absent]

end Rewritten

end Store

namespace Pool

open Storage

/-! ### Writing blocks back on scheduled records -/

/-- Writing back blocks of distinct ids, each stored on its own link, on scheduled records: every
block is written, the failure still to come as it was; or the failure is met once the blocks of
a prefix are written, and the run fails there. -/
theorem updateAll_scheduled : ∀ (L : List Block) {st : Storage}, st.Scheduled → st.data.Indexed →
    (L.map (·.id)).Nodup → (∀ b ∈ L, ∃ c, st.data.blocks.get? b.id = some c ∧ c.link = b.link) →
    (∃ t, L.forM Storage.updateBlock st = .ok () t ∧ t.Scheduled ∧ (t.Armed ↔ st.Armed) ∧
      Store.Rewritten L st.data t.data) ∨
    ∃ f t A, L.forM Storage.updateBlock st = .error f t ∧ t.Scheduled ∧ st.Armed ∧ ¬ t.Armed ∧ A <+: L ∧
      Store.Rewritten A st.data t.data
  | [], st, sched, ix, _, _ => .inl ⟨st, rfl, sched, Iff.rfl, .of_eq ix rfl⟩
  | b :: rest, st, sched, ix, distinct, stored => by
    rw [List.map_cons, List.nodup_cons] at distinct
    obtain ⟨c, found, link⟩ := stored b List.mem_cons_self
    rw [run_forM_cons]
    rcases updateBlock_scheduled sched found link with
      ⟨armed, f, t, failed, same, sched1, spent⟩ | ⟨t, written, same, sched1, arming⟩
    · exact .inr ⟨f, t, [], run_bind_error failed, sched1, armed, spent, List.nil_prefix, .of_eq ix same⟩
    rw [run_bind_ok written]
    have other : ∀ b' ∈ rest, b.id ≠ b'.id := fun b' member same =>
      distinct.1 (same ▸ List.mem_map_of_mem member)
    have first : Store.Rewritten [b] st.data t.data := by
      rw [same]
      exact .one ix found link
    have stored' : ∀ b' ∈ rest, ∃ c, t.data.blocks.get? b'.id = some c ∧ c.link = b'.link := by
      intro b' member
      rw [first.others b'.id (by simpa using other b' member)]
      exact stored b' (List.mem_cons_of_mem b member)
    have apart : ∀ a ∈ [b], ∀ b' ∈ rest, a.id ≠ b'.id := by
      intro a inFirst b' member
      rw [List.mem_singleton.mp inFirst]
      exact other b' member
    rcases updateAll_scheduled rest sched1 first.indexed distinct.2 stored' with
      ⟨t', run, sched2, arming', later⟩ | ⟨f, t', A, failed, sched2, armed, spent, pre, later⟩
    · exact .inl ⟨t', run, sched2, arming'.trans arming, first.trans later apart⟩
    · exact .inr ⟨f, t', b :: A, failed, sched2, arming.mp armed, spent, (List.prefix_cons_inj b).mpr pre,
        first.trans later fun a inFirst b' member => apart a inFirst b' (pre.subset member)⟩

/-! ### Loading the blocks named on scheduled records -/

theorem faithful_touched (ℓ : LinkId) (retained : List Span) :
    ∀ (spans : List Span) (t : Table BlockId Block), schedule.Faithful (touched ℓ retained spans t)
  | [], _ => Schedule.Faithful.pure _
  | s :: rest, t => by
    unfold touched
    refine Schedule.Faithful.bind (Schedule.Faithful.ofExcept _) fun _ => ?_
    split
    · exact faithful_touched ℓ retained rest t
    · refine Schedule.Faithful.bind (Storage.faithful_read _ _) fun found => ?_
      cases found with
      | some b => exact Schedule.Faithful.ite _ (Schedule.Faithful.throw _) (faithful_touched ℓ retained rest _)
      | none => exact Schedule.Faithful.ite _ (Schedule.Faithful.throw _) (faithful_touched ℓ retained rest t)

theorem raises_touched (ℓ : LinkId) (retained : List Span) :
    ∀ (spans : List Span) (t : Table BlockId Block), schedule.Raises (touched ℓ retained spans t)
  | [], _ => Schedule.Raises.pure _
  | s :: rest, t => by
    unfold touched
    refine Schedule.Raises.bind (Schedule.Faithful.ofExcept _) (Schedule.Raises.ofExcept _) fun _ => ?_
    split
    · exact raises_touched ℓ retained rest t
    · refine Schedule.Raises.bind (Storage.faithful_read _ _) (Storage.raises_read _ _) fun found => ?_
      cases found with
      | some b =>
        dsimp only
        split
        · exact Schedule.Raises.throw _
        · exact raises_touched ℓ retained rest _
      | none =>
        dsimp only
        split
        · exact Schedule.Raises.throw _
        · exact raises_touched ℓ retained rest t

/-- Loading the blocks named leaves the records as they were, whatever fails. -/
theorem keeps_same_touched (ℓ : LinkId) (retained : List Span) : ∀ (spans : List Span) (t : Table BlockId Block),
    Keeps (fun s t : Storage => t.data = s.data) (touched ℓ retained spans t)
  | [], _ => Keeps.pure same_chains _
  | s :: rest, t => by
    unfold touched
    refine Keeps.bind same_chains (Keeps.ofExcept same_chains _) fun _ => ?_
    split
    · exact keeps_same_touched ℓ retained rest t
    · refine Keeps.bind same_chains (keeps_of_read (R := fun d d' => d' = d) (fun _ => rfl) _ _) fun found => ?_
      cases found with
      | some b => exact Keeps.ite _ (Keeps.throw same_chains _) (keeps_same_touched ℓ retained rest _)
      | none => exact Keeps.ite _ (Keeps.throw same_chains _) (keeps_same_touched ℓ retained rest t)

/-- A faithful computation that meets the scheduled failure only by failing: a run that returns
is the run without fault injection, and leaves the failure to come as it was. -/
theorem calm_of_ok {α : Type} {m : StoreM α} (faithful : schedule.Faithful m) (raises : schedule.Raises m)
    {st : Storage} (sched : st.Scheduled) {a : α} {t : Storage} (run : m st = .ok a t) :
    m st.calm = .ok a t.calm ∧ t.Scheduled ∧ (t.Armed ↔ st.Armed) := by
  obtain ⟨sched', outcome⟩ := faithful st sched
  rw [run, endState_ok] at sched' outcome
  rcases outcome with ⟨mirror, arming⟩ | ⟨armed, spent⟩
  · exact ⟨Schedule.mirrors_ok mirror, sched', arming⟩
  · obtain ⟨f, t', failed⟩ := raises st sched armed (by rw [run]; exact spent)
    rw [run] at failed
    cases failed

/-- On scheduled records, loading the blocks named that returns gives what it gives without fault
injection: each named block that is stored, all on the link. -/
theorem touched_ok_scheduled (ℓ : LinkId) (retained spans : List Span) {st : Storage} (sched : st.Scheduled)
    (ix : st.data.Indexed) {t : Table BlockId Block} {st' : Storage} (run : touched ℓ retained spans {} st = .ok t st') :
    st'.data = st.data ∧ st'.Scheduled ∧ (st'.Armed ↔ st.Armed) ∧ t.KeysNodup ∧
      (∀ X b, t.get? X = some b → st.data.blocks.get? X = some b ∧ b.link = ℓ) ∧
      ∀ X, (t.get? X).isSome ↔ ∃ s ∈ spans, s.block = X ∧ (st.data.blocks.get? X).isSome := by
  have same := keeps_same_touched ℓ retained spans {} st
  rw [run, endState_ok] at same
  obtain ⟨calmRun, sched', arming⟩ :=
    calm_of_ok (faithful_touched ℓ retained spans {}) (raises_touched ℓ retained spans {}) sched run
  rcases touched_spec (steady_calm ix) ℓ retained spans {} Table.keysNodup_empty (by simp) with
    ⟨f, refused⟩ | ⟨t', loaded, distinct, agree, keys⟩
  · rw [calmRun] at refused
    cases refused
  rw [calmRun] at loaded
  obtain ⟨rfl, -⟩ := EStateM.Result.ok.inj loaded
  exact ⟨same, sched', arming, distinct, agree, fun X => by simpa using keys X⟩

/-! ### Acknowledging on scheduled records -/

/-- Following a companion's consumption on scheduled records: refused, or the failure met while
loading, the records as they were; the failure met while writing back, the blocks below some id
acknowledged and the others as they were; or every block acknowledged, the failure to come as it
was. -/
theorem acknowledge_scheduled (ℓ : LinkId) (consumed retained : List Span) {st : Storage} (sched : st.Scheduled)
    (ix : st.data.Indexed) :
    (∃ f t, acknowledge ℓ consumed retained st = .error f t ∧ t.data = st.data) ∨
    (∃ f t n, acknowledge ℓ consumed retained st = .error f t ∧ st.Armed ∧ ¬ t.Armed ∧
      st.data.Acked consumed retained (·.val < n) t.data) ∨
    ∃ t, acknowledge ℓ consumed retained st = .ok () t ∧ t.Scheduled ∧ (t.Armed ↔ st.Armed) ∧ t.data.Indexed ∧
      st.data.Acked consumed retained (fun _ => True) t.data := by
  rw [acknowledge_eq]
  cases loading : touched ℓ retained consumed {} st with
  | error f t =>
    have same := keeps_same_touched ℓ retained consumed {} st
    rw [loading, endState_error] at same
    exact .inl ⟨f, t, run_bind_error loading, same⟩
  | ok t st1 =>
    rw [run_bind_ok loading]
    obtain ⟨same, sched1, arming, distinct, agree, keys⟩ := touched_ok_scheduled ℓ retained consumed sched ix loading
    have ident : ∀ X b, t.get? X = some b → b.id = X := fun X b hit => ix.ids X b (agree X b hit).1
    obtain ⟨valsNodup, sorted, inL⟩ := ackList_spec consumed retained distinct ident
    have idsNodup : ((sortedBy (·.id.val) (ackAll consumed retained t).values).map (·.id)).Nodup :=
      List.Nodup.of_map Ident.val (by rw [List.map_map]; exact valsNodup)
    -- each block written back is a loaded one, acknowledged, stored on the link it has
    have stored : ∀ b ∈ sortedBy (·.id.val) (ackAll consumed retained t).values,
        ∃ c, st1.data.blocks.get? b.id = some c ∧ c.link = b.link := by
      intro b member
      obtain ⟨c, hit, shaped⟩ := (inL b).mp member
      refine ⟨c, same ▸ (agree _ _ hit).1, ?_⟩
      rw [shaped, ackBlock_eq]
    have covered : ∀ X, (t.get? X).isSome → ∃ b ∈ sortedBy (·.id.val) (ackAll consumed retained t).values, b.id = X := by
      intro X loaded
      obtain ⟨c, hit⟩ := Option.isSome_iff_exists.mp loaded
      have idOf : (ackBlock consumed retained X c).id = X := by rw [ackBlock_id, ident X c hit]
      exact ⟨_, (inL _).mpr ⟨c, by rw [idOf]; exact hit, by rw [idOf]⟩, idOf⟩
    have named : ∀ X, (∃ s ∈ consumed, s.block = X) → (st.data.blocks.get? X).isSome → (t.get? X).isSome := by
      intro X lying present
      obtain ⟨s, member, lies⟩ := lying
      exact (keys X).mpr ⟨s, member, lies, present⟩
    rcases updateAll_scheduled _ sched1 (same ▸ ix) idsNodup stored with
      ⟨t', run, sched2, arming', rewritten⟩ | ⟨f, t', A, failed, -, armed, spent, pre, rewritten⟩
    · rw [same] at rewritten
      refine .inr (.inr ⟨t', run, sched2, arming'.trans arming, rewritten.indexed, ?_⟩)
      exact rewritten.acked (fun X c hit => (agree X c hit).1) named (fun b member => (inL b).mp member)
        (fun _ _ => trivial) fun X _ loaded => covered X loaded
    · rw [same] at rewritten
      obtain ⟨n, below⟩ := below_of_prefix sorted valsNodup pre
      refine .inr (.inl ⟨f, t', n, failed, arming.mp armed, spent, ?_⟩)
      refine rewritten.acked (fun X c hit => (agree X c hit).1) named
        (fun b member => (inL b).mp (pre.subset member)) (fun b member => (below b (pre.subset member)).mp member) ?_
      intro X low loaded
      obtain ⟨b, member, rfl⟩ := covered X loaded
      exact ⟨b, (below b member).mpr low, rfl⟩

end Pool

/-! ### Following a companion's consumption -/

namespace Engine

open Storage

/-- What a failed sync leaves of the records: the records as they were; or, the scheduled failure
met while the blocks were written back, the blocks below some id acknowledged and the others as
they were; or, the failure met while the rows were stored, every block acknowledged and the
references of the rows' spans dropped again. -/
def SyncFailed (consumed ranges : List Span) (st st' : Storage) : Prop :=
  st'.data = st.data ∨
  st.Armed ∧ ¬ st'.Armed ∧ ((∃ n, st.data.Acked consumed ranges (·.val < n) st'.data) ∨
    ∃ d, st.data.Acked consumed ranges (fun _ => True) d ∧ Store.Released ranges d st'.data)

/-- What a sync that returns leaves: every block acknowledged, a reference taken for each of the
rows' spans, and the rows stored; the failure still to come as it was. -/
def Synced (rows : List KeyRow) (consumed : List Span) (st st' : Storage) : Prop :=
  (st'.Armed ↔ st.Armed) ∧
    ∃ d, st.data.Acked consumed (rows.flatMap (·.spans)) (fun _ => True) d ∧ st'.data = d.storeRows rows

theorem applySync_scheduled (ℓ : LinkId) (rows : List KeyRow) (consumed : List Span) (e : Env) {st : Storage}
    (sched : st.Scheduled) (ix : st.data.Indexed) :
    (∃ f t, applySync ℓ rows consumed (e, st) = .error f (e, t) ∧ SyncFailed consumed (rows.flatMap (·.spans)) st t) ∨
    ∃ t, applySync ℓ rows consumed (e, st) = .ok () (e, t) ∧ Synced rows consumed st t := by
  unfold applySync
  cases checked : checkRows ℓ rows consumed with
  | error f => exact .inl ⟨f, st, by rw [run_bind_error (run_ofExcept_error f _)], .inl rfl⟩
  | ok u =>
    rw [run_bind_ok (run_ofExcept_ok u _)]
    rcases Pool.acknowledge_scheduled ℓ consumed (rows.flatMap (·.spans)) sched ix with
      ⟨f, t, refused, same⟩ | ⟨f, t, n, failed, armed, spent, acked⟩ | ⟨t, done, sched1, arming, ix1, acked⟩
    · exact .inl ⟨f, t, by rw [run_bind_error (records_error e refused)], .inl same⟩
    · exact .inl ⟨f, t, by rw [run_bind_error (records_error e failed)], .inr ⟨armed, spent, .inl ⟨n, acked⟩⟩⟩
    rw [run_bind_ok (records_ok e done)]
    rcases write_scheduled "store_key_rows" (fun s => ((), s.storeRows rows)) sched1 with
      ⟨armed, f, t2, failed, same, sched2, spent⟩ | ⟨t2, stored, same, -, arming'⟩
    · -- the rows are not stored, and the references their spans took are dropped again
      have failed : Storage.storeKeyRows rows t = .error f t2 := failed
      rw [run_onFailure_error (records_error e failed)]
      rcases Pool.releaseRange_scheduled (rows.flatMap (·.spans)) sched2 (same ▸ ix1) with
        ⟨t3, released, -, arming3, dropped⟩ | ⟨-, -, -, -, -, armed', -⟩
      · refine .inl ⟨f, t3, ?_, .inr ⟨arming.mp armed, fun armed3 => spent (arming3.mp armed3), .inr ⟨t.data, acked, same ▸ dropped⟩⟩⟩
        have undone : EStateM.attempt (Pool.releaseRange (rows.flatMap (·.spans))) t2 = .ok () t3 := by
          rw [run_attempt, released]
          rfl
        rw [run_bind_ok (records_ok e undone)]
        rfl
      · exact absurd armed' spent
    · have stored : Storage.storeKeyRows rows t = .ok () t2 := stored
      exact .inr ⟨t2, by rw [run_onFailure_ok (records_ok e stored)], arming'.trans arming, t.data, acked, same⟩

/-- A sync of a companion's consumption, on records behind fault injection that fails one
scheduled operation at most, whose block index agrees with their blocks. A failed sync stores no
row; it leaves the records as they were, or the blocks below some id acknowledged and the others
as they were, or every block acknowledged with the references of the rows' spans dropped again;
without a failure still to come it leaves the records as they were. A sync that returns leaves
every block acknowledged and the rows stored. -/
theorem failed_sync_leaves_an_acknowledged_prefix (ℓ : LinkId) (rows : List KeyRow) (consumed : List Span) (e : Env)
    {st : Storage} (sched : st.Scheduled) (ix : st.data.Indexed) :
    (∀ f s, applySync ℓ rows consumed (e, st) = .error f s → SyncFailed consumed (rows.flatMap (·.spans)) st s.2) ∧
    (∀ s, applySync ℓ rows consumed (e, st) = .ok () s → Synced rows consumed st s.2) ∧
    (¬ st.Armed → ∀ f s, applySync ℓ rows consumed (e, st) = .error f s → s.2.data = st.data) := by
  obtain ⟨failed, synced⟩ := outcome_cases (Q := fun _ t => Synced rows consumed st t)
    ((applySync_scheduled ℓ rows consumed e sched ix).imp_right fun returned => ⟨(), returned⟩)
  refine ⟨failed, fun s run => synced () s run, fun calm f s run => ?_⟩
  rcases failed f s run with same | ⟨armed, -⟩
  · exact same
  · exact absurd armed calm

/-- Two blocks of sixteen bytes on link 1, on a node whose fourth operation is scheduled to fail,
and a sync of a row over the first that consumed both. -/
theorem failed_sync_leaves_an_acknowledged_prefix_on_two_blocks :
    let b₁ : Block := ⟨⟨1⟩, ⟨1⟩, 1000, 0, List.replicate 16 0, 0, 0⟩
    let b₂ : Block := ⟨⟨2⟩, ⟨1⟩, 1000, 1, List.replicate 16 0, 0, 0⟩
    let d : Store := ((({} : Store).insertBlock b₁).2.insertBlock b₂).2
    let st : Storage := { data := d, chaos := some { rate := 0, seed := 0, failOn := some 4 } }
    let r : KeyRow := ⟨⟨9⟩, ⟨7⟩, ⟨1⟩, [⟨⟨1⟩, 0, 16⟩], false, 1000⟩
    st.Scheduled ∧ st.data.Indexed ∧
    (∀ f s, applySync ⟨1⟩ [r] [⟨⟨1⟩, 0, 16⟩, ⟨⟨2⟩, 0, 16⟩] (default, st) = .error f s →
      SyncFailed [⟨⟨1⟩, 0, 16⟩, ⟨⟨2⟩, 0, 16⟩] ([r].flatMap (·.spans)) st s.2) ∧
    (∀ s, applySync ⟨1⟩ [r] [⟨⟨1⟩, 0, 16⟩, ⟨⟨2⟩, 0, 16⟩] (default, st) = .ok () s →
      Synced [r] [⟨⟨1⟩, 0, 16⟩, ⟨⟨2⟩, 0, 16⟩] st s.2) ∧
    (¬ st.Armed → ∀ f s, applySync ⟨1⟩ [r] [⟨⟨1⟩, 0, 16⟩, ⟨⟨2⟩, 0, 16⟩] (default, st) = .error f s →
      s.2.data = st.data) := by
  intro b₁ b₂ d st r
  have sched : st.Scheduled := fun c present => by
    cases present
    rfl
  have blocks : d.Indexed := (Store.indexed_default.insertBlock b₁).insertBlock b₂
  have ix : st.data.Indexed := ⟨blocks.chainKeys, blocks.chained, blocks.ids⟩
  exact ⟨sched, ix, failed_sync_leaves_an_acknowledged_prefix ⟨1⟩ [r] _ default sched ix⟩

end Engine

end KeyRelay
