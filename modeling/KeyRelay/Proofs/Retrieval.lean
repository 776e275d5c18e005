import KeyRelay.Proofs.Generation
import KeyRelay.Proofs.Reopen
import KeyRelay.Proofs.Companion

/-! Handing out a session's keys, all or nothing, on records behind fault injection that fails
one scheduled operation at most. Keys go out replayed from their rows, or from the clear; the
rows or clear keys are taken one by one first, and put back when one is missing.

`Table.Less` and `Store.Less` say what the records hold midway: the records the call started
from less the entries taken, with the references of some spans dropped. Every step has a lemma
that keeps them, on scheduled records: the step either runs as without fault injection or meets
the failure and leaves the records as they were. A replay that fails leaves every row as it was,
or all but the one whose bytes are gone, with its references dropped; only a run that meets the
scheduled failure in a later write, one that puts back, drops references or releases, can lose
rows asked for, and references they held. -/

namespace KeyRelay

/-! ### Tables less some entries -/

namespace Table

variable {κ α : Type} [DecidableEq κ] {t t' t'' : Table κ α} {gone gone' : κ → Prop}

/-- `t'` holds what `t` holds, less the entries under the keys `gone`. -/
structure Less (t : Table κ α) (gone : κ → Prop) (t' : Table κ α) : Prop where
  taken : ∀ k, gone k → t'.get? k = none
  kept : ∀ k, ¬ gone k → t'.get? k = t.get? k

theorem Less.refl (t : Table κ α) : t.Less (fun _ => False) t := ⟨fun _ no => no.elim, fun _ _ => rfl⟩

theorem Less.congr (less : t.Less gone t') (same : ∀ k, gone k ↔ gone' k) : t.Less gone' t' :=
  ⟨fun k g => less.taken k ((same k).mpr g), fun k g => less.kept k fun g' => g ((same k).mp g')⟩

theorem Less.erase (less : t.Less gone t') (j : κ) : t.Less (fun k => gone k ∨ k = j) (t'.erase j) := by
  refine ⟨fun k g => ?_, fun k g => ?_⟩
  · rw [get?_erase]
    by_cases same : j = k
    · rw [if_pos same]
    · rw [if_neg same]
      rcases g with g | rfl
      · exact less.taken k g
      · exact absurd rfl same
  · rw [get?_erase, if_neg fun same => g (.inr same.symm)]
    exact less.kept k fun g' => g (.inl g')

/-- Putting back, each under its own key, entries that `t` holds: their keys are no longer
missing. -/
theorem Less.foldl_insert {γ : Type} (less : t.Less gone t') (items : List γ) (keyOf : γ → κ)
    (valOf : γ → α) (held : ∀ x ∈ items, t.get? (keyOf x) = some (valOf x)) :
    t.Less (fun k => gone k ∧ ∀ x ∈ items, keyOf x ≠ k)
      (items.foldl (fun t x => t.insert (keyOf x) (valOf x)) t') := by
  refine ⟨fun k g => ?_, fun k g => ?_⟩
  · rw [get?_foldl_insert_of_absent items keyOf valOf g.2]
    exact less.taken k g.1
  · by_cases listed : ∃ x ∈ items, keyOf x = k
    · obtain ⟨x, member, key⟩ := listed
      have found : t.get? k = some (valOf x) := key ▸ held x member
      rw [found]
      refine get?_foldl_insert_of_mem items keyOf valOf (fun y inner key' => ?_) ⟨x, member, key⟩ t'
      have other := held y inner
      rw [key', found] at other
      exact (Option.some.inj other).symm
    · have absent : ∀ x ∈ items, keyOf x ≠ k := fun x member key => listed ⟨x, member, key⟩
      rw [get?_foldl_insert_of_absent items keyOf valOf absent]
      exact less.kept k fun g' => g ⟨g', absent⟩

end Table

/-! ### Records less some rows, and references dropped -/

namespace Store

/-- `d'` is `d` with one reference fewer on a block for each span of `spans` on it; the blocks
are otherwise as they were, and so is everything else. -/
structure Released (spans : List Span) (d d' : Store) : Prop where
  only : OnlyBlocks d d'
  indexed : d'.Indexed
  bare : d'.bare = d.bare
  refs : ∀ X, d'.refs X = d.refs X - onBlock spans X

namespace Released

variable {A B : List Span} {d d' d'' : Store}

theorem nil (ix : d.Indexed) : Released [] d d := ⟨OnlyBlocks.refl d, ix, rfl, fun X => by simp⟩

theorem of_eq (ix : d.Indexed) (same : d' = d) : Released [] d d' := by
  subst same
  exact nil ix

theorem trans (first : Released A d d') (second : Released B d' d'') : Released (A ++ B) d d'' := by
  refine ⟨first.only.trans second.only, second.indexed, second.bare.trans first.bare, fun X => ?_⟩
  rw [second.refs, first.refs, onBlock_append]
  omega

/-- A span on a block that is gone has no reference to drop. -/
theorem skip {s : Span} (absent : d.blocks.get? s.block = none) (rest : Released A d d') :
    Released (s :: A) d d' := by
  refine ⟨rest.only, rest.indexed, rest.bare, fun X => ?_⟩
  have gone : s.block = X → d.refs X = 0 := by
    rintro rfl
    simp [Store.refs, absent]
  rw [rest.refs, onBlock_cons]
  by_cases same : s.block = X
  · simp [same, gone same]
  · simp [same]

end Released

/-- `d` is `base` less the rows under the slots `gone`, with one reference fewer on a block for
each span of `spans` on it; everything else is as it was. -/
structure Less (base : Store) (gone : Ksid × KeyId → Prop) (spans : List Span) (d : Store) : Prop where
  frame : d = { base with rows := d.rows, blocks := d.blocks }
  rows : base.rows.Less gone d.rows
  bare : d.bare = base.bare
  refs : ∀ X, d.refs X = base.refs X - onBlock spans X

namespace Less

variable {base d d' : Store} {gone gone' : Ksid × KeyId → Prop} {A P : List Span}

theorem refl (base : Store) : base.Less (fun _ => False) [] base :=
  ⟨rfl, Table.Less.refl _, rfl, fun X => by simp⟩

theorem congr (less : base.Less gone A d) (same : ∀ k, gone k ↔ gone' k) : base.Less gone' A d :=
  ⟨less.frame, less.rows.congr same, less.bare, less.refs⟩

/-- Other rows, the same blocks. -/
theorem withRows (less : base.Less gone A d) {rows : Table (Ksid × KeyId) KeyRow}
    (rowsLess : base.rows.Less gone' rows) : base.Less gone' A { d with rows } := by
  refine ⟨?_, rowsLess, less.bare, less.refs⟩
  conv_lhs => rw [less.frame]

/-- References dropped on top of those already dropped. -/
theorem release (less : base.Less gone A d) (released : Released P d d') : base.Less gone (A ++ P) d' := by
  have rows : d'.rows = d.rows := by rw [released.only]
  refine ⟨?_, rows ▸ less.rows, released.bare.trans less.bare, fun X => ?_⟩
  · rw [released.only, less.frame]
  · rw [released.refs, less.refs, onBlock_append]
    omega

/-- With no reference dropped, the blocks are those of `base`. -/
theorem restored (less : base.Less gone [] d) : Restored base { base with blocks := d.blocks } :=
  restored_of rfl less.bare fun X => (less.refs X).trans (Nat.sub_zero _)

theorem blocks (less : base.Less gone [] d) (X : BlockId) : d.blocks.get? X = base.blocks.get? X :=
  less.restored.blocks X

theorem indexed (less : base.Less gone [] d) (ix : base.Indexed) : d.Indexed := by
  have inner := less.restored.indexed ix
  rw [less.frame]
  exact ⟨inner.chainKeys, inner.chained, inner.ids⟩

end Less

/-- `d` is `base` less the clear keys under the slots `gone`; everything else is as it was. -/
structure LessLocals (base : Store) (gone : Ksid × KeyId → Prop) (d : Store) : Prop where
  frame : d = { base with locals := d.locals }
  locals : base.locals.Less gone d.locals

namespace LessLocals

variable {base d : Store} {gone gone' : Ksid × KeyId → Prop}

theorem refl (base : Store) : base.LessLocals (fun _ => False) base := ⟨rfl, Table.Less.refl _⟩

theorem congr (less : base.LessLocals gone d) (same : ∀ k, gone k ↔ gone' k) : base.LessLocals gone' d :=
  ⟨less.frame, less.locals.congr same⟩

/-- Other clear keys, everything else the same. -/
theorem withLocals (less : base.LessLocals gone d) {locals : Table (Ksid × KeyId) LocalKey}
    (localsLess : base.locals.Less gone' locals) : base.LessLocals gone' { d with locals } := by
  refine ⟨?_, localsLess⟩
  conv_lhs => rw [less.frame]

end LessLocals

end Store

/-! ### What a read gives -/

namespace Store

end Store

theorem Block.slice_ok {b : Block} {s : Span} {part : List UInt8} (sliced : b.slice s = .ok part) :
    part = (b.bytes.drop s.start).take s.len := by
  unfold Block.slice Span.validate at sliced
  split at sliced
  · cases sliced
  · split at sliced
    · cases sliced
      rfl
    · cases sliced

/-- A map whose every step, when it returns, returns `g` of its element and leaves the state,
returns the map of `g`. -/
theorem run_mapM_ok {ε σ α β : Type} {f : α → EStateM ε σ β} (g : α → β) :
    ∀ (xs : List α) {s s' : σ} {ys : List β}, (∀ x ∈ xs, ∀ s0 b s1, f x s0 = .ok b s1 → b = g x ∧ s1 = s0) →
    xs.mapM f s = .ok ys s' → ys = xs.map g ∧ s' = s
  | [], s, s', ys, _, run => by
    cases run
    exact ⟨rfl, rfl⟩
  | x :: rest, s, s', ys, each, run => by
    rw [List.mapM_cons] at run
    cases first : f x s with
    | error e t =>
      rw [run_bind_error first] at run
      cases run
    | ok b t =>
      obtain ⟨rfl, back⟩ := each x List.mem_cons_self s b t first
      rw [run_bind_ok first, back] at run
      cases later : rest.mapM f s with
      | error e u =>
        rw [run_bind_error later] at run
        cases run
      | ok zs u =>
        rw [run_bind_ok later] at run
        obtain ⟨rfl, rfl⟩ := run_mapM_ok g rest (fun y member => each y (List.mem_cons_of_mem _ member)) later
        cases run
        exact ⟨rfl, rfl⟩

theorem run_bind_eq_ok {ε σ α β : Type} {m : EStateM ε σ α} {k : α → EStateM ε σ β} {s s' : σ} {b : β}
    (run : (m >>= k) s = .ok b s') : ∃ a t, m s = .ok a t ∧ k a t = .ok b s' := by
  cases first : m s with
  | ok a t => exact ⟨a, t, rfl, by rwa [run_bind_ok first] at run⟩
  | error e t =>
    rw [run_bind_error first] at run
    cases run

namespace Schedule.Faithful

variable {ε σ α : Type} {S : Schedule σ}

end Schedule.Faithful

namespace Pool

open Storage

/-- Without fault injection, loading blocks either fails or gives a cache that agrees with the
records. -/
theorem loadAll_calm {st : Storage} (steady : st.Steady) : ∀ (spans : List Span) (cache : Table BlockId Block),
    (∀ X b, cache.get? X = some b → st.data.blocks.get? X = some b) →
    (∃ f, loadAll spans cache st = .error f st) ∨
    ∃ cache', loadAll spans cache st = .ok cache' st ∧ ∀ X b, cache'.get? X = some b → st.data.blocks.get? X = some b
  | [], cache, agree => .inr ⟨cache, rfl, agree⟩
  | s :: rest, cache, agree => by
    unfold loadAll
    split
    · exact loadAll_calm steady rest cache agree
    · rw [run_bind_ok (Storage.loadBlock_steady steady.calm _)]
      cases found : st.data.blocks.get? s.block with
      | none => exact .inl ⟨_, rfl⟩
      | some b =>
        have ident : b.id = s.block := steady.indexed.ids _ _ found
        refine loadAll_calm steady rest (cache.insert b.id b) fun X c hit => ?_
        rw [Table.get?_insert] at hit
        split at hit
        · rename_i here
          cases hit
          rw [← here, ident]
          exact found
        · exact agree X c hit

/-- Without fault injection, a read that returns gives, span by span, what `g` reads off the
block the records hold under the span. -/
theorem read_by {st : Storage} (steady : st.Steady) (g : Span → List UInt8)
    (slices : ∀ s b, st.data.blocks.get? s.block = some b → (b.bytes.drop s.start).take s.len = g s)
    (spans : List Span) {m : Material} {st' : Storage} (run : read spans st = .ok m st') :
    m = Material.concat (spans.map g) := by
  unfold read at run
  rcases loadAll_calm steady spans {} (by simp) with ⟨f, failed⟩ | ⟨cache, loaded, agree⟩
  · rw [run_bind_error failed] at run
    cases run
  rw [run_bind_ok loaded] at run
  obtain ⟨parts, t, mapped, done⟩ := run_bind_eq_ok run
  -- each part read is the slice of its span's block, which the cache holds as the records do
  have sliced := run_mapM_ok g spans ?_ mapped
  · rw [sliced.1] at done
    cases done
    rfl
  intro s _ s0 part s1 ran
  revert ran
  cases hit : cache.get? s.block with
  | none =>
    intro ran
    cases ran
  | some b =>
    intro ran
    have ran : (EStateM.ofExcept (b.slice s) : StoreM (List UInt8)) s0 = .ok part s1 := ran
    cases slice : b.slice s with
    | error f =>
      rw [slice, run_ofExcept_error] at ran
      cases ran
    | ok q =>
      rw [slice, run_ofExcept_ok] at ran
      cases ran
      exact ⟨(Block.slice_ok slice).trans (slices s b (agree _ _ hit)), rfl⟩

theorem releaseRange_cons (s : Span) (rest : List Span) :
    releaseRange (s :: rest) = releaseRange [s] >>= fun _ => releaseRange rest := by
  simp only [releaseRange, List.forM, bind_assoc, pure_bind]

end Pool

namespace Store.Released

/-- Writing back a stored block with one reference fewer drops the reference of a span on it. -/
theorem written {st : Storage} (ix : st.data.Indexed) {s : Span} {b : Block}
    (found : st.data.blocks.get? s.block = some b) : Released [s] st.data (st.written b.release).data := by
  have ident : b.id = s.block := ix.ids _ _ found
  have stored : st.data.blocks.get? b.release.id = some b := by simpa [Block.release, ident] using found
  have here : st.data.blocks.get? b.id = some b := ident ▸ found
  refine ⟨Storage.onlyBlocks_written st b.release, ((Storage.steady_calm ix).written stored rfl).indexed, ?_, fun X => ?_⟩
  · rw [Storage.bare_written stored, Function.update_eq_self_iff]
    simp [Store.bare, here, Block.release, Block.bare]
  · have count : st.data.refs s.block = b.inUse := by simp [Store.refs, found]
    rw [Storage.refs_written stored, onBlock_cons, onBlock_nil]
    by_cases same : s.block = X
    · subst same
      simp only [Block.release, ident, if_true, count]
    · simp [Block.release, ident, same]

end Store.Released

namespace Pool

open Storage

/-- Dropping the reference of one span on scheduled records: the failure is met in one of the two
operations it makes, leaving the records as they were, or the reference goes. -/
theorem releaseOne_scheduled (s : Span) {st : Storage} (sched : st.Scheduled) (ix : st.data.Indexed) :
    (∃ f t, releaseRange [s] st = .error f t ∧ t.data = st.data ∧ t.Scheduled ∧ st.Armed ∧ ¬ t.Armed) ∨
    ∃ t, releaseRange [s] st = .ok () t ∧ t.Scheduled ∧ (t.Armed ↔ st.Armed) ∧ Store.Released [s] st.data t.data := by
  unfold releaseRange
  rw [run_forM_cons, bind_assoc]
  rcases loadBlock_scheduled s.block sched with
    ⟨armed, f, t, failed, same, sched1, spent⟩ | ⟨t, loaded, same, sched1, arming⟩
  · exact .inl ⟨f, t, run_bind_error failed, same, sched1, armed, spent⟩
  rw [run_bind_ok loaded]
  cases found : st.data.blocks.get? s.block with
  | none => exact .inr ⟨t, rfl, sched1, arming, (Store.Released.of_eq ix same).skip found⟩
  | some b =>
    have ident : b.id = s.block := ix.ids _ _ found
    have stored : t.data.blocks.get? b.release.id = some b := by simpa [Block.release, ident, same] using found
    rcases updateBlock_scheduled sched1 stored rfl with
      ⟨armed, f, t', failed, same', sched2, spent⟩ | ⟨t', written, same', sched2, arming'⟩
    · exact .inl ⟨f, t', run_bind_error failed, same'.trans same, sched2, arming.mp armed, spent⟩
    · refine .inr ⟨t', run_bind_ok written, sched2, arming'.trans arming, ?_⟩
      rw [same']
      have released := Store.Released.written (same ▸ ix : t.data.Indexed) (same ▸ found : t.data.blocks.get? s.block = some b)
      rw [same] at released
      exact released

/-- Dropping the references of spans on scheduled records: every reference goes, the failure still
to come exactly when it was; or the failure is met once the references of some first spans are
gone, and the run fails there. -/
theorem releaseRange_scheduled : ∀ (spans : List Span) {st : Storage}, st.Scheduled → st.data.Indexed →
    (∃ t, releaseRange spans st = .ok () t ∧ t.Scheduled ∧ (t.Armed ↔ st.Armed) ∧
      Store.Released spans st.data t.data) ∨
    ∃ f t A, releaseRange spans st = .error f t ∧ t.Scheduled ∧ st.Armed ∧ ¬ t.Armed ∧ A <+: spans ∧
      Store.Released A st.data t.data
  | [], st, sched, ix => .inl ⟨st, rfl, sched, Iff.rfl, .nil ix⟩
  | s :: rest, st, sched, ix => by
    rw [releaseRange_cons]
    rcases releaseOne_scheduled s sched ix with
      ⟨f, t, failed, same, sched1, armed, spent⟩ | ⟨t, first, sched1, arming, released⟩
    · exact .inr ⟨f, t, [], run_bind_error failed, sched1, armed, spent, List.nil_prefix, .of_eq ix same⟩
    rw [run_bind_ok first]
    rcases releaseRange_scheduled rest sched1 released.indexed with
      ⟨t', run, sched2, arming', released'⟩ | ⟨f, t', A, failed, sched2, armed, spent, first, released'⟩
    · exact .inl ⟨t', run, sched2, arming'.trans arming, released.trans released'⟩
    · exact .inr ⟨f, t', s :: A, failed, sched2, arming.mp armed, spent, (List.prefix_cons_inj s).mpr first,
        released.trans released'⟩

end Pool

/-! ### Taking rows and putting them back -/

namespace Engine

open Storage

end Engine

/-! ### Replaying rows -/

namespace Engine

open Storage

/-- Ids with no repeat pass the check for one. -/
theorem nodup_of_firstRepeat : ∀ (keys seen : List KeyId), firstRepeat keys seen = none →
    keys.Nodup ∧ ∀ k ∈ keys, k ∉ seen
  | [], _, _ => ⟨.nil, by simp⟩
  | k :: rest, seen, none' => by
    unfold firstRepeat at none'
    split at none'
    · cases none'
    · rename_i fresh
      obtain ⟨distinct, unseen⟩ := nodup_of_firstRepeat rest (k :: seen) none'
      refine ⟨List.nodup_cons.mpr ⟨fun member => unseen k member List.mem_cons_self, distinct⟩, fun k' member => ?_⟩
      rcases List.mem_cons.mp member with rfl | later
      · simpa using fresh
      · exact fun inSeen => unseen k' later (List.mem_cons_of_mem _ inSeen)

end Engine

/-! ### Taking keys from the clear -/

namespace Engine

open Storage

end Engine

namespace Engine

open Storage

end Engine

/-! ### All or nothing -/

namespace Engine

/-- A run that fails with `P` or returns with `Q`, read as what each outcome gives. -/
theorem outcome_cases {α : Type} {r : EStateM.Result Fault (Env × Storage) α} {e : Env}
    {P : Fault → Storage → Prop} {Q : α → Storage → Prop}
    (outcome : (∃ f t, r = .error f (e, t) ∧ P f t) ∨ ∃ a t, r = .ok a (e, t) ∧ Q a t) :
    (∀ f s, r = .error f s → P f s.2) ∧ ∀ a s, r = .ok a s → Q a s.2 := by
  rcases outcome with ⟨f, t, failed, holds⟩ | ⟨a, t, returned, holds⟩
  · refine ⟨fun f' s failed' => ?_, fun a s returned' => ?_⟩
    · rw [failed] at failed'
      cases failed'
      exact holds
    · rw [failed] at returned'
      cases returned'
  · refine ⟨fun f s failed' => ?_, fun a' s returned' => ?_⟩
    · rw [returned] at failed'
      cases failed'
    · rw [returned] at returned'
      cases returned'
      exact holds

end Engine

end KeyRelay
