import KeyRelay.Proofs.Footprint

/-! Records behind fault injection that fails nothing by chance, only the operation scheduled:
a probability of zero. Up to that operation such records answer as the same records without
fault injection do; the scheduled operation fails and leaves the records as they were, and no
operation after it fails. So every run of a computation either mirrors its run on the records
without fault injection (`Schedule.Mirrors`), up to the injector's own count, or meets the
scheduled failure and spends it (`Schedule.Faithful`). -/

namespace KeyRelay

/-- A probability of zero lies above no draw. -/
theorem Chaos.below_zero (seed : Nat) : Chaos.below seed 0 = false := by
  have positive : Binary.double.negative 0 = false := by decide
  have nothing : Binary.double.magnitude 0 = .finite 0 (-1074) := by decide
  simp only [Chaos.below, UInt64.toNat_zero, positive, nothing, Bool.false_eq_true, if_false]
  rw [if_neg (by decide)]
  exact decide_eq_false (Nat.not_lt_zero _)

/-- With nothing failing by chance, counting an operation fails it exactly when it is the one
scheduled. -/
theorem Chaos.check_scheduled (c : Chaos) (zero : c.rate = 0) (operation : String) (write : Bool) :
    ∃ c', c.check operation write = (c', if c.failOn = some (c.operations + 1) then
        some (.io ("scheduled failure injection (" ++ operation ++ ")")) else none) ∧
      c'.rate = 0 ∧ c'.operations = c.operations + 1 ∧ c'.failOn = c.failOn := by
  unfold Chaos.check
  dsimp only
  by_cases due : c.failOn = some (c.operations + 1)
  · simp only [due, if_true]
    exact ⟨_, rfl, zero, rfl, rfl⟩
  · simp only [due, if_false, zero, below_zero]
    split
    · exact ⟨_, rfl, rfl, rfl, rfl⟩
    · exact ⟨_, rfl, rfl, rfl, rfl⟩

/-! ### Runs that mirror the runs without fault injection -/

/-- How a state shows fault injection that fails only a scheduled operation: whether the state
is such (`scheduled`), whether its failure is still to come (`armed`), and the same state
without fault injection (`calm`). -/
structure Schedule (σ : Type) where
  scheduled : σ → Prop
  armed : σ → Prop
  calm : σ → σ

namespace Schedule

variable {ε σ α β : Type} (S : Schedule σ)

/-- A run that is the run from the calm state, up to the injector's own state. -/
def Mirrors : EStateM.Result ε σ α → EStateM.Result ε σ α → Prop
  | .ok a t, .ok a' t' => a = a' ∧ S.calm t = t'
  | .error e t, .error e' t' => e = e' ∧ S.calm t = t'
  | _, _ => False

/-- From a scheduled state every run ends scheduled, and either mirrors the run from the calm
state, its failure still to come exactly when it was, or spends the scheduled failure. -/
def Faithful (m : EStateM ε σ α) : Prop :=
  ∀ s, S.scheduled s → S.scheduled (endState (m s)) ∧
    ((S.Mirrors (m s) (m (S.calm s)) ∧ (S.armed (endState (m s)) ↔ S.armed s)) ∨
      (S.armed s ∧ ¬ S.armed (endState (m s))))

variable {S}

theorem mirrors_ok {r : EStateM.Result ε σ α} {a : α} {t : σ} (mirror : S.Mirrors (.ok a t) r) :
    r = .ok a (S.calm t) := by
  cases r with
  | ok a' t' =>
    obtain ⟨rfl, rfl⟩ := mirror
    rfl
  | error e' t' => exact mirror.elim

theorem mirrors_error {r : EStateM.Result ε σ α} {e : ε} {t : σ} (mirror : S.Mirrors (.error e t) r) :
    r = .error e (S.calm t) := by
  cases r with
  | ok a' t' => exact mirror.elim
  | error e' t' =>
    obtain ⟨rfl, rfl⟩ := mirror
    rfl

theorem mirrors_self_ok (a : α) (t : σ) : S.Mirrors (.ok a t : EStateM.Result ε σ α) (.ok a (S.calm t)) :=
  ⟨rfl, rfl⟩

theorem mirrors_self_error (e : ε) (t : σ) :
    S.Mirrors (.error e t : EStateM.Result ε σ α) (.error e (S.calm t)) :=
  ⟨rfl, rfl⟩

namespace Faithful

/-- From a state whose failure is spent, a run mirrors the calm run and arms nothing. -/
theorem mirrors {m : EStateM ε σ α} (faithful : S.Faithful m) {s : σ} (sched : S.scheduled s)
    (spent : ¬ S.armed s) : S.Mirrors (m s) (m (S.calm s)) ∧ ¬ S.armed (endState (m s)) := by
  obtain ⟨-, ⟨mirror, arming⟩ | ⟨armed, -⟩⟩ := faithful s sched
  · exact ⟨mirror, fun armed => spent (arming.mp armed)⟩
  · exact absurd armed spent

theorem pure (a : α) : S.Faithful (Pure.pure a : EStateM ε σ α) :=
  fun _ sched => ⟨sched, .inl ⟨mirrors_self_ok a _, Iff.rfl⟩⟩

theorem throw (e : ε) : S.Faithful (MonadExcept.throw e : EStateM ε σ α) :=
  fun _ sched => ⟨sched, .inl ⟨mirrors_self_error e _, Iff.rfl⟩⟩

theorem throw_bind (e : ε) (f : α → EStateM ε σ β) : S.Faithful (MonadExcept.throw e >>= f) :=
  fun _ sched => ⟨sched, .inl ⟨mirrors_self_error e _, Iff.rfl⟩⟩

theorem bind {m : EStateM ε σ α} {f : α → EStateM ε σ β} (first : S.Faithful m)
    (rest : ∀ a, S.Faithful (f a)) : S.Faithful (m >>= f) := by
  intro s sched
  obtain ⟨sched1, outcome1⟩ := first s sched
  cases run : m s with
  | error e t =>
    rw [run, endState_error] at sched1 outcome1
    rw [run_bind_error run, endState_error]
    refine ⟨sched1, ?_⟩
    rcases outcome1 with ⟨mirror, arming⟩ | fired
    · rw [run_bind_error (mirrors_error mirror)]
      exact .inl ⟨mirrors_self_error e t, arming⟩
    · exact .inr fired
  | ok a t =>
    rw [run, endState_ok] at sched1 outcome1
    rw [run_bind_ok run]
    obtain ⟨sched2, outcome2⟩ := rest a t sched1
    refine ⟨sched2, ?_⟩
    rcases outcome1 with ⟨mirror, arming⟩ | ⟨armed, spent⟩
    · rw [run_bind_ok (mirrors_ok mirror)]
      rcases outcome2 with ⟨mirror2, arming2⟩ | ⟨armed2, spent2⟩
      · exact .inl ⟨mirror2, arming2.trans arming⟩
      · exact .inr ⟨arming.mp armed2, spent2⟩
    · -- the failure is spent, so the rest cannot meet it again
      rcases outcome2 with ⟨-, arming2⟩ | ⟨armed2, -⟩
      · exact .inr ⟨armed, fun armed' => spent (arming2.mp armed')⟩
      · exact absurd armed2 spent

theorem tryCatch {m : EStateM ε σ α} {handler : ε → EStateM ε σ α} (first : S.Faithful m)
    (recover : ∀ e, S.Faithful (handler e)) : S.Faithful (tryCatch m handler) := by
  intro s sched
  obtain ⟨sched1, outcome1⟩ := first s sched
  cases run : m s with
  | ok a t =>
    rw [run, endState_ok] at sched1 outcome1
    rw [run_tryCatch_ok run, endState_ok]
    refine ⟨sched1, ?_⟩
    rcases outcome1 with ⟨mirror, arming⟩ | fired
    · rw [run_tryCatch_ok (mirrors_ok mirror)]
      exact .inl ⟨mirrors_self_ok a t, arming⟩
    · exact .inr fired
  | error e t =>
    rw [run, endState_error] at sched1 outcome1
    rw [run_tryCatch_error run]
    obtain ⟨sched2, outcome2⟩ := recover e t sched1
    refine ⟨sched2, ?_⟩
    rcases outcome1 with ⟨mirror, arming⟩ | ⟨armed, spent⟩
    · rw [run_tryCatch_error (mirrors_error mirror)]
      rcases outcome2 with ⟨mirror2, arming2⟩ | ⟨armed2, spent2⟩
      · exact .inl ⟨mirror2, arming2.trans arming⟩
      · exact .inr ⟨arming.mp armed2, spent2⟩
    · rcases outcome2 with ⟨-, arming2⟩ | ⟨armed2, -⟩
      · exact .inr ⟨armed, fun armed' => spent (arming2.mp armed')⟩
      · exact absurd armed2 spent

theorem ite (c : Prop) [Decidable c] {m m' : EStateM ε σ α} (yes : S.Faithful m) (no : S.Faithful m') :
    S.Faithful (if c then m else m') := by
  split
  · exact yes
  · exact no

theorem ofExcept (r : Except ε α) : S.Faithful (EStateM.ofExcept r : EStateM ε σ α) := by
  cases r
  · exact throw _
  · exact pure _

theorem attempt {m : EStateM ε σ Unit} (inner : S.Faithful m) : S.Faithful (EStateM.attempt m) :=
  tryCatch inner fun _ => pure _

theorem forM (xs : List α) {f : α → EStateM ε σ PUnit} (each : ∀ x ∈ xs, S.Faithful (f x)) :
    S.Faithful (xs.forM f) := by
  induction xs with
  | nil => exact pure _
  | cons x rest ih =>
    show S.Faithful (f x >>= fun _ => rest.forM f)
    exact bind (each x (by simp)) fun _ => ih fun y member => each y (by simp [member])

theorem mapM (xs : List α) {f : α → EStateM ε σ β} (each : ∀ x ∈ xs, S.Faithful (f x)) :
    S.Faithful (xs.mapM f) := by
  induction xs with
  | nil => exact pure _
  | cons x rest ih =>
    rw [List.mapM_cons]
    exact bind (each x (by simp)) fun _ =>
      bind (ih fun y member => each y (by simp [member])) fun _ => pure _

theorem foldlM (xs : List α) {f : β → α → EStateM ε σ β} (each : ∀ b, ∀ x ∈ xs, S.Faithful (f b x))
    (init : β) : S.Faithful (xs.foldlM f init) := by
  induction xs generalizing init with
  | nil => exact pure _
  | cons x rest ih =>
    rw [List.foldlM_cons]
    exact bind (each init x (by simp)) fun b => ih (fun c y member => each c y (by simp [member])) b

end Faithful

/-- Runs that spend the scheduled failure fail. -/
def Raises (m : EStateM ε σ α) : Prop :=
  ∀ s, S.scheduled s → S.armed s → ¬ S.armed (endState (m s)) → ∃ e t, m s = .error e t

namespace Raises

theorem pure (a : α) : S.Raises (Pure.pure a : EStateM ε σ α) :=
  fun _ _ armed spent => absurd armed spent

theorem throw (e : ε) : S.Raises (MonadExcept.throw e : EStateM ε σ α) :=
  fun s _ _ _ => ⟨e, s, rfl⟩

/-- A faithful first part passes the failure it spends on, or the state still to spend it. -/
theorem bind {m : EStateM ε σ α} {f : α → EStateM ε σ β} (faithful : S.Faithful m) (first : S.Raises m)
    (rest : ∀ a, S.Raises (f a)) : S.Raises (m >>= f) := by
  intro s sched armed spent
  cases run : m s with
  | error e t => exact ⟨e, t, run_bind_error run⟩
  | ok a t =>
    rw [run_bind_ok run] at spent ⊢
    obtain ⟨sched1, outcome⟩ := faithful s sched
    rw [run, endState_ok] at sched1 outcome
    rcases outcome with ⟨-, arming⟩ | ⟨-, spent1⟩
    · exact rest a t sched1 (arming.mpr armed) spent
    · obtain ⟨e, t', failed⟩ := first s sched armed (by rw [run]; exact spent1)
      rw [run] at failed
      cases failed

theorem ofExcept (r : Except ε α) : S.Raises (EStateM.ofExcept r : EStateM ε σ α) := by
  cases r
  · exact throw _
  · exact pure _

theorem mapM (xs : List α) {f : α → EStateM ε σ β} (each : ∀ x ∈ xs, S.Faithful (f x) ∧ S.Raises (f x)) :
    S.Raises (xs.mapM f) := by
  induction xs with
  | nil => exact pure _
  | cons x rest ih =>
    rw [List.mapM_cons]
    exact bind (each x (by simp)).1 (each x (by simp)).2 fun _ =>
      bind (Faithful.mapM rest fun y member => (each y (by simp [member])).1)
        (ih fun y member => each y (by simp [member])) fun _ => pure _

end Raises

end Schedule

/-! ### Records behind fault injection that fails a scheduled operation only -/

namespace Storage

/-- Fault injection in front of the records, if any, fails nothing by chance. -/
def Scheduled (st : Storage) : Prop := ∀ c, st.chaos = some c → c.rate = 0

/-- A failure is scheduled for an operation still to come. -/
def Armed (st : Storage) : Prop := ∃ c n, st.chaos = some c ∧ c.failOn = some n ∧ c.operations < n

/-- The same records without fault injection. -/
def calm (st : Storage) : Storage := { st with chaos := none }

@[simp] theorem calm_data (st : Storage) : st.calm.data = st.data := rfl

/-- Records of a node seen through their fault injection. -/
def schedule : Schedule Storage := ⟨Scheduled, Armed, calm⟩

theorem steady_calm {st : Storage} (ix : st.data.Indexed) : st.calm.Steady := ⟨rfl, ix⟩

theorem not_armed_of_calm {st : Storage} (calm : st.chaos = none) : ¬ st.Armed := by
  rintro ⟨c, n, present, -⟩
  rw [calm] at present
  cases present

theorem scheduled_of_calm {st : Storage} (calm : st.chaos = none) : st.Scheduled := by
  intro c present
  rw [calm] at present
  cases present

/-- An operation on scheduled records is either the one scheduled, which fails and leaves the
records as they were with nothing more to fail, or runs as without fault injection, its failure
still to come exactly when it was. -/
theorem call_scheduled {α : Type} (operation : String) (write : Bool)
    (f : Store → Except StoreError (α × Store)) {st : Storage} (sched : st.Scheduled) :
    (st.Armed ∧ ∃ e t, call operation write f st = .error e t ∧ t.data = st.data ∧ t.Scheduled ∧ ¬ t.Armed) ∨
    (schedule.Mirrors (call operation write f st) (call operation write f st.calm) ∧
      (endState (call operation write f st)).Scheduled ∧ ((endState (call operation write f st)).Armed ↔ st.Armed)) := by
  obtain ⟨backend, data, chaos⟩ := st
  cases chaos with
  | none =>
    refine .inr ⟨?_, ?_, iff_of_false (fun armed => ?_) (not_armed_of_calm rfl)⟩
    · show schedule.Mirrors _ (call operation write f ⟨backend, data, none⟩)
      rw [call_steady rfl]
      split
      · exact Schedule.mirrors_self_ok (S := schedule) _ _
      · exact Schedule.mirrors_self_error (S := schedule) _ _
    · rw [call_steady rfl]
      split <;> exact scheduled_of_calm rfl
    · rw [call_steady rfl] at armed
      split at armed <;> exact absurd armed (not_armed_of_calm rfl)
  | some c =>
    obtain ⟨c', check, zero', counted, kept⟩ := Chaos.check_scheduled c (sched c rfl) operation write
    have scheduled' : ∀ data', Scheduled { backend, data := data', chaos := some c' } := by
      intro data' c'' present
      cases present
      exact zero'
    rw [show calm ⟨backend, data, some c⟩ = ⟨backend, data, none⟩ from rfl,
      call_steady (show (⟨backend, data, none⟩ : Storage).chaos = none from rfl)]
    unfold call
    simp only [check]
    by_cases due : c.failOn = some (c.operations + 1)
    · -- the scheduled operation: it fails and the failure is spent
      simp only [due, if_true]
      refine .inl ⟨⟨c, c.operations + 1, rfl, due, Nat.lt_succ_self _⟩, _, _, rfl, rfl, scheduled' data, ?_⟩
      rintro ⟨c'', n, present, failOn, ahead⟩
      cases present
      rw [kept, due] at failOn
      cases failOn
      omega
    · simp only [due, if_false]
      -- an operation before or after the scheduled one runs as without fault injection
      have arming : ∀ data', Armed { backend, data := data', chaos := some c' } ↔
          Armed { backend, data, chaos := some c } := by
        intro data'
        constructor
        · rintro ⟨c'', n, present, failOn, ahead⟩
          cases present
          exact ⟨c, n, rfl, kept ▸ failOn, by omega⟩
        · rintro ⟨c'', n, present, failOn, ahead⟩
          cases present
          have other : n ≠ c.operations + 1 := fun same => due (same ▸ failOn)
          exact ⟨c', n, rfl, kept ▸ failOn, by omega⟩
      refine .inr ?_
      cases run : f data with
      | ok result =>
        obtain ⟨a, d⟩ := result
        exact ⟨Schedule.mirrors_self_ok (S := schedule) _ _, scheduled' d, arming d⟩
      | error e => exact ⟨Schedule.mirrors_self_error (S := schedule) _ _, scheduled' data, arming data⟩

theorem faithful_call {α : Type} (operation : String) (write : Bool)
    (f : Store → Except StoreError (α × Store)) : schedule.Faithful (call operation write f) := by
  intro st sched
  rcases call_scheduled operation write f sched with ⟨armed, e, t, run, -, sched', spent⟩ | ⟨mirror, sched', arming⟩
  · rw [run]
    exact ⟨sched', .inr ⟨armed, spent⟩⟩
  · exact ⟨sched', .inl ⟨mirror, arming⟩⟩

theorem faithful_read {α : Type} (operation : String) (f : Store → α) : schedule.Faithful (read operation f) :=
  faithful_call _ _ _

theorem faithful_write {α : Type} (operation : String) (f : Store → α × Store) :
    schedule.Faithful (write operation f) :=
  faithful_call _ _ _

theorem faithful_updateBlock (b : Block) : schedule.Faithful (updateBlock b) := faithful_call _ _ _

theorem raises_call {α : Type} (operation : String) (write : Bool) (f : Store → Except StoreError (α × Store)) :
    schedule.Raises (call operation write f) := by
  intro st sched armed spent
  rcases call_scheduled operation write f sched with ⟨-, e, t, run, -⟩ | ⟨-, -, arming⟩
  · exact ⟨e, t, run⟩
  · exact absurd (arming.mpr armed) spent

theorem raises_read {α : Type} (operation : String) (f : Store → α) : schedule.Raises (read operation f) :=
  raises_call _ _ _

end Storage

/-! ### Records as they were -/

namespace Store

/-- Contents that differ from `d` at most in the records of the blocks: the index of the blocks
and every other table are those of `d`. -/
def OnlyBlocks (d d' : Store) : Prop := d' = { d with blocks := d'.blocks }

theorem OnlyBlocks.refl (d : Store) : OnlyBlocks d d := rfl

theorem OnlyBlocks.trans {a b c : Store} (first : OnlyBlocks a b) (second : OnlyBlocks b c) : OnlyBlocks a c := by
  unfold OnlyBlocks at *
  rw [second, first]

/-- Contents that hold each block as `d` does, its cursor and its count, and otherwise the
tables of `d`. -/
structure Restored (d d' : Store) : Prop where
  only : OnlyBlocks d d'
  blocks : ∀ X, d'.blocks.get? X = d.blocks.get? X

theorem Restored.refl (d : Store) : Restored d d := ⟨OnlyBlocks.refl d, fun _ => rfl⟩

theorem Restored.trans {a b c : Store} (first : Restored a b) (second : Restored b c) : Restored a c :=
  ⟨first.only.trans second.only, fun X => (second.blocks X).trans (first.blocks X)⟩

theorem Restored.of_eq {d d' : Store} (same : d' = d) : Restored d d' := same ▸ Restored.refl d

theorem Restored.indexed {d d' : Store} (restored : Restored d d') (ix : d.Indexed) : d'.Indexed := by
  have chain : d'.chain = d.chain := by rw [restored.only]
  refine ⟨chain ▸ ix.chainKeys, fun k X member => ?_, fun X b found => ?_⟩
  · rw [chain] at member
    simpa [restored.blocks] using ix.chained k X member
  · rw [restored.blocks] at found
    exact ix.ids X b found

theorem Restored.bare {d d' : Store} (restored : Restored d d') : d'.bare = d.bare := by
  funext X
  simp [Store.bare, restored.blocks X]

theorem Restored.refs {d d' : Store} (restored : Restored d d') (X : BlockId) : d'.refs X = d.refs X := by
  simp [Store.refs, restored.blocks X]

/-- Blocks read back as they were, references included, are the blocks as they were. -/
theorem restored_of {d d' : Store} (only : OnlyBlocks d d') (bare : d'.bare = d.bare)
    (refs : ∀ X, d'.refs X = d.refs X) : Restored d d' := by
  refine ⟨only, fun X => ?_⟩
  have sameBare := congrFun bare X
  have sameRefs := refs X
  simp only [Store.bare, Store.refs] at sameBare sameRefs
  cases found' : d'.blocks.get? X with
  | none =>
    rw [found'] at sameBare
    cases found : d.blocks.get? X with
    | none => rfl
    | some b => rw [found] at sameBare; cases sameBare
  | some b' =>
    rw [found'] at sameBare sameRefs
    cases found : d.blocks.get? X with
    | none => rw [found] at sameBare; cases sameBare
    | some b =>
      rw [found] at sameBare sameRefs
      simp only [Option.map_some, Option.some.injEq, Option.getD_some] at sameBare sameRefs
      cases b
      cases b'
      simp_all [Block.bare]

end Store

namespace Storage

/-- A run that spends the scheduled failure fails, leaving the records as they were. -/
def Atomic {α : Type} (m : StoreM α) : Prop :=
  ∀ st, st.Scheduled → st.Armed → ¬ (endState (m st)).Armed →
    ∃ e t, m st = .error e t ∧ Store.Restored st.data t.data

theorem atomic_call {α : Type} (operation : String) (write : Bool) (f : Store → Except StoreError (α × Store)) :
    Atomic (call operation write f) := by
  intro st sched armed spent
  rcases call_scheduled operation write f sched with ⟨-, e, t, run, same, -⟩ | ⟨-, -, arming⟩
  · exact ⟨e, t, run, .of_eq same⟩
  · exact absurd (arming.mpr armed) spent

/-- A read followed by an atomic computation is atomic: the read either meets the failure itself
or leaves the records and the failure as they were. -/
theorem Atomic.read_bind {α β : Type} {operation : String} {g : Store → α} {f : α → StoreM β}
    (rest : ∀ a, Atomic (f a)) : Atomic (read operation g >>= f) := by
  intro st sched armed spent
  rcases call_scheduled operation false (fun s => .ok (g s, s)) sched with
    ⟨-, e, t, run, same, -⟩ | ⟨mirror, sched1, arming⟩
  · exact ⟨e, t, by unfold read; rw [run_bind_error run], .of_eq same⟩
  · have calmRun : read operation g st.calm = .ok (g st.data) st.calm := read_steady rfl _ _
    unfold read at calmRun spent ⊢
    rw [calmRun] at mirror
    cases run : call operation false (fun s => .ok (g s, s)) st with
    | error e t =>
      rw [run] at mirror
      exact mirror.elim
    | ok a t =>
      rw [run, endState_ok] at sched1 arming
      rw [run] at mirror
      obtain ⟨rfl, calmed⟩ := mirror
      have same : t.data = st.data := by
        have := congrArg Storage.data calmed
        exact this
      rw [run_bind_ok run] at spent ⊢
      obtain ⟨e, t', failed, restored⟩ := rest _ t sched1 (arming.mpr armed) spent
      exact ⟨e, t', failed, same ▸ restored⟩

end Storage

namespace Storage

/-- The records without fault injection that a calm state stands for hold the same contents. -/
theorem data_of_calm {t t' : Storage} (calmed : t.calm = t') : t.data = t'.data := by
  rw [← calmed]
  rfl

/-- A run that mirrors one without fault injection that returns, returns the same, on the same
records. -/
theorem ok_of_mirrors {α : Type} {m : StoreM α} {st : Storage} (mirror : schedule.Mirrors (m st) (m st.calm))
    {a : α} {t' : Storage} (calmRun : m st.calm = .ok a t') : ∃ t, m st = .ok a t ∧ t.calm = t' := by
  rw [calmRun] at mirror
  cases run : m st with
  | ok a' t =>
    rw [run] at mirror
    obtain ⟨rfl, calmed⟩ := mirror
    exact ⟨t, rfl, calmed⟩
  | error e t =>
    rw [run] at mirror
    exact mirror.elim

/-- A run that mirrors one without fault injection that fails, fails the same way, on the same
records. -/
theorem error_of_mirrors {α : Type} {m : StoreM α} {st : Storage} (mirror : schedule.Mirrors (m st) (m st.calm))
    {e : Fault} {t' : Storage} (calmRun : m st.calm = .error e t') : ∃ t, m st = .error e t ∧ t.calm = t' := by
  rw [calmRun] at mirror
  cases run : m st with
  | ok a t =>
    rw [run] at mirror
    exact mirror.elim
  | error e' t =>
    rw [run] at mirror
    obtain ⟨rfl, calmed⟩ := mirror
    exact ⟨t, rfl, calmed⟩

/-- An operation whose function returns on the records is, on scheduled records, either the
scheduled failure or returns as without fault injection, its failure still to come exactly when
it was. -/
theorem call_returns {α : Type} (operation : String) (write : Bool) (f : Store → Except StoreError (α × Store))
    {st : Storage} (sched : st.Scheduled) {a : α} {d : Store} (returns : f st.data = .ok (a, d)) :
    (st.Armed ∧ ∃ e t, call operation write f st = .error e t ∧ t.data = st.data ∧ t.Scheduled ∧ ¬ t.Armed) ∨
    ∃ t, call operation write f st = .ok a t ∧ t.data = d ∧ t.Scheduled ∧ (t.Armed ↔ st.Armed) := by
  rcases call_scheduled operation write f sched with fired | ⟨mirror, sched1, arming⟩
  · exact .inl fired
  · have calmRun : call operation write f st.calm = .ok a { st.calm with data := d } := by
      rw [call_steady rfl, calm_data, returns]
    obtain ⟨t, run, calmed⟩ := ok_of_mirrors mirror calmRun
    rw [run, endState_ok] at sched1 arming
    exact .inr ⟨t, run, data_of_calm calmed, sched1, arming⟩

theorem read_scheduled {α : Type} (operation : String) (f : Store → α) {st : Storage} (sched : st.Scheduled) :
    (st.Armed ∧ ∃ e t, read operation f st = .error e t ∧ t.data = st.data ∧ t.Scheduled ∧ ¬ t.Armed) ∨
    ∃ t, read operation f st = .ok (f st.data) t ∧ t.data = st.data ∧ t.Scheduled ∧ (t.Armed ↔ st.Armed) :=
  call_returns operation false _ sched rfl

theorem write_scheduled {α : Type} (operation : String) (f : Store → α × Store) {st : Storage} (sched : st.Scheduled) :
    (st.Armed ∧ ∃ e t, write operation f st = .error e t ∧ t.data = st.data ∧ t.Scheduled ∧ ¬ t.Armed) ∨
    ∃ t, write operation f st = .ok (f st.data).1 t ∧ t.data = (f st.data).2 ∧ t.Scheduled ∧ (t.Armed ↔ st.Armed) :=
  call_returns operation true _ sched rfl

theorem loadBlock_scheduled (X : BlockId) {st : Storage} (sched : st.Scheduled) :
    (st.Armed ∧ ∃ e t, loadBlock X st = .error e t ∧ t.data = st.data ∧ t.Scheduled ∧ ¬ t.Armed) ∨
    ∃ t, loadBlock X st = .ok (st.data.blocks.get? X) t ∧ t.data = st.data ∧ t.Scheduled ∧ (t.Armed ↔ st.Armed) :=
  read_scheduled _ _ sched

/-- Writing back a stored block of the same link on scheduled records is either the scheduled
failure or the write as without fault injection. -/
theorem updateBlock_scheduled {st : Storage} (sched : st.Scheduled) {b c : Block}
    (stored : st.data.blocks.get? b.id = some c) (link : c.link = b.link) :
    (st.Armed ∧ ∃ e t, updateBlock b st = .error e t ∧ t.data = st.data ∧ t.Scheduled ∧ ¬ t.Armed) ∨
    ∃ t, updateBlock b st = .ok () t ∧ t.data = (st.written b).data ∧ t.Scheduled ∧ (t.Armed ↔ st.Armed) :=
  call_returns _ _ _ sched (by simp [Store.updateBlock, stored, link, written, Except.map])

theorem atomic_pure {α : Type} (a : α) : Atomic (Pure.pure a : StoreM α) :=
  fun _ _ armed spent => absurd armed spent

/-- An atomic computation followed by a value returned stays atomic. -/
theorem Atomic.bind_pure {α β : Type} {m : StoreM α} (first : Atomic m) (g : α → β) :
    Atomic (m >>= fun a => Pure.pure (g a)) := by
  intro st sched armed spent
  obtain ⟨e, t, failed, restored⟩ := first st sched armed (by
    cases run : m st with
    | ok a t => rw [run_bind_ok run] at spent; rw [endState_ok]; exact spent
    | error e t => rw [run_bind_error run] at spent; rw [endState_error]; exact spent)
  exact ⟨e, t, run_bind_error failed, restored⟩

end Storage

namespace Pool

open Storage

theorem faithful_undo (spans : List Span) (release : Bool) : schedule.Faithful (undo spans release) :=
  Schedule.Faithful.forM _ fun _ _ =>
    Schedule.Faithful.bind (Storage.faithful_read _ _) fun found => by
      cases found with
      | none => exact Schedule.Faithful.pure _
      | some b => exact faithful_updateBlock _

theorem faithful_rollback (spans : List Span) (release : Bool) : schedule.Faithful (rollback spans release) :=
  Schedule.Faithful.attempt (faithful_undo spans release)

theorem faithful_carveAll : ∀ (blocks : List Block) (remaining : Nat) (carved : List Span),
    schedule.Faithful (carveAll blocks remaining carved)
  | [], _, _ => Schedule.Faithful.pure _
  | b :: rest, remaining, carved => by
    unfold carveAll
    split
    · exact Schedule.Faithful.pure _
    · split
      · exact faithful_carveAll rest remaining carved
      · exact Schedule.Faithful.bind (Schedule.Faithful.tryCatch (faithful_updateBlock _)
          fun _ => Schedule.Faithful.bind (faithful_rollback _ _) fun _ => Schedule.Faithful.throw _)
          fun _ => faithful_carveAll rest _ _

theorem faithful_eligible (p : Pool) (ℓ : LinkId) (now : Nat) : schedule.Faithful (p.eligible ℓ now) :=
  Schedule.Faithful.bind (Storage.faithful_read _ _) fun _ => Schedule.Faithful.pure _

theorem faithful_reserve (p : Pool) (ℓ : LinkId) (n now : Nat) : schedule.Faithful (p.reserve ℓ n now) := by
  unfold reserve
  dsimp only
  split
  · exact Schedule.Faithful.throw_bind _ _
  · refine Schedule.Faithful.bind (faithful_eligible p ℓ now) fun blocks => ?_
    split
    · exact Schedule.Faithful.throw_bind _ _
    · exact faithful_carveAll blocks n []

theorem faithful_loadAll : ∀ (spans : List Span) (cache : Table BlockId Block),
    schedule.Faithful (loadAll spans cache)
  | [], _ => Schedule.Faithful.pure _
  | s :: rest, cache => by
    unfold loadAll
    split
    · exact faithful_loadAll rest cache
    · refine Schedule.Faithful.bind (Storage.faithful_read _ _) fun found => ?_
      cases found with
      | none => exact Schedule.Faithful.throw _
      | some b => exact faithful_loadAll rest _

theorem faithful_read (spans : List Span) : schedule.Faithful (read spans) :=
  Schedule.Faithful.bind (faithful_loadAll spans {}) fun cache =>
    Schedule.Faithful.bind (Schedule.Faithful.mapM spans fun s _ => by
      split
      · exact Schedule.Faithful.throw _
      · exact Schedule.Faithful.ofExcept _) fun _ => Schedule.Faithful.pure _

theorem faithful_releaseRange (spans : List Span) : schedule.Faithful (releaseRange spans) :=
  Schedule.Faithful.forM _ fun _ _ =>
    Schedule.Faithful.bind (Storage.faithful_read _ _) fun found => by
      cases found with
      | none => exact Schedule.Faithful.pure _
      | some b => exact faithful_updateBlock _

/-- Dropping the reference of one span meets the scheduled failure, if at all, in one of the two
operations it makes, and then leaves the records as they were. -/
theorem atomic_releaseOne (s : Span) : Atomic (releaseRange [s]) := by
  unfold releaseRange
  exact Atomic.bind_pure (Atomic.read_bind fun found => by
    cases found with
    | none => exact atomic_pure _
    | some b => exact atomic_call _ _ _) fun _ => ()

theorem same_chains : Chains (fun s t : Storage => t.data = s.data) :=
  ⟨fun _ => rfl, fun first second => second.trans first⟩

/-- Reading spans leaves the records as they were, whatever fails. -/
theorem keeps_same_read (spans : List Span) : Keeps (fun s t : Storage => t.data = s.data) (read spans) := by
  have reads : ∀ {β : Type} (operation : String) (f : Store → β),
      Keeps (fun s t : Storage => t.data = s.data) (Storage.read operation f) :=
    fun _ _ => keeps_of_read (R := fun d d' => d' = d) (fun _ => rfl) _ _
  have loads : ∀ (spans : List Span) (cache : Table BlockId Block),
      Keeps (fun s t : Storage => t.data = s.data) (loadAll spans cache) := by
    intro spans
    induction spans with
    | nil => exact fun _ => Keeps.pure same_chains _
    | cons s rest ih =>
      intro cache
      unfold loadAll
      split
      · exact ih cache
      · refine Keeps.bind same_chains (reads _ _) fun found => ?_
        cases found with
        | none => exact Keeps.throw same_chains _
        | some b => exact ih _
  exact Keeps.bind same_chains (loads spans {}) fun cache =>
    Keeps.bind same_chains (Keeps.mapM same_chains spans fun s _ => by
      split
      · exact Keeps.throw same_chains _
      · exact Keeps.ofExcept same_chains _) fun _ => Keeps.pure same_chains _

theorem raises_loadAll : ∀ (spans : List Span) (cache : Table BlockId Block), schedule.Raises (loadAll spans cache)
  | [], _ => Schedule.Raises.pure _
  | s :: rest, cache => by
    unfold loadAll
    split
    · exact raises_loadAll rest cache
    · refine Schedule.Raises.bind (Storage.faithful_read _ _) (Storage.raises_read _ _) fun found => ?_
      cases found with
      | none => exact Schedule.Raises.throw _
      | some b => exact raises_loadAll rest _

/-- Reading spans meets the scheduled failure only by failing: past the loading of the blocks it
makes no operation. -/
theorem raises_read (spans : List Span) : schedule.Raises (read spans) :=
  Schedule.Raises.bind (faithful_loadAll spans {}) (raises_loadAll spans {}) fun cache =>
    Schedule.Raises.bind (Schedule.Faithful.mapM spans fun s _ => by
        split
        · exact Schedule.Faithful.throw _
        · exact Schedule.Faithful.ofExcept _)
      (Schedule.Raises.mapM spans fun s _ => by
        split
        · exact ⟨Schedule.Faithful.throw _, Schedule.Raises.throw _⟩
        · exact ⟨Schedule.Faithful.ofExcept _, Schedule.Raises.ofExcept _⟩) fun _ => Schedule.Raises.pure _

end Pool

end KeyRelay
