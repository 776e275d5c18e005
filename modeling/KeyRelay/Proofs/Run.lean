import KeyRelay.Store.Storage
import KeyRelay.Proofs.Records

/-! Runs of computations over a state that may fail, related to the state they start in.
`Keeps R m` says that every run of `m`, returning or failing, ends in a state that `R` relates
to its start. For a reflexive and transitive `R` this passes through each way the library builds
computations, so a frame property of a composite computation follows from those of its parts.

Records without fault injection answer every operation: reads give what the records hold and
writes change them as their functions say. Under `Storage.Kept`, steady records stay steady and keep their
blocks; every operation but the three on blocks keeps them outright. -/

namespace KeyRelay

/-- The state a run ends in, whether it returned or failed. -/
def endState {ε σ α : Type} : EStateM.Result ε σ α → σ
  | .ok _ s => s
  | .error _ s => s

@[simp] theorem endState_ok {ε σ α : Type} (a : α) (s : σ) :
    endState (.ok a s : EStateM.Result ε σ α) = s := rfl

@[simp] theorem endState_error {ε σ α : Type} (e : ε) (s : σ) :
    endState (.error e s : EStateM.Result ε σ α) = s := rfl

section Runs

variable {ε σ α β : Type} {m : EStateM ε σ α} {s t : σ}

theorem run_pure (a : α) (s : σ) : (pure a : EStateM ε σ α) s = .ok a s := rfl

theorem run_bind_ok {f : α → EStateM ε σ β} {a : α} (h : m s = .ok a t) : (m >>= f) s = f a t := by
  show EStateM.bind m f s = _
  simp only [EStateM.bind, h]

theorem run_bind_error {f : α → EStateM ε σ β} {e : ε} (h : m s = .error e t) :
    (m >>= f) s = .error e t := by
  show EStateM.bind m f s = _
  simp only [EStateM.bind, h]

theorem run_tryCatch_ok {handler : ε → EStateM ε σ α} {a : α} (h : m s = .ok a t) :
    (tryCatch m handler) s = .ok a t := by
  show EStateM.tryCatch m handler s = _
  simp only [EStateM.tryCatch, h]

theorem run_tryCatch_error {handler : ε → EStateM ε σ α} {e : ε} (h : m s = .error e t) :
    (tryCatch m handler) s = handler e t := by
  show EStateM.tryCatch m handler s = _
  simp only [EStateM.tryCatch, h]
  rfl

theorem run_ofExcept_ok (a : α) (s : σ) : (EStateM.ofExcept (.ok a) : EStateM ε σ α) s = .ok a s := rfl

theorem run_ofExcept_error (e : ε) (s : σ) :
    (EStateM.ofExcept (.error e) : EStateM ε σ α) s = .error e s := rfl

/-- A computation whose failure is ignored returns, in the state it ended in. -/
theorem run_attempt (m : EStateM ε σ Unit) (s : σ) : EStateM.attempt m s = .ok () (endState (m s)) := by
  unfold EStateM.attempt
  cases h : m s with
  | ok a t => rw [run_tryCatch_ok h]; rfl
  | error e t => rw [run_tryCatch_error h]; rfl

theorem run_focus_ok {τ : Type} {get : σ → τ} {set : τ → σ → σ} {m : EStateM ε τ α} {s : σ} {t : τ}
    {a : α} (h : m (get s) = .ok a t) : EStateM.focus get set m s = .ok a (set t s) := by
  simp only [EStateM.focus, h]

theorem run_focus_error {τ : Type} {get : σ → τ} {set : τ → σ → σ} {m : EStateM ε τ α} {s : σ}
    {t : τ} {e : ε} (h : m (get s) = .error e t) : EStateM.focus get set m s = .error e (set t s) := by
  simp only [EStateM.focus, h]

theorem run_forM_cons {f : α → EStateM ε σ PUnit} (x : α) (xs : List α) (s : σ) :
    (x :: xs).forM f s = (f x >>= fun _ => xs.forM f) s := rfl

/-- A computation that returns in the state it started in, on each element, does so on the
whole list. -/
theorem run_mapM_pure {f : α → EStateM ε σ β} (g : α → β) :
    ∀ (xs : List α), (∀ x ∈ xs, f x s = .ok (g x) s) → xs.mapM f s = .ok (xs.map g) s
  | [], _ => rfl
  | x :: rest, each => by
    rw [List.mapM_cons, run_bind_ok (each x (by simp)),
      run_bind_ok (run_mapM_pure g rest fun y member => each y (by simp [member]))]
    rfl

end Runs

/-- A relation between the states a run starts and ends in that composes: reflexive and
transitive. -/
structure Chains {σ : Type} (R : σ → σ → Prop) : Prop where
  refl : ∀ s, R s s
  trans : ∀ {a b c}, R a b → R b c → R a c

/-- Every run of `m` ends in a state that `R` relates to the one it started in. -/
def Keeps {ε σ α : Type} (R : σ → σ → Prop) (m : EStateM ε σ α) : Prop := ∀ s, R s (endState (m s))

namespace Keeps

variable {ε σ α β : Type} {R : σ → σ → Prop}

theorem pure (chains : Chains R) (a : α) : Keeps R (Pure.pure a : EStateM ε σ α) :=
  fun s => chains.refl s

theorem throw (chains : Chains R) (e : ε) : Keeps R (MonadExcept.throw e : EStateM ε σ α) :=
  fun s => chains.refl s

theorem throw_bind (chains : Chains R) (e : ε) (f : α → EStateM ε σ β) :
    Keeps R (MonadExcept.throw e >>= f : EStateM ε σ β) :=
  fun s => chains.refl s

theorem bind (chains : Chains R) {m : EStateM ε σ α} {f : α → EStateM ε σ β} (first : Keeps R m)
    (rest : ∀ a, Keeps R (f a)) : Keeps R (m >>= f) := by
  intro s
  have started := first s
  show R s (endState (EStateM.bind m f s))
  unfold EStateM.bind
  cases run : m s with
  | ok a t =>
    rw [run] at started
    exact chains.trans started (rest a t)
  | error e t =>
    rw [run] at started
    exact started

theorem tryCatch (chains : Chains R) {m : EStateM ε σ α} {handler : ε → EStateM ε σ α}
    (first : Keeps R m) (recover : ∀ e, Keeps R (handler e)) : Keeps R (tryCatch m handler) := by
  intro s
  have started := first s
  show R s (endState (EStateM.tryCatch m handler s))
  unfold EStateM.tryCatch
  cases run : m s with
  | ok a t =>
    rw [run] at started
    exact started
  | error e t =>
    rw [run] at started
    exact chains.trans started (recover e t)

theorem ite (c : Prop) [Decidable c] {m m' : EStateM ε σ α} (yes : Keeps R m) (no : Keeps R m') :
    Keeps R (if c then m else m') := by
  split
  · exact yes
  · exact no

theorem forM (chains : Chains R) (xs : List α) {f : α → EStateM ε σ PUnit}
    (each : ∀ x ∈ xs, Keeps R (f x)) : Keeps R (xs.forM f) := by
  induction xs with
  | nil => exact pure chains _
  | cons x rest ih =>
    show Keeps R (f x >>= fun _ => rest.forM f)
    exact bind chains (each x (by simp)) fun _ => ih fun y member => each y (by simp [member])

theorem foldlM (chains : Chains R) (xs : List α) {f : β → α → EStateM ε σ β}
    (each : ∀ b, ∀ x ∈ xs, Keeps R (f b x)) (init : β) : Keeps R (xs.foldlM f init) := by
  induction xs generalizing init with
  | nil => exact pure chains _
  | cons x rest ih =>
    rw [List.foldlM_cons]
    exact bind chains (each init x (by simp)) fun b => ih (fun c y member => each c y (by simp [member])) b

theorem mapM (chains : Chains R) (xs : List α) {f : α → EStateM ε σ β}
    (each : ∀ x ∈ xs, Keeps R (f x)) : Keeps R (xs.mapM f) := by
  induction xs with
  | nil => exact pure chains _
  | cons x rest ih =>
    rw [List.mapM_cons]
    exact bind chains (each x (by simp)) fun _ =>
      bind chains (ih fun y member => each y (by simp [member])) fun _ => pure chains _

theorem ofExcept (chains : Chains R) (r : Except ε α) : Keeps R (EStateM.ofExcept r : EStateM ε σ α) := by
  cases r
  · exact throw chains _
  · exact pure chains _

theorem attempt (chains : Chains R) {m : EStateM ε σ Unit} (inner : Keeps R m) :
    Keeps R (EStateM.attempt m) :=
  tryCatch chains inner fun _ => pure chains _

theorem mapError {ε' : Type} (f : ε → ε') {m : EStateM ε σ α} (inner : Keeps R m) :
    Keeps R (EStateM.mapError f m) := by
  intro s
  have started := inner s
  unfold EStateM.mapError
  cases run : m s <;> rw [run] at started <;> exact started

theorem focus {τ : Type} {Q : τ → τ → Prop} (get : σ → τ) (set : τ → σ → σ)
    (lift : ∀ s t, Q (get s) t → R s (set t s)) {m : EStateM ε τ α} (inner : Keeps Q m) :
    Keeps R (EStateM.focus get set m) := by
  intro s
  have started := inner (get s)
  unfold EStateM.focus
  cases run : m (get s) <;> rw [run] at started <;> exact lift s _ started

end Keeps

/-- Every run of `m` ends in a state that `R` relates to its start, and every value it returns
has `P`. -/
def Yields {ε σ α : Type} (R : σ → σ → Prop) (P : α → Prop) (m : EStateM ε σ α) : Prop :=
  ∀ s, match m s with
    | .ok a t => R s t ∧ P a
    | .error _ t => R s t

namespace Yields

variable {ε σ α β : Type} {R : σ → σ → Prop} {P : β → Prop}

theorem keeps {m : EStateM ε σ β} (yields : Yields R P m) : Keeps R m := by
  intro s
  have := yields s
  cases run : m s <;> rw [run] at this
  · exact this.1
  · exact this

theorem of_keeps {m : EStateM ε σ β} (keeps : Keeps R m) : Yields R (fun _ => True) m := by
  intro s
  have := keeps s
  cases run : m s <;> rw [run] at this
  · exact ⟨this, trivial⟩
  · exact this

theorem imp {P' : β → Prop} {m : EStateM ε σ β} (yields : Yields R P m) (weaken : ∀ b, P b → P' b) :
    Yields R P' m := by
  intro s
  have := yields s
  cases run : m s <;> rw [run] at this
  · exact ⟨this.1, weaken _ this.2⟩
  · exact this

theorem pure (chains : Chains R) {b : β} (holds : P b) : Yields R P (Pure.pure b : EStateM ε σ β) :=
  fun s => ⟨chains.refl s, holds⟩

theorem throw (chains : Chains R) (e : ε) : Yields R P (MonadExcept.throw e : EStateM ε σ β) :=
  fun s => chains.refl s

theorem bind (chains : Chains R) {m : EStateM ε σ α} {f : α → EStateM ε σ β} (first : Keeps R m)
    (rest : ∀ a, Yields R P (f a)) : Yields R P (m >>= f) := by
  intro s
  have started := first s
  show match EStateM.bind m f s with
    | .ok a t => R s t ∧ P a
    | .error _ t => R s t
  unfold EStateM.bind
  cases run : m s with
  | ok a t =>
    rw [run] at started
    have next := rest a t
    dsimp only
    split
    · rename_i b u same
      rw [same] at next
      exact ⟨chains.trans started next.1, next.2⟩
    · rename_i e u same
      rw [same] at next
      exact chains.trans started next
  | error e t =>
    rw [run] at started
    exact started

end Yields

/-! ### Records without fault injection -/

namespace Storage

/-- Records without fault injection whose index agrees with their blocks. -/
structure Steady (st : Storage) : Prop where
  calm : st.chaos = none
  indexed : st.data.Indexed

/-- From steady records, `after` is steady and has what `before` had of the blocks, less the
blocks it dropped: no block is new and no cursor has moved. -/
def Kept (before after : Storage) : Prop :=
  before.Steady → after.Steady ∧ ∀ X b, after.data.bare X = some b → before.data.bare X = some b

theorem kept_chains : Chains Kept where
  refl := fun _ steady => ⟨steady, fun _ _ found => found⟩
  trans := fun first second steady =>
    let ⟨middle, kept⟩ := first steady
    let ⟨last, kept'⟩ := second middle
    ⟨last, fun X b found => kept X b (kept' X b found)⟩

variable {α : Type}

theorem call_steady {st : Storage} (calm : st.chaos = none) (operation : String) (write : Bool)
    (f : Store → Except StoreError (α × Store)) :
    call operation write f st = match f st.data with
      | .ok (a, data) => .ok a { st with data }
      | .error e => .error e.toFault st := by
  obtain ⟨backend, data, chaos⟩ := st
  cases calm
  rfl

theorem read_steady {st : Storage} (calm : st.chaos = none) (operation : String) (f : Store → α) :
    read operation f st = .ok (f st.data) st := by
  unfold read
  rw [call_steady calm]

theorem write_steady {st : Storage} (calm : st.chaos = none) (operation : String)
    (f : Store → α × Store) :
    write operation f st = .ok (f st.data).1 { st with data := (f st.data).2 } := by
  unfold write
  rw [call_steady calm]

theorem keeps_read (operation : String) (f : Store → α) : Keeps Kept (read operation f) := by
  intro st steady
  rw [read_steady steady.calm]
  exact ⟨steady, fun _ _ found => found⟩

/-- A write whose function leaves the blocks and their index alone. -/
theorem keeps_write (operation : String) (f : Store → α × Store)
    (blocks : ∀ s, (f s).2.blocks = s.blocks) (chain : ∀ s, (f s).2.chain = s.chain) :
    Keeps Kept (write operation f) := by
  intro st steady
  rw [write_steady steady.calm]
  have kept := Store.Kept.of_blocks (blocks st.data) (chain st.data)
  exact ⟨⟨steady.calm, kept.indexed steady.indexed⟩, kept.bare⟩

theorem loadBlock_steady {st : Storage} (calm : st.chaos = none) (id : BlockId) :
    loadBlock id st = .ok (st.data.blocks.get? id) st := read_steady calm _ _

theorem blocksForLink_steady {st : Storage} (calm : st.chaos = none) (link : LinkId) :
    blocksForLink link st = .ok (st.data.blocksForLink link) st := read_steady calm _ _

theorem updateBlock_steady {st : Storage} (calm : st.chaos = none) (b : Block) :
    updateBlock b st = match st.data.updateBlock b with
      | .ok data => .ok () { st with data }
      | .error e => .error e.toFault st := by
  unfold updateBlock
  rw [call_steady calm]
  cases st.data.updateBlock b <;> rfl

theorem deleteBlock_steady {st : Storage} (calm : st.chaos = none) (id : BlockId) :
    deleteBlock id st = .ok () { st with data := st.data.deleteBlock id } :=
  write_steady calm _ _

theorem insertBlock_steady {st : Storage} (calm : st.chaos = none) (b : Block) :
    insertBlock b st = .ok (st.data.insertBlock b).1 { st with data := (st.data.insertBlock b).2 } :=
  write_steady calm _ _

theorem keeps_loadBlock (id : BlockId) : Keeps Kept (loadBlock id) := keeps_read _ _
theorem keeps_blocksForLink (link : LinkId) : Keeps Kept (blocksForLink link) := keeps_read _ _
theorem keeps_listBlocks : Keeps Kept listBlocks := keeps_read _ _
theorem keeps_countSessionKeys (ksid : Ksid) : Keeps Kept (countSessionKeys ksid) := keeps_read _ _

theorem keeps_deleteBlock (id : BlockId) : Keeps Kept (deleteBlock id) := by
  intro st steady
  rw [deleteBlock_steady steady.calm]
  exact ⟨⟨steady.calm, steady.indexed.deleteBlock id⟩, (Store.Kept.deleteBlock _ _).bare⟩

theorem keeps_storeKeyRows (rows : List KeyRow) : Keeps Kept (storeKeyRows rows) :=
  keeps_write _ _ (fun _ => rfl) (fun _ => rfl)
theorem keeps_takeKeyRow (ksid : Ksid) (key : KeyId) : Keeps Kept (takeKeyRow ksid key) :=
  keeps_write _ _ (fun _ => rfl) (fun _ => rfl)
theorem keeps_takeSessionRows (ksid : Ksid) : Keeps Kept (takeSessionRows ksid) :=
  keeps_write _ _ (fun _ => rfl) (fun _ => rfl)
theorem keeps_storeLocalKeys (keys : List LocalKey) : Keeps Kept (storeLocalKeys keys) :=
  keeps_write _ _ (fun _ => rfl) (fun _ => rfl)
theorem keeps_purgeLocalKeys (ksid : Ksid) : Keeps Kept (purgeLocalKeys ksid) :=
  keeps_write _ _ (fun _ => rfl) (fun _ => rfl)
theorem keeps_storeSession (r : SessionRecord) : Keeps Kept (storeSession r) :=
  keeps_write _ _ (fun _ => rfl) (fun _ => rfl)
theorem keeps_deleteSession (ksid : Ksid) : Keeps Kept (deleteSession ksid) :=
  keeps_write _ _ (fun _ => rfl) (fun _ => rfl)

theorem keeps_takeLocalKey (ksid : Ksid) (key : Option KeyId) : Keeps Kept (takeLocalKey ksid key) := by
  refine keeps_write _ _ (fun s => ?_) (fun s => ?_) <;>
  · unfold Store.takeLocal
    cases key with
    | some k => rfl
    | none =>
      dsimp only
      split <;> rfl

end Storage

end KeyRelay
