import KeyRelay.Proofs.Refs
import KeyRelay.Proofs.Engine

/-! The key engine keeps the rows it stores backed. A computation of the engine is specified by
`Spec P m Q E`: from a state with `P`, a run returns a value and a state with `Q` or fails in a
state with `E`. With records that back their rows owing `owed` references (`Storage.Backs`),
each computation says what it owes when it ends: a generation's carves are all released again,
a replayed row's references are released once its row is gone, and following a companion whose
rows name each range once spends exactly the references it takes. Every computation a request
runs thus starts and ends owing nothing, whether it returns or fails. -/

namespace KeyRelay

/-- From a state with `P`, each run of `m` returns a value and a state with `Q`, or fails in a
state with `E`. -/
def Spec {ε σ α : Type} (P : σ → Prop) (m : EStateM ε σ α) (Q : α → σ → Prop) (E : σ → Prop) : Prop :=
  ∀ s, P s → (∀ a t, m s = .ok a t → Q a t) ∧ ∀ e t, m s = .error e t → E t

namespace Spec

variable {ε σ α β : Type} {P : σ → Prop} {m : EStateM ε σ α} {Q : α → σ → Prop} {E : σ → Prop}

theorem conseq {P' : σ → Prop} {Q' : α → σ → Prop} {E' : σ → Prop} (spec : Spec P m Q E)
    (pre : ∀ s, P' s → P s) (post : ∀ a s, Q a s → Q' a s) (err : ∀ s, E s → E' s) : Spec P' m Q' E' :=
  fun s start => ⟨fun a t run => post a t ((spec s (pre s start)).1 a t run),
    fun e t run => err t ((spec s (pre s start)).2 e t run)⟩

/-- A run that always returns, in a state with `Q`. -/
theorem of_ok (returns : ∀ s, P s → ∃ a t, m s = .ok a t ∧ Q a t) : Spec P m Q E := by
  intro s start
  obtain ⟨a, t, run, holds⟩ := returns s start
  refine ⟨fun a' t' run' => ?_, fun e' t' run' => ?_⟩
  · rw [run] at run'
    cases run'
    exact holds
  · rw [run] at run'
    cases run'

theorem of_false : Spec (fun _ => False) m Q E := fun _ absurd => absurd.elim

/-- A computation that never fails meets any failure condition. -/
theorem returns (total : Spec P m Q fun _ => False) : Spec P m Q E :=
  total.conseq (fun _ start => start) (fun _ _ done => done) (fun _ absurd => absurd.elim)

theorem weaken {P' : σ → Prop} (spec : Spec P m Q E) (pre : ∀ s, P' s → P s) : Spec P' m Q E :=
  spec.conseq pre (fun _ _ done => done) (fun _ failed => failed)

/-- A run that keeps a relation under which `P` stays. -/
theorem of_keeps {R : σ → σ → Prop} (keeps : Keeps R m) (stays : ∀ s t, P s → R s t → P t) :
    Spec P m (fun _ => P) P := by
  intro s start
  have kept := keeps s
  refine ⟨fun a t run => ?_, fun e t run => ?_⟩ <;> rw [run] at kept <;> exact stays s t start kept

theorem pure {a : α} (holds : ∀ s, P s → Q a s) : Spec P (Pure.pure a : EStateM ε σ α) Q E :=
  of_ok fun s start => ⟨a, s, rfl, holds s start⟩

theorem throw {e : ε} (holds : ∀ s, P s → E s) : Spec P (MonadExcept.throw e : EStateM ε σ α) Q E := by
  intro s start
  refine ⟨fun a t run => (by cases run), fun e' t run => ?_⟩
  cases run
  exact holds s start

theorem bind {R : β → σ → Prop} {f : α → EStateM ε σ β} (first : Spec P m Q E)
    (rest : ∀ a, Spec (Q a) (f a) R E) : Spec P (m >>= f) R E := by
  intro s start
  obtain ⟨returned, failed⟩ := first s start
  cases run : m s with
  | ok a t =>
    rw [run_bind_ok run]
    exact rest a t (returned a t run)
  | error e t =>
    rw [run_bind_error run]
    exact ⟨fun b u done => (by cases done), fun e' u done => (by cases done; exact failed e t run)⟩

/-- A failure's handler runs from a state of the failure. -/
theorem tryCatch {E₀ : σ → Prop} {handler : ε → EStateM ε σ α} (first : Spec P m Q E₀)
    (recover : ∀ e, Spec E₀ (handler e) Q E) : Spec P (tryCatch m handler) Q E := by
  intro s start
  obtain ⟨returned, failed⟩ := first s start
  cases run : m s with
  | ok a t =>
    rw [run_tryCatch_ok run]
    exact ⟨fun a' t' done => (by cases done; exact returned a t run), fun e' t' done => (by cases done)⟩
  | error e t =>
    rw [run_tryCatch_error run]
    exact recover e t (failed e t run)

/-- A computation whose failure is ignored returns either way. -/
theorem attempt {m : EStateM ε σ Unit} {Q' : σ → Prop} (inner : Spec P m (fun _ => Q') Q') :
    Spec P (EStateM.attempt m) (fun _ => Q') E :=
  tryCatch (inner.conseq (fun _ start => start) (fun _ _ done => done) (fun _ failed => failed))
    fun _ => Spec.pure fun _ failed => failed

end Spec

/-! ### Records that back their rows -/

namespace Storage

/-- Records without fault injection that back their rows, owing `owed` references. -/
def Backs (st : Storage) (owed : List Span) : Prop := st.Steady ∧ st.data.Backs owed

theorem Backs.mono {st : Storage} {owed fewer : List Span} (backs : st.Backs owed)
    (le : ∀ X, onBlock fewer X ≤ onBlock owed X) : st.Backs fewer :=
  ⟨backs.1, backs.2.mono le⟩

/-- Runs that keep records steady and touch neither their blocks nor their rows. -/
def Quiet (s t : Storage) : Prop :=
  s.Steady → t.Steady ∧ t.data.blocks = s.data.blocks ∧ t.data.rows = s.data.rows

/-- Records written without touching their blocks or the index stay steady. -/
theorem Steady.of_blocks {st : Storage} (steady : st.Steady) {data : Store} (blocks : data.blocks = st.data.blocks)
    (chain : data.chain = st.data.chain) : Steady { st with data } :=
  ⟨steady.calm, (Store.Kept.of_blocks blocks chain).indexed steady.indexed⟩

theorem quiet_chains : Chains Quiet where
  refl := fun _ steady => ⟨steady, rfl, rfl⟩
  trans := fun first second steady =>
    let ⟨middle, blocks, rows⟩ := first steady
    let ⟨last, blocks', rows'⟩ := second middle
    ⟨last, blocks'.trans blocks, rows'.trans rows⟩

theorem Backs.quiet {s t : Storage} {owed : List Span} (backs : s.Backs owed) (quiet : Quiet s t) :
    t.Backs owed := by
  obtain ⟨steady, blocks, rows⟩ := quiet backs.1
  have same : ∀ X, t.data.held X = s.data.held X ∧ t.data.refs X = s.data.refs X := fun X =>
    ⟨by simp only [Store.held, rows], by simp only [Store.refs, blocks]⟩
  refine ⟨steady, blocks ▸ backs.2.blocksKeyed, rows ▸ backs.2.rowsKeyed, fun X => ?_⟩
  rw [(same X).1, (same X).2]
  exact backs.2.covers X

theorem keeps_quiet_read {α : Type} (operation : String) (f : Store → α) : Keeps Quiet (read operation f) := by
  intro st steady
  rw [read_steady steady.calm]
  exact ⟨steady, rfl, rfl⟩

/-- A write whose function leaves the blocks, their index and the rows alone. -/
theorem keeps_quiet_write {α : Type} (operation : String) (f : Store → α × Store)
    (blocks : ∀ s, (f s).2.blocks = s.blocks) (chain : ∀ s, (f s).2.chain = s.chain)
    (rows : ∀ s, (f s).2.rows = s.rows) : Keeps Quiet (write operation f) := by
  intro st steady
  rw [write_steady steady.calm]
  have kept := Store.Kept.of_blocks (blocks st.data) (chain st.data)
  exact ⟨⟨steady.calm, kept.indexed steady.indexed⟩, blocks st.data, rows st.data⟩

theorem keeps_quiet_storeLocalKeys (keys : List LocalKey) : Keeps Quiet (storeLocalKeys keys) :=
  keeps_quiet_write _ _ (fun _ => rfl) (fun _ => rfl) (fun _ => rfl)

theorem keeps_quiet_purgeLocalKeys (ksid : Ksid) : Keeps Quiet (purgeLocalKeys ksid) :=
  keeps_quiet_write _ _ (fun _ => rfl) (fun _ => rfl) (fun _ => rfl)

theorem keeps_quiet_takeLocalKey (ksid : Ksid) (key : Option KeyId) : Keeps Quiet (takeLocalKey ksid key) := by
  refine keeps_quiet_write _ _ (fun s => ?_) (fun s => ?_) (fun s => ?_) <;>
  · unfold Store.takeLocal
    cases key with
    | some k => rfl
    | none =>
      dsimp only
      split <;> rfl

theorem keeps_quiet_storeLink (l : LinkRecord) : Keeps Quiet (storeLink l) :=
  keeps_quiet_write _ _ (fun _ => rfl) (fun _ => rfl) (fun _ => rfl)

theorem keeps_quiet_storeSession (r : SessionRecord) : Keeps Quiet (storeSession r) :=
  keeps_quiet_write _ _ (fun _ => rfl) (fun _ => rfl) (fun _ => rfl)

theorem keeps_quiet_deleteSession (ksid : Ksid) : Keeps Quiet (deleteSession ksid) :=
  keeps_quiet_write _ _ (fun _ => rfl) (fun _ => rfl) (fun _ => rfl)

/-! ### What each operation owes -/

variable {owed : List Span}

theorem spec_quiet {α : Type} {m : StoreM α} (quiet : Keeps Quiet m) :
    Spec (·.Backs owed) m (fun _ st => st.Backs owed) (·.Backs owed) :=
  Spec.of_keeps quiet fun _ _ backs still => backs.quiet still

theorem spec_releaseRange (spans : List Span) :
    Spec (·.Backs (owed ++ spans)) (Pool.releaseRange spans) (fun _ st => st.Backs owed) (fun _ => False) :=
  Spec.of_ok fun _ backs =>
    let ⟨st', run, steady', backs'⟩ := Pool.releaseRange_backs spans backs.1 backs.2
    ⟨(), st', run, steady', backs'⟩

theorem spec_undo (spans : List Span) (release : Bool) :
    Spec (·.Backs (owed ++ if release then spans else [])) (Pool.undo spans release) (fun _ st => st.Backs owed)
      (fun _ => False) :=
  Spec.of_ok fun _ backs =>
    let ⟨st', run, steady', backs'⟩ := Pool.undo_backs release spans backs.1 backs.2
    ⟨(), st', run, steady', backs'⟩

theorem spec_storeKeyRows (rows : List KeyRow) :
    Spec (·.Backs (owed ++ rows.flatMap (·.spans))) (storeKeyRows rows) (fun _ st => st.Backs owed)
      (fun _ => False) :=
  Spec.of_ok fun _ backs => ⟨(), _, write_steady backs.1.calm _ _,
    backs.1.of_blocks rfl rfl,
    backs.2.storeRows rows⟩

theorem spec_takeKeyRow (ksid : Ksid) (key : KeyId) :
    Spec (·.Backs owed) (takeKeyRow ksid key) (fun row st => st.Backs (owed ++ (row.map (·.spans)).getD []))
      (fun _ => False) :=
  Spec.of_ok fun _ backs => ⟨_, _, write_steady backs.1.calm _ _,
    backs.1.of_blocks rfl rfl,
    backs.2.takeRow ksid key⟩

theorem spec_takeSessionRows (ksid : Ksid) :
    Spec (·.Backs owed) (takeSessionRows ksid) (fun rows st => st.Backs (owed ++ rows.flatMap (·.spans)))
      (fun _ => False) :=
  Spec.of_ok fun _ backs => ⟨_, _, write_steady backs.1.calm _ _,
    backs.1.of_blocks rfl rfl,
    backs.2.takeSessionRows ksid⟩

theorem spec_read (spans : List Span) :
    Spec (·.Backs owed) (Pool.read spans) (fun _ st => st.Backs owed) (·.Backs owed) :=
  Spec.of_keeps (Pool.keeps_still_read spans) fun _ _ backs still => still backs.1.calm ▸ backs

theorem spec_reserve (p : Pool) (ℓ : LinkId) (n now : Nat) :
    Spec (·.Backs owed) (p.reserve ℓ n now) (fun C st => st.Backs (owed ++ C)) (·.Backs owed) := by
  intro st backs
  rcases Pool.reserve_backs p ℓ n now backs.1 backs.2 with ⟨e, refused⟩ | ⟨C, st', run, steady', backs'⟩
  · exact ⟨fun _ _ done => (by rw [refused] at done; cases done),
      fun _ _ failed => (by rw [refused] at failed; cases failed; exact backs)⟩
  · exact ⟨fun _ _ done => (by rw [run] at done; cases done; exact ⟨steady', backs'⟩),
      fun _ _ failed => (by rw [run] at failed; cases failed)⟩

theorem spec_acknowledge (ℓ : LinkId) (consumed retained : List Span) :
    Spec (·.Backs owed) (Pool.acknowledge ℓ consumed retained)
      (fun _ st => st.Backs (owed ++ consumed.filter (retained.contains ·))) (·.Backs owed) := by
  intro st backs
  rcases Pool.acknowledge_spec ℓ consumed retained backs.1 with ⟨e, refused⟩ | ⟨st', run, -⟩
  · exact ⟨fun _ _ done => (by rw [refused] at done; cases done),
      fun _ _ failed => (by rw [refused] at failed; cases failed; exact backs)⟩
  · refine ⟨fun _ _ done => ?_, fun _ _ failed => (by rw [run] at failed; cases failed)⟩
    rw [run] at done
    cases done
    exact Pool.acknowledge_backs ℓ consumed retained backs.1 backs.2 run

theorem spec_sweep (p : Pool) (now : Nat) :
    Spec (·.Backs owed) (p.sweep now) (fun _ st => st.Backs owed) (fun _ => False) :=
  Spec.of_ok fun _ backs =>
    let ⟨n, st', run, steady', backs'⟩ := Pool.sweep_backs p now backs.1 backs.2
    ⟨n, st', run, steady', backs'⟩

/-- A delivered block comes with no reference taken. -/
theorem spec_ingest (p : Pool) (ℓ : LinkId) (X : BlockId) (bytes : List UInt8) (timestamp : Nat) :
    Spec (·.Backs owed) (p.ingest ℓ X bytes timestamp) (fun _ st => st.Backs owed) (fun _ => False) :=
  Spec.of_ok fun _ backs =>
    let ⟨run, steady'⟩ := Pool.ingest_run p ℓ X bytes timestamp backs.1
    ⟨_, _, run, steady', backs.2.insertBlock rfl⟩

end Storage


/-! ### The engine -/

theorem onBlock_eraseIdx {rows : List KeyRow} {i : Nat} {lost : KeyRow} (found : rows[i]? = some lost)
    (X : BlockId) :
    onBlock ((rows.eraseIdx i).flatMap (·.spans)) X + onBlock lost.spans X = onBlock (rows.flatMap (·.spans)) X := by
  obtain ⟨inside, rfl⟩ := List.getElem?_eq_some_iff.mp found
  have whole : rows = rows.take i ++ rows[i] :: rows.drop (i + 1) := by
    rw [← List.drop_eq_getElem_cons inside, List.take_append_drop]
  conv_rhs => rw [whole]
  simp only [List.eraseIdx_eq_take_drop_succ, List.flatMap_append, List.flatMap_cons, onBlock_append]
  omega

/-- Rows that name each range once, each range consumed, name no block more often than the
consumed ranges they keep. -/
theorem onBlock_le_retained {ranges consumed : List Span} (once : ranges.Nodup)
    (within : ∀ s ∈ ranges, s ∈ consumed) (X : BlockId) :
    onBlock ranges X ≤ onBlock (consumed.filter (ranges.contains ·)) X :=
  (once.subperm fun s member => List.mem_filter.mpr ⟨within s member, by simpa using member⟩).countP_le _

theorem Except.bind_eq_ok {ε α β : Type} {x : Except ε α} {f : α → Except ε β} {b : β} (h : (x >>= f) = .ok b) :
    ∃ a, x = .ok a ∧ f a = .ok b := by
  cases x with
  | error e => exact nomatch h
  | ok a => exact ⟨a, rfl, h⟩

namespace Engine

theorem checkRows_consumed {ℓ : LinkId} {consumed : List Span} : ∀ {rows : List KeyRow},
    checkRows ℓ rows consumed = .ok () → ∀ s ∈ rows.flatMap (·.spans), s ∈ consumed
  | [], _ => by simp
  | row :: rest, checked => by
    obtain ⟨⟨⟩, first, later⟩ := Except.bind_eq_ok checked
    -- the row passed its three checks; the last says its spans were consumed
    have own : ∀ s ∈ row.spans, s ∈ consumed := by
      dsimp only at first
      split at first
      · exact nomatch first
      split at first
      · exact nomatch first
      split at first
      · exact nomatch first
      rename_i unconsumed
      simpa using unconsumed
    intro s member
    rcases List.mem_append.mp (List.flatMap_cons ▸ member) with here | there
    · exact own s here
    · exact checkRows_consumed later s there

variable {owed : List Span} {α : Type}

/-- Runs that keep the records steady and touch neither their blocks nor their rows. -/
def Quiet (s t : Env × Storage) : Prop := Storage.Quiet s.2 t.2

theorem quiet_chains : Chains Quiet :=
  ⟨fun s => Storage.quiet_chains.refl s.2, fun first second => Storage.quiet_chains.trans first second⟩

theorem keeps_quiet_records {m : StoreM α} (inner : Keeps Storage.Quiet m) : Keeps Quiet (records m) := by
  intro s
  have started := inner s.2
  unfold records EStateM.focus
  cases run : m s.2 <;> rw [run] at started <;> exact started

theorem spec_quiet {m : EngineM α} (quiet : Keeps Quiet m) :
    Spec (·.2.Backs owed) m (fun _ s => s.2.Backs owed) (·.2.Backs owed) :=
  Spec.of_keeps quiet fun _ _ backs still => backs.quiet still

theorem spec_records {m : StoreM α} {P : Storage → Prop} {Q : α → Storage → Prop} {E : Storage → Prop}
    (inner : Spec P m Q E) : Spec (fun s => P s.2) (records m) (fun a s => Q a s.2) (fun s => E s.2) := by
  rintro ⟨e, st⟩ start
  obtain ⟨returned, failed⟩ := inner st start
  cases run : m st with
  | ok a t =>
    rw [records_ok e run]
    exact ⟨fun a' t' done => (by cases done; exact returned a t run), fun _ _ done => (by cases done)⟩
  | error f t =>
    rw [records_error e run]
    exact ⟨fun _ _ done => (by cases done), fun f' t' done => (by cases done; exact failed f t run)⟩

theorem spec_records_total {m : StoreM α} {P : Storage → Prop} {Q : α → Storage → Prop}
    {E : Env × Storage → Prop} (inner : Spec P m Q fun _ => False) :
    Spec (fun s => P s.2) (records m) (fun a s => Q a s.2) E :=
  (spec_records inner).returns

theorem spec_wallSecs {E : Env × Storage → Prop} :
    Spec (·.2.Backs owed) wallSecs (fun _ s => s.2.Backs owed) E :=
  Spec.of_ok fun s backs => ⟨_, s, rfl, backs⟩

theorem spec_draw {E : Env × Storage → Prop} : Spec (·.2.Backs owed) draw (fun _ s => s.2.Backs owed) E :=
  Spec.of_ok fun _ backs => ⟨_, _, rfl, backs⟩

theorem spec_onFailure {m : EngineM α} {undo : Fault → EngineM Unit} {P E₀ E : Env × Storage → Prop}
    {Q : α → Env × Storage → Prop} (first : Spec P m Q E₀) (recover : ∀ f, Spec E₀ (undo f) (fun _ => E) E) :
    Spec P (onFailure m undo) Q E :=
  Spec.tryCatch first fun _ => Spec.bind (recover _) fun _ => Spec.throw fun _ holds => holds

theorem spec_rollback_release (spans : List Span) {E : Env × Storage → Prop} :
    Spec (·.2.Backs spans) (rollback spans true) (fun _ s => s.2.Backs []) E :=
  spec_records_total (Spec.attempt (@Storage.spec_undo [] spans true).returns)

theorem spec_rollback_keep (spans : List Span) {E : Env × Storage → Prop} :
    Spec (·.2.Backs owed) (rollback spans false) (fun _ s => s.2.Backs owed) E :=
  spec_records_total (Spec.attempt ((@Storage.spec_undo owed spans false).weaken fun _ backs => by
    simpa using backs).returns)

/-- Cutting keys one after the other owes a reference for each span cut; a failure gives
them all back. -/
theorem spec_cutKeys (pool : Pool) (ℓ : LinkId) (size now : Nat) : ∀ (k : Nat) (carved : List Span)
    (keys : List Issued),
    Spec (·.2.Backs carved) (cutKeys pool ℓ size now k carved keys) (fun r s => s.2.Backs r.1) (·.2.Backs [])
  | 0, carved, keys => Spec.pure fun _ backs => backs
  | k + 1, carved, keys => by
    simp only [cutKeys]
    refine Spec.bind (spec_onFailure (spec_records (@Storage.spec_reserve carved pool ℓ size now))
      fun _ => spec_rollback_release carved) fun spans => ?_
    refine Spec.bind (spec_onFailure (spec_records (Storage.spec_read spans))
      fun _ => spec_rollback_release (carved ++ spans)) fun material => ?_
    exact Spec.bind spec_draw fun keyId => spec_cutKeys pool ℓ size now k (carved ++ spans) _

/-- Dropping the references of cut spans one by one pays them all. -/
theorem spec_releaseEach (carved : List Span) {E : Env × Storage → Prop} : ∀ (released : Nat) (rest : List Span),
    Spec (·.2.Backs rest) (releaseEach carved released rest) (fun _ s => s.2.Backs []) E
  | _, [] => Spec.pure fun _ backs => backs
  | released, s :: rest => by
    simp only [releaseEach]
    have first : Spec (·.2.Backs (s :: rest)) (records (Pool.releaseRange [s])) (fun _ s => s.2.Backs rest)
        fun _ => False :=
      (spec_records (@Storage.spec_releaseRange rest [s])).weaken fun _ backs => backs.mono fun X => by simp
    exact Spec.bind (spec_onFailure first fun _ => Spec.of_false) fun _ => spec_releaseEach carved (released + 1) rest

/-- A generation owes nothing at its end, whether it cut its keys or failed. -/
theorem spec_generate (pool : Pool) (ksid : Ksid) (ℓ : LinkId) (sizeBits count keepLocal : Nat) :
    Spec (·.2.Backs []) (generate pool ksid ℓ sizeBits count keepLocal) (fun _ s => s.2.Backs []) (·.2.Backs []) := by
  unfold generate
  dsimp only
  split
  · exact Spec.bind (Spec.throw fun _ backs => backs) fun _ => Spec.of_false
  refine Spec.bind spec_wallSecs fun now => ?_
  refine Spec.bind (spec_cutKeys pool ℓ (sizeBits / 8) now count [] []) fun cut => ?_
  obtain ⟨carved, keys⟩ := cut
  refine Spec.bind (spec_releaseEach carved 0 carved) fun _ => ?_
  dsimp only
  split
  · exact Spec.bind (spec_onFailure (spec_records (Storage.spec_quiet (Storage.keeps_quiet_storeLocalKeys _)))
      fun _ => spec_rollback_keep carved) fun _ => Spec.pure fun _ backs => backs
  · exact Spec.pure fun _ backs => backs

theorem keeps_quiet_discard (ksid : Ksid) (keys : List KeyId) : Keeps Quiet (discard ksid keys) :=
  Keeps.forM quiet_chains _ fun _ _ => Keeps.bind quiet_chains
    (keeps_quiet_records (Storage.keeps_quiet_takeLocalKey _ _)) fun _ => Keeps.pure quiet_chains _

theorem spec_undoBatch (ksid : Ksid) (b : Batch) :
    Spec (·.2.Backs owed) (undoBatch ksid b) (fun _ s => s.2.Backs owed) (·.2.Backs owed) :=
  Spec.bind (spec_quiet (keeps_quiet_discard ksid b.storedIds)) fun _ =>
    (spec_records ((@Storage.spec_undo owed b.consumed false).weaken fun _ backs => by simpa using backs)).returns

/-- Storing rows again pays what is owed on them. -/
theorem spec_restoreRows (rows : List KeyRow) {E : Env × Storage → Prop} :
    Spec (·.2.Backs (rows.flatMap (·.spans))) (restoreRows rows) (fun _ s => s.2.Backs []) E := by
  unfold restoreRows
  split
  · rename_i empty
    rw [List.isEmpty_iff.mp empty]
    exact Spec.pure fun _ backs => backs
  · exact spec_records_total (Spec.attempt (@Storage.spec_storeKeyRows [] rows).returns)

theorem spec_afterFailedReplay (row : KeyRow) (f : Fault) {E : Env × Storage → Prop} :
    Spec (·.2.Backs row.spans) (afterFailedReplay row f) (fun _ s => s.2.Backs []) E := by
  unfold afterFailedReplay
  split
  · exact spec_records_total (Spec.attempt (@Storage.spec_releaseRange [] row.spans).returns)
  · exact (spec_restoreRows [row]).weaken fun _ backs => by simpa using backs

/-- Replaying a row owes nothing at its end: the row's references are released once the row
is taken, or the row is stored again. -/
theorem spec_reconstruct (ksid : Ksid) (key : KeyId) :
    Spec (·.2.Backs []) (reconstruct ksid key) (fun _ s => s.2.Backs []) (·.2.Backs []) := by
  unfold reconstruct
  refine Spec.bind (spec_records (@Storage.spec_takeKeyRow [] ksid key)).returns fun row => ?_
  cases row with
  | none => exact Spec.throw fun _ backs => backs
  | some row =>
    refine Spec.bind (spec_onFailure (spec_records (Storage.spec_read row.spans))
      fun f => spec_afterFailedReplay row f) fun _ => ?_
    exact Spec.bind (spec_records (@Storage.spec_releaseRange [] row.spans)).returns fun _ =>
      Spec.pure fun _ backs => backs

/-- Taking rows one after the other owes the references of each row taken; a missing row puts
the taken ones back. -/
theorem spec_takeRows (ksid : Ksid) : ∀ (keys : List KeyId) (taken : List KeyRow),
    Spec (·.2.Backs (taken.flatMap (·.spans))) (takeRows ksid keys taken)
      (fun rows s => s.2.Backs (rows.flatMap (·.spans))) (·.2.Backs [])
  | [], taken => Spec.pure fun _ backs => backs
  | k :: rest, taken => by
    unfold takeRows
    refine Spec.bind (Q := fun row (s : Env × Storage) => s.2.Backs (taken.flatMap (·.spans) ++ row.spans))
      (spec_onFailure ?_ fun _ => spec_restoreRows taken) fun row =>
        (spec_takeRows ksid rest (taken ++ [row])).weaken fun _ backs => by simpa using backs
    refine Spec.bind (spec_records (@Storage.spec_takeKeyRow (taken.flatMap (·.spans)) ksid k)).returns
      fun found => ?_
    cases found with
    | none => exact Spec.throw fun _ backs => by simpa using backs
    | some row => exact Spec.pure fun _ backs => backs

theorem spec_replayRows {E : Env × Storage → Prop} : ∀ (rows : List KeyRow) (i : Nat) (keys : List Material),
    Spec (·.2.Backs owed) (replayRows rows i keys) (fun _ s => s.2.Backs owed) E
  | [], _, _ => Spec.pure fun _ backs => backs
  | row :: rest, i, keys => by
    unfold replayRows
    refine Spec.bind (Q := fun _ s => s.2.Backs owed) (Spec.tryCatch (Spec.bind (spec_records (Storage.spec_read row.spans))
      fun _ => Spec.pure fun _ backs => backs) fun _ => Spec.pure fun _ backs => backs) fun r => ?_
    cases r with
    | error f => exact Spec.pure fun _ backs => backs
    | ok m => exact spec_replayRows rest _ _

theorem keeps_quiet_takeLocals (ksid : Ksid) : ∀ (keys : List KeyId) (taken : List LocalKey),
    Keeps Quiet (takeLocals ksid keys taken)
  | [], _ => Keeps.pure quiet_chains _
  | k :: rest, taken => by
    unfold takeLocals onFailure
    refine Keeps.bind quiet_chains (Keeps.tryCatch quiet_chains ?_ fun _ => ?_) fun _ =>
      keeps_quiet_takeLocals ksid rest _
    · refine Keeps.bind quiet_chains (keeps_quiet_records (Storage.keeps_quiet_takeLocalKey ksid (some k)))
        fun key => ?_
      cases key with
      | none => exact Keeps.throw quiet_chains _
      | some key => exact Keeps.pure quiet_chains _
    · refine Keeps.bind quiet_chains ?_ fun _ => Keeps.throw quiet_chains _
      split
      · exact Keeps.pure quiet_chains _
      · exact keeps_quiet_records (Keeps.attempt Storage.quiet_chains (Storage.keeps_quiet_storeLocalKeys taken))

/-- Handing out keys owes nothing at the end: the rows replayed are released, and on a failure
the rows are stored again, less the one whose bytes are lost. -/
theorem spec_retrieve (ksid : Ksid) (keys : List KeyId) (replay : Bool) :
    Spec (·.2.Backs []) (retrieve ksid keys replay) (fun _ s => s.2.Backs []) (·.2.Backs []) := by
  unfold retrieve
  dsimp only
  split
  · exact Spec.bind (Spec.throw fun _ backs => backs) fun _ => Spec.of_false
  split
  · refine Spec.bind (spec_takeRows ksid keys []) fun rows => ?_
    refine Spec.bind (spec_replayRows rows 0 []) fun result => ?_
    obtain ⟨materials, failed⟩ := result
    cases failed with
    | some lost =>
      obtain ⟨i, f⟩ := lost
      -- whichever rows stay are stored again, and the failure is passed on
      have finish : ∀ kept : List KeyRow, Spec (·.2.Backs (kept.flatMap (·.spans)))
          (do restoreRows kept; throw f : EngineM (List Material)) (fun _ s => s.2.Backs []) (·.2.Backs []) :=
        fun kept => Spec.bind (spec_restoreRows kept) fun _ => Spec.throw fun _ backs => backs
      dsimp only
      split
      · split
        · rename_i lost found
          have release := (@Storage.spec_releaseRange ((rows.eraseIdx i).flatMap (·.spans)) lost.spans).weaken
            fun (st : Storage) (backs : st.Backs (rows.flatMap (·.spans))) => backs.mono fun X => le_of_eq (by
              rw [onBlock_append, onBlock_eraseIdx found])
          exact Spec.bind (spec_records_total (Spec.attempt release.returns)) fun _ =>
            Spec.bind (Spec.pure fun _ backs => backs) finish
        · rename_i missing
          have same : rows.eraseIdx i = rows :=
            List.eraseIdx_of_length_le (List.getElem?_eq_none_iff.mp (Option.eq_none_iff_forall_ne_some.mpr missing))
          exact Spec.bind (Spec.pure fun _ backs => by rw [same]; exact backs) finish
      · exact Spec.bind (Spec.pure fun _ backs => backs) finish
    | none =>
      exact Spec.bind (spec_records (@Storage.spec_releaseRange [] _)).returns fun _ =>
        Spec.pure fun _ backs => backs
  · exact Spec.bind (spec_quiet (keeps_quiet_takeLocals ksid keys [])) fun _ => Spec.pure fun _ backs => backs

/-- Forgetting a session releases what its rows held. -/
theorem spec_purgeSession (ksid : Ksid) :
    Spec (·.2.Backs []) (purgeSession ksid) (fun _ s => s.2.Backs []) (·.2.Backs []) :=
  Spec.bind (spec_records (Storage.spec_quiet (Storage.keeps_quiet_purgeLocalKeys ksid))) fun _ =>
    Spec.bind (spec_records (@Storage.spec_takeSessionRows [] ksid)).returns fun _ =>
      (spec_records (@Storage.spec_releaseRange [] _)).returns

/-- Following a companion whose rows name each range once: each range's reference is taken
once and then held by its row. -/
theorem spec_applySync (ℓ : LinkId) (rows : List KeyRow) (consumed : List Span)
    (once : (rows.flatMap (·.spans)).Nodup) :
    Spec (·.2.Backs []) (applySync ℓ rows consumed) (fun _ s => s.2.Backs []) (·.2.Backs []) := by
  unfold applySync
  cases checked : checkRows ℓ rows consumed with
  | error f => exact Spec.bind (Spec.throw fun _ backs => backs) fun _ => Spec.of_false
  | ok u =>
    cases u
    have within := checkRows_consumed checked
    refine Spec.bind (Q := fun _ s => s.2.Backs []) (Spec.pure fun _ backs => backs) fun _ => ?_
    refine Spec.bind (spec_records (@Storage.spec_acknowledge [] ℓ consumed (rows.flatMap (·.spans)))) fun _ => ?_
    refine spec_onFailure ((spec_records (@Storage.spec_storeKeyRows [] rows)).returns.weaken
      fun _ backs => backs.mono fun X => ?_) fun _ => Spec.of_false
    simpa using onBlock_le_retained once within X

theorem spec_sweep (pool : Pool) :
    Spec (·.2.Backs owed) (sweep pool) (fun _ s => s.2.Backs owed) (·.2.Backs owed) :=
  Spec.bind spec_wallSecs fun now => (spec_records (Storage.spec_sweep pool now)).returns

theorem keeps_quiet_wallSecs : Keeps Quiet wallSecs := fun s => quiet_chains.refl s

theorem keeps_quiet_storeLocal (ksid : Ksid) (keys : List (KeyId × Material)) : Keeps Quiet (storeLocal ksid keys) :=
  Keeps.bind quiet_chains keeps_quiet_wallSecs fun _ => keeps_quiet_records (Storage.keeps_quiet_storeLocalKeys _)

theorem keeps_quiet_takePrefetched (ksid : Ksid) (sizeBits : Nat) : Keeps Quiet (takePrefetched ksid sizeBits) := by
  unfold takePrefetched
  refine Keeps.bind quiet_chains (keeps_quiet_records (Storage.keeps_quiet_takeLocalKey ksid none)) fun key => ?_
  cases key with
  | none => exact Keeps.pure quiet_chains _
  | some key =>
    dsimp only
    split
    · exact Keeps.pure quiet_chains _
    · exact Keeps.bind quiet_chains (keeps_quiet_records (Storage.keeps_quiet_storeLocalKeys _))
        fun _ => Keeps.pure quiet_chains _

theorem keeps_quiet_sessionKeyCount (ksid : Ksid) : Keeps Quiet (sessionKeyCount ksid) :=
  keeps_quiet_records (Storage.keeps_quiet_read _ _)

theorem keeps_quiet_available (pool : Pool) (ℓ : LinkId) : Keeps Quiet (available pool ℓ) :=
  Keeps.bind quiet_chains keeps_quiet_wallSecs fun _ => keeps_quiet_records
    (Keeps.bind Storage.quiet_chains (Keeps.bind Storage.quiet_chains (Storage.keeps_quiet_read _ _)
      fun _ => Keeps.pure Storage.quiet_chains _) fun _ => Keeps.pure Storage.quiet_chains _)

end Engine

end KeyRelay
