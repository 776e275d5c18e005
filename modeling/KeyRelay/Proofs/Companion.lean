import KeyRelay.Proofs.Prefetch

/-! The companion's rows of a session served over one link. The companion stores the rows the
master sends it, all or none, and hands a key out by taking its row: a request that fails puts
back the rows it took, less those whose bytes are gone, so it only ever loses rows of keys it was
asked for. -/

namespace KeyRelay

namespace Store

/-- The rows are filed under their own session and key ids. -/
def RowsFiled (d : Store) : Prop := d.rows.Keyed fun r => (r.ksid, r.keyId)

/-- Session `x` has rows of every id in `L` and of no id outside `U`, each filed under its own
ids. -/
def RowsBetween (d : Store) (x : Ksid) (L U : KeyId → Prop) : Prop :=
  d.RowsFiled ∧ (∀ i, L i → d.HasRow x i) ∧ ∀ i, d.HasRow x i → U i

variable {d : Store} {x : Ksid} {L U L' U' : KeyId → Prop}

theorem RowsBetween.weaken (between : d.RowsBetween x L U) (lower : ∀ i, L' i → L i) (upper : ∀ i, U i → U' i) :
    d.RowsBetween x L' U' :=
  ⟨between.1, fun i low => between.2.1 i (lower i low), fun i row => upper i (between.2.2 i row)⟩

/-- What a store holds of rows depends on its rows alone. -/
theorem rowsBetween_of_rows {d' : Store} (same : d'.rows = d.rows) (between : d.RowsBetween x L U) :
    d'.RowsBetween x L U := by
  simpa only [RowsBetween, RowsFiled, HasRow, same] using between

theorem rowsBetween_storeRows (between : d.RowsBetween x L U) (rows : List KeyRow) :
    (d.storeRows rows).RowsBetween x (fun i => L i ∨ ∃ r ∈ rows, r.ksid = x ∧ r.keyId = i)
      (fun i => U i ∨ ∃ r ∈ rows, r.ksid = x ∧ r.keyId = i) :=
  ⟨Table.Keyed.foldl_insert rows between.1, fun i low => (hasRow_storeRows rows i).mpr (low.imp (between.2.1 i) id),
    fun i row => ((hasRow_storeRows rows i).mp row).imp (between.2.2 i) id⟩

theorem hasRow_takeRow (k i : KeyId) : (d.takeRow x k).2.HasRow x i ↔ d.HasRow x i ∧ i ≠ k := by
  simp only [HasRow, takeRow, Table.get?_erase, Prod.mk.injEq, true_and]
  by_cases same : k = i
  · subst same
    simp
  · simp [same, Ne.symm same]

/-- Taking the row of key `k` takes that key's row, one the session had, and leaves the others. -/
theorem rowsBetween_takeRow (between : d.RowsBetween x L U) (k : KeyId) :
    (∀ row, (d.takeRow x k).1 = some row → row.ksid = x ∧ row.keyId = k ∧ U k) ∧
      (d.takeRow x k).2.RowsBetween x (fun i => L i ∧ i ≠ k) (fun i => U i ∧ i ≠ k) := by
  refine ⟨fun row found => ?_, Table.Keyed.erase between.1 _, fun i low => ?_, fun i row => ?_⟩
  · obtain ⟨same, named⟩ := Prod.mk.inj (between.1.get? found)
    have had : d.HasRow x k := by simp [HasRow, show d.rows.get? (x, k) = some row from found]
    exact ⟨same.symm, named.symm, between.2.2 k had⟩
  · exact (hasRow_takeRow k i).mpr ⟨between.2.1 i low.1, low.2⟩
  · obtain ⟨had, apart⟩ := (hasRow_takeRow k i).mp row
    exact ⟨between.2.2 i had, apart⟩

end Store

namespace Storage

variable {x : Ksid} {L U : KeyId → Prop}

theorem spec_storeKeyRows_rows (rows : List KeyRow) :
    Spec (·.data.RowsBetween x L U) (storeKeyRows rows)
      (fun _ st => st.data.RowsBetween x (fun i => L i ∨ ∃ r ∈ rows, r.ksid = x ∧ r.keyId = i)
        (fun i => U i ∨ ∃ r ∈ rows, r.ksid = x ∧ r.keyId = i))
      (·.data.RowsBetween x L U) :=
  @spec_of_write _ (·.RowsBetween x L U)
    (fun _ d => d.RowsBetween x (fun i => L i ∨ ∃ r ∈ rows, r.ksid = x ∧ r.keyId = i)
      (fun i => U i ∨ ∃ r ∈ rows, r.ksid = x ∧ r.keyId = i))
    (·.RowsBetween x L U) "store_key_rows" (fun d => ((), d.storeRows rows))
    (fun _ between => Store.rowsBetween_storeRows between rows) fun _ between => between

theorem spec_takeKeyRow_rows (k : KeyId) :
    Spec (·.data.RowsBetween x L U) (takeKeyRow x k)
      (fun taken st => (∀ row, taken = some row → row.ksid = x ∧ row.keyId = k ∧ U k) ∧
        st.data.RowsBetween x (fun i => L i ∧ i ≠ k) (fun i => U i ∧ i ≠ k))
      (·.data.RowsBetween x L U) :=
  @spec_of_write _ (·.RowsBetween x L U)
    (fun (taken : Option KeyRow) (d : Store) => (∀ row : KeyRow, taken = some row → row.ksid = x ∧ row.keyId = k ∧ U k) ∧
      d.RowsBetween x (fun i => L i ∧ i ≠ k) (fun i => U i ∧ i ≠ k))
    (·.RowsBetween x L U) "take_key_row" (·.takeRow x k)
    (fun _ between => Store.rowsBetween_takeRow between k) fun _ between => between

end Storage

namespace Engine

variable {α : Type} {x : Ksid} {L U : KeyId → Prop}

theorem spec_rows_of_sameKeys {m : EngineM α} (keeps : Keeps SameKeys m) :
    Spec (·.2.data.RowsBetween x L U) m (fun _ s => s.2.data.RowsBetween x L U) (·.2.data.RowsBetween x L U) :=
  spec_of_sameKeys (fun same between => Store.rowsBetween_of_rows same.1 between) keeps

/-- Rows put back are of keys the session may have. -/
theorem restoreRows_rows {rows : List KeyRow} (within : ∀ row ∈ rows, row.ksid = x → U row.keyId) :
    Spec (·.2.data.RowsBetween x L U) (restoreRows rows) (fun _ s => s.2.data.RowsBetween x L U)
      (·.2.data.RowsBetween x L U) := by
  unfold restoreRows
  split
  · exact Spec.pure fun _ start => start
  · refine spec_records (Spec.attempt (E := (·.data.RowsBetween x L U)) ((Storage.spec_storeKeyRows_rows rows).conseq
      (fun _ start => start)
      (fun _ _ done => ?_) fun _ failed => failed))
    refine done.weaken (fun _ low => .inl low) fun i row => ?_
    rcases row with old | ⟨r, member, same, rfl⟩
    · exact old
    · exact within r member same

/-- Taking the rows of the keys named takes exactly those, from rows between `R` and `R`; a
failure puts back the rows taken, all of keys in `U`. -/
theorem takeRows_rows {U : KeyId → Prop} : ∀ (keys : List KeyId) (taken : List KeyRow) {R : KeyId → Prop},
    (∀ i, R i → U i) → (∀ row ∈ taken, row.ksid = x → U row.keyId) →
    Spec (·.2.data.RowsBetween x R R) (takeRows x keys taken)
      (fun all s => s.2.data.RowsBetween x (fun i => R i ∧ i ∉ keys) (fun i => R i ∧ i ∉ keys) ∧
        ∀ row ∈ all, row.ksid = x → U row.keyId)
      (·.2.data.RowsBetween x (fun i => R i ∧ i ∉ keys) U)
  | [], taken, R, _, before => Spec.pure fun _ start => ⟨start.weaken (by simp) (by simp), before⟩
  | k :: rest, taken, R, within, before => by
    have untaken : ∀ i, ((R i ∧ i ≠ k) ∧ i ∉ rest) ↔ (R i ∧ i ∉ k :: rest) := fun i => by simp [and_assoc]
    have lower : ∀ {d : Store}, d.RowsBetween x (fun i => R i ∧ i ≠ k) U →
        d.RowsBetween x (fun i => R i ∧ i ∉ k :: rest) U :=
      fun between => between.weaken (fun i absent => ((untaken i).mpr absent).1) fun _ row => row
    unfold takeRows
    -- the row taken is one the session had; a failure puts back the rows taken before it
    refine Spec.bind (Q := fun row s => s.2.data.RowsBetween x (fun i => R i ∧ i ≠ k) (fun i => R i ∧ i ≠ k) ∧
        (row.ksid = x ∧ U row.keyId))
      (spec_onFailure ?take fun _ => ((restoreRows_rows before).conseq (fun _ start => start)
        (fun _ _ done => lower done) fun _ failed => lower failed :
          Spec (·.2.data.RowsBetween x (fun i => R i ∧ i ≠ k) U) _ _ _))
      fun row => Spec.assume fun taken' => ?rest
    case take =>
      refine Spec.bind ((spec_records (Storage.spec_takeKeyRow_rows (L := R) (U := R) k)).conseq (fun _ start => start)
        (fun _ _ done => done) fun _ failed => failed.weaken (fun _ low => low.1) within) fun found => ?_
      cases found with
      | none => exact Spec.throw fun _ held => held.2.weaken (fun _ low => low) fun i row => within i row.1
      | some row =>
        refine Spec.pure fun _ held => ⟨held.2, (held.1 row rfl).1, ?_⟩
        rw [(held.1 row rfl).2.1]
        exact within k (held.1 row rfl).2.2
    case rest =>
      refine (takeRows_rows rest (taken ++ [row]) (R := fun i => R i ∧ i ≠ k) (fun i held => within i held.1)
        fun r member => ?_).conseq (fun _ start => start)
          (fun _ _ done => ⟨done.1.weaken (fun i absent => (untaken i).mpr absent) fun i row => (untaken i).mp row,
            done.2⟩)
          fun _ failed => failed.weaken (fun i absent => (untaken i).mpr absent) fun _ row => row
      rcases List.mem_append.mp member with old | new
      · exact before r old
      · rw [List.mem_singleton.mp new]
        exact fun _ => taken'.2

/-- Handing out keys by their rows takes exactly the rows named, or on failure puts back some of
them. -/
theorem retrieve_rows (keys : List KeyId) {R : KeyId → Prop} :
    Spec (·.2.data.RowsBetween x R R) (retrieve x keys true)
      (fun _ s => s.2.data.RowsBetween x (fun i => R i ∧ i ∉ keys) (fun i => R i ∧ i ∉ keys))
      (·.2.data.RowsBetween x (fun i => R i ∧ i ∉ keys) R) := by
  have taken : ∀ {d : Store}, d.RowsBetween x (fun i => R i ∧ i ∉ keys) (fun i => R i ∧ i ∉ keys) →
      d.RowsBetween x (fun i => R i ∧ i ∉ keys) R := fun between => between.weaken (fun _ low => low) fun _ row => row.1
  have same : ∀ {β : Type} {m : EngineM β}, Keeps SameKeys m →
      Spec (·.2.data.RowsBetween x (fun i => R i ∧ i ∉ keys) (fun i => R i ∧ i ∉ keys)) m
        (fun _ s => s.2.data.RowsBetween x (fun i => R i ∧ i ∉ keys) (fun i => R i ∧ i ∉ keys))
        (·.2.data.RowsBetween x (fun i => R i ∧ i ∉ keys) R) := fun keeps =>
    (spec_rows_of_sameKeys keeps).conseq (fun _ start => start) (fun _ _ done => done) fun _ failed => taken failed
  unfold retrieve
  dsimp only
  split
  · exact Spec.bind (Spec.throw fun _ start => start.weaken (fun _ low => low.1) fun _ row => row) fun _ => Spec.of_false
  split
  · refine Spec.bind (takeRows_rows (U := R) keys [] (fun _ held => held) fun _ none => nomatch none) fun rows => ?_
    refine Spec.assume fun within => ?_
    refine Spec.bind (same (keeps_sameKeys_replayRows rows 0 [])) fun result => ?_
    obtain ⟨materials, failed⟩ := result
    cases failed with
    | some lost =>
      obtain ⟨i, f⟩ := lost
      -- the rows put back are some of those taken, all rows the session had
      have finish : ∀ kept : List KeyRow,
          Spec (fun s => s.2.data.RowsBetween x (fun i => R i ∧ i ∉ keys) (fun i => R i ∧ i ∉ keys) ∧
            ∀ row ∈ kept, row ∈ rows)
            (do restoreRows kept; throw f : EngineM (List Material))
            (fun _ s => s.2.data.RowsBetween x (fun i => R i ∧ i ∉ keys) (fun i => R i ∧ i ∉ keys))
            (·.2.data.RowsBetween x (fun i => R i ∧ i ∉ keys) R) := fun kept =>
        Spec.assume fun sub => Spec.bind ((restoreRows_rows fun row member => within row (sub row member)).conseq
          (fun _ start => taken start) (fun _ _ done => done) fun _ failed => failed) fun _ =>
            Spec.throw fun _ done => done
      dsimp only
      split
      · split
        · exact Spec.bind (same (keeps_sameKeys_records (Keeps.attempt Storage.sameKeys_chains
            (Pool.keeps_sameKeys_releaseRange _)))) fun _ =>
              Spec.bind (Spec.pure fun _ start => ⟨start, fun _ member => List.mem_of_mem_eraseIdx member⟩) finish
        · exact Spec.bind (Spec.pure fun _ start => ⟨start, fun _ member => List.mem_of_mem_eraseIdx member⟩) finish
      · exact Spec.bind (Spec.pure fun _ start => ⟨start, fun _ member => member⟩) finish
    | none =>
      exact Spec.bind (same (keeps_sameKeys_records (Pool.keeps_sameKeys_releaseRange _))) fun _ =>
        Spec.pure fun _ done => done
  · contradiction

/-- Following the master's batch stores all its rows, or none. -/
theorem applySync_rows (ℓ : LinkId) (rows : List KeyRow) (consumed : List Span) {R : KeyId → Prop} :
    Spec (·.2.data.RowsBetween x R R) (applySync ℓ rows consumed)
      (fun _ s => s.2.data.RowsBetween x (fun i => R i ∨ ∃ r ∈ rows, r.ksid = x ∧ r.keyId = i)
        (fun i => R i ∨ ∃ r ∈ rows, r.ksid = x ∧ r.keyId = i))
      (·.2.data.RowsBetween x R R) := by
  unfold applySync
  refine Spec.bind (Spec.of_keeps (Keeps.ofExcept sameKeys_chains _) fun _ _ held same =>
    Store.rowsBetween_of_rows same.1 held) fun _ => ?_
  refine Spec.bind (spec_rows_of_sameKeys (keeps_sameKeys_records (Pool.keeps_sameKeys_acknowledge ℓ consumed _)))
    fun _ => ?_
  exact spec_onFailure (spec_records (Storage.spec_storeKeyRows_rows rows)) fun _ =>
    spec_rows_of_sameKeys (keeps_sameKeys_records (Keeps.attempt Storage.sameKeys_chains
      (Pool.keeps_sameKeys_releaseRange _)))

end Engine

theorem Store.RowsBetween.exact {d : Store} {x : Ksid} {R : KeyId → Prop} (between : d.RowsBetween x R R) (i : KeyId) :
    d.HasRow x i ↔ R i :=
  ⟨between.2.2 i, between.2.1 i⟩

/-- A request that touches no key: a delivered block, a link confirmed, or a status query. -/
def KmeRequest.Quiet : KmeRequest → Prop
  | .deliverBlock .. | .linkConfirmed .. | .status .. => True
  | _ => False

namespace Kme

/-- Node `k` has the id and the sessions of node `k₀`, and its rows, clear keys and stored session
records. -/
def Alike (k₀ k : Kme) : Prop := k.id = k₀.id ∧ k.sessions = k₀.sessions ∧ Storage.SameKeys k₀.storage k.storage

theorem Alike.holds {k k' : Kme} (alike : Alike k k') (x : Ksid) (i : KeyId) :
    k'.storage.data.Holds x i ↔ k.storage.data.Holds x i := by
  simp only [Store.Holds, alike.2.2.2.1]

theorem Alike.hasRow {k k' : Kme} (alike : Alike k k') (x : Ksid) (i : KeyId) :
    k'.storage.data.HasRow x i ↔ k.storage.data.HasRow x i := by
  simp only [Store.HasRow, alike.2.2.1]

theorem Alike.localsFiled {k k' : Kme} (alike : Alike k k') (filed : k.storage.data.LocalsFiled) :
    k'.storage.data.LocalsFiled := by
  simpa only [Store.LocalsFiled, alike.2.2.2.1] using filed

theorem Alike.rowsFiled {k k' : Kme} (alike : Alike k k') (filed : k.storage.data.RowsFiled) :
    k'.storage.data.RowsFiled := by
  simpa only [Store.RowsFiled, alike.2.2.1] using filed

section Companion

variable {α : Type} {k₀ : Kme} {x : Ksid}

theorem handle_syncKeys_rows (ℓ : LinkId) (rows : List KeyRow) (consumed : List Span) {R : KeyId → Prop} :
    Triple (fun s => RecordsOnly k₀ s.2 ∧ s.2.storage.data.RowsBetween x R R) (handle (.syncKeys ℓ rows consumed))
      (fun _ s => RecordsOnly k₀ s.2 ∧ s.2.storage.data.RowsBetween x
        (fun i => R i ∨ ∃ r ∈ rows, r.ksid = x ∧ r.keyId = i) (fun i => R i ∨ ∃ r ∈ rows, r.ksid = x ∧ r.keyId = i))
      (fun s => RecordsOnly k₀ s.2 ∧ s.2.storage.data.RowsBetween x R R) :=
  Triple.bind (triple_engine_only (Engine.applySync_rows ℓ rows consumed)) fun _ => Triple.pure _ fun _ done => done

/-- The slave application's request for keys of a session served over one link, at the
session's last node: the keys come from their rows. -/
theorem handle_decKeys_rows {r : SessionRecord} {c : KmeId} (indexed : k₀.sessions.byPair? r.src r.dst = some r)
    (direct : r.role k₀.id = .ok (.direct (some c))) (keys : List KeyId) {R : KeyId → Prop} :
    Triple (fun s => RecordsOnly k₀ s.2 ∧ s.2.storage.data.RowsBetween r.ksid R R) (handle (.decKeys r.src r.dst keys))
      (fun _ s => RecordsOnly k₀ s.2 ∧
        s.2.storage.data.RowsBetween r.ksid (fun i => R i ∧ i ∉ keys) (fun i => R i ∧ i ∉ keys))
      (fun s => RecordsOnly k₀ s.2 ∧ s.2.storage.data.RowsBetween r.ksid (fun i => R i ∧ i ∉ keys) R) := by
  have within : ∀ s : Env × Kme, RecordsOnly k₀ s.2 ∧ s.2.storage.data.RowsBetween r.ksid R R →
      RecordsOnly k₀ s.2 ∧ s.2.storage.data.RowsBetween r.ksid (fun i => R i ∧ i ∉ keys) R :=
    fun _ start => ⟨start.1, start.2.weaken (fun _ low => low.1) fun _ row => row⟩
  refine Triple.bind ((sweepQuietly_only fun same between => Store.rowsBetween_of_rows same.1 between).conseq
    (fun _ start => start) (fun _ _ done => done) within) fun _ => ?_
  unfold decKeys
  refine Triple.bind ((sessionByApps_only indexed).conseq (fun _ start => start) (fun _ _ done => done) within)
    fun r' => Triple.assume fun same => ?_
  subst same
  refine Triple.bind triple_current_only fun k => Triple.assume fun only => ?_
  dsimp only
  split
  · exact Triple.throw_bind _ within
  refine Triple.bind ((triple_checkCount keys.length).conseq (fun _ start => start) (fun _ _ done => done) within)
    fun _ => ?_
  -- the node's role is the one the session gives its last node, so the keys are replayed from rows
  refine Triple.bind ((triple_role_only only direct).conseq (fun _ start => start) (fun _ _ done => done) within)
    fun role' => Triple.assume fun same => ?_
  subst same
  refine Triple.bind (Q := fun replay (s : Env × Kme) => (RecordsOnly k₀ s.2 ∧
    s.2.storage.data.RowsBetween r'.ksid R R) ∧ replay = true) (Triple.pure true fun _ start => ⟨start, rfl⟩)
      fun replay => Triple.assume fun replayed => ?_
  subst replayed
  exact Triple.bind (triple_engine_only (Engine.retrieve_rows keys)) fun _ => Triple.pure _ fun _ done => done

theorem alike_engine {m : EngineM α} (keeps : Keeps Engine.SameKeys m) :
    Triple (fun s => Alike k₀ s.2) (engine m) (fun _ s => Alike k₀ s.2) (fun s => Alike k₀ s.2) :=
  (triple_engine_frame (F := fun k => k.id = k₀.id ∧ k.sessions = k₀.sessions) (fun same _ => same)
    (Spec.of_keeps (P := fun s => Storage.SameKeys k₀.storage s.2) keeps fun s t held same =>
      Storage.sameKeys_chains.trans (a := k₀.storage) (b := s.2) (c := t.2) held same)).conseq
    (fun _ start => ⟨⟨start.1, start.2.1⟩, start.2.2⟩) (fun _ _ done => ⟨done.1.1, done.1.2, done.2⟩)
    fun _ failed => ⟨failed.1.1, failed.1.2, failed.2⟩

theorem alike_records {m : StoreM α} (keeps : Keeps Storage.SameKeys m) :
    Triple (fun s => Alike k₀ s.2) (records m) (fun _ s => Alike k₀ s.2) (fun s => Alike k₀ s.2) :=
  alike_engine (Engine.keeps_sameKeys_records keeps)

theorem alike_change (f : Kme → Kme) (keeps : ∀ k, (f k).id = k.id ∧ (f k).sessions = k.sessions ∧ (f k).storage = k.storage)
    {E : Env × Kme → Prop} : Triple (fun s => Alike k₀ s.2) (change f) (fun _ s => Alike k₀ s.2) E := by
  intro s start
  obtain ⟨id, sessions, storage⟩ := keeps s.2
  refine ⟨id.trans start.1, sessions.trans start.2.1, ?_⟩
  show Storage.SameKeys k₀.storage (f s.2).storage
  rw [storage]
  exact start.2.2

theorem alike_deliverBlock (ℓ : LinkId) (X : BlockId) (timestamp : Nat) (bytes : List UInt8) :
    Triple (fun s => Alike k₀ s.2) (deliverBlock ℓ X timestamp bytes) (fun _ s => Alike k₀ s.2) (fun s => Alike k₀ s.2) := by
  unfold deliverBlock
  refine Triple.bind triple_current fun k => ?_
  refine Triple.bind ((alike_records (Pool.keeps_sameKeys_ingest k.pool ℓ X bytes timestamp)).conseq
    (fun _ start => start.1) (fun _ _ done => done) fun _ failed => failed) fun ingested => ?_
  dsimp only
  refine Triple.bind (alike_change _ fun _ => by exact ⟨rfl, rfl, rfl⟩) fun _ => ?_
  split
  · exact Triple.pure _ fun _ done => done
  refine Triple.bind triple_current fun k' => ?_
  refine Triple.bind ((alike_change _ fun _ => by exact ⟨rfl, rfl, rfl⟩).conseq (fun _ start => start.1)
    (fun _ _ done => done) fun _ failed => failed) fun _ => ?_
  refine Triple.bind (alike_records (Storage.keeps_sameKeys_storeLink _)) fun _ => ?_
  exact Triple.pure _ fun _ done => done

theorem alike_linkConfirmed (ℓ : LinkId) (c : KmeId) (address : String) :
    Triple (fun s => Alike k₀ s.2) (linkConfirmed ℓ c address) (fun _ s => Alike k₀ s.2) (fun s => Alike k₀ s.2) := by
  unfold linkConfirmed
  refine Triple.bind triple_wallSecs fun now => ?_
  refine Triple.bind triple_current fun k => ?_
  dsimp only
  refine Triple.bind ((alike_change _ fun _ => by exact ⟨rfl, rfl, rfl⟩).conseq (fun _ start => start.1)
    (fun _ _ done => done) fun _ failed => failed) fun _ => ?_
  refine Triple.bind (alike_records (Storage.keeps_sameKeys_storeLink _)) fun _ => ?_
  exact Triple.pure _ fun _ done => done

theorem alike_status (src dst : AppId) :
    Triple (fun s => Alike k₀ s.2) (status src dst) (fun _ s => Alike k₀ s.2) (fun s => Alike k₀ s.2) := by
  unfold status
  refine Triple.bind (triple_sessionByApps src dst) fun r => ?_
  refine Triple.bind (alike_engine (Engine.keeps_sameKeys_sessionKeyCount r.ksid)) fun _ => ?_
  exact Triple.bind triple_current fun _ => Triple.pure _ fun _ done => done.1

theorem alike_handle {req : KmeRequest} (quiet : req.Quiet) :
    Triple (fun s => Alike k₀ s.2) (handle req) (fun _ s => Alike k₀ s.2) (fun s => Alike k₀ s.2) := by
  cases req with
  | deliverBlock ℓ X timestamp bytes => exact alike_deliverBlock ℓ X timestamp bytes
  | linkConfirmed ℓ c address => exact alike_linkConfirmed ℓ c address
  | status src dst => exact alike_status src dst
  | _ => exact (quiet : False).elim

end Companion

/-- The companion follows a batch: failed, it has the rows it had; answered, it has those and the
batch's. -/
theorem respond_syncKeys_rows {k k' : Kme} {x : Ksid} (filed : k.storage.data.RowsFiled) {ℓ : LinkId}
    {rows : List KeyRow} {consumed : List Span} {e : Env} {out : Option Plan}
    (ran : respond (.syncKeys ℓ rows consumed) e k = some (out, k')) :
    RecordsOnly k k' ∧ k'.storage.data.RowsFiled ∧
      (out = none → ∀ i, k'.storage.data.HasRow x i ↔ k.storage.data.HasRow x i) ∧
      ∀ p, out = some p → ∀ i, k'.storage.data.HasRow x i ↔
        k.storage.data.HasRow x i ∨ ∃ row ∈ rows, row.ksid = x ∧ row.keyId = i := by
  obtain ⟨answered, failed⟩ := respond_outcome
    (P := fun k₁ => RecordsOnly k k₁ ∧
      k₁.storage.data.RowsBetween x (k.storage.data.HasRow x) (k.storage.data.HasRow x))
    (Q := fun _ k₁ => RecordsOnly k k₁ ∧ k₁.storage.data.RowsBetween x
      (fun i => k.storage.data.HasRow x i ∨ ∃ row ∈ rows, row.ksid = x ∧ row.keyId = i)
      (fun i => k.storage.data.HasRow x i ∨ ∃ row ∈ rows, row.ksid = x ∧ row.keyId = i))
    (E := fun k₁ => RecordsOnly k k₁ ∧
      k₁.storage.data.RowsBetween x (k.storage.data.HasRow x) (k.storage.data.HasRow x))
    (handle_syncKeys_rows ℓ rows consumed) ⟨RecordsOnly.refl k, filed, fun _ had => had, fun _ had => had⟩ ran
  cases out with
  | none =>
    obtain ⟨only, between⟩ := failed rfl
    exact ⟨only, between.1, fun _ => between.exact, fun _ absurd => nomatch absurd⟩
  | some p =>
    obtain ⟨only, between⟩ := answered p rfl
    exact ⟨only, between.1, fun absurd => (nomatch absurd), fun _ _ => between.exact⟩

/-- The companion hands out keys by their rows: it loses rows of keys named only, and answered,
it has none of them left. -/
theorem respond_decKeys_rows {k k' : Kme} {r : SessionRecord} {c : KmeId} (filed : k.storage.data.RowsFiled)
    (indexed : k.sessions.byPair? r.src r.dst = some r) (direct : r.role k.id = .ok (.direct (some c)))
    {keys : List KeyId} {e : Env} {out : Option Plan} (ran : respond (.decKeys r.src r.dst keys) e k = some (out, k')) :
    RecordsOnly k k' ∧ k'.storage.data.RowsFiled ∧
      (∀ i, k'.storage.data.HasRow r.ksid i → k.storage.data.HasRow r.ksid i) ∧
      (∀ i, k.storage.data.HasRow r.ksid i → i ∉ keys → k'.storage.data.HasRow r.ksid i) ∧
      ∀ p, out = some p → ∀ i ∈ keys, ¬ k'.storage.data.HasRow r.ksid i := by
  obtain ⟨answered, failed⟩ := respond_outcome
    (P := fun k₁ => RecordsOnly k k₁ ∧
      k₁.storage.data.RowsBetween r.ksid (k.storage.data.HasRow r.ksid) (k.storage.data.HasRow r.ksid))
    (Q := fun _ k₁ => RecordsOnly k k₁ ∧ k₁.storage.data.RowsBetween r.ksid
      (fun i => k.storage.data.HasRow r.ksid i ∧ i ∉ keys) (fun i => k.storage.data.HasRow r.ksid i ∧ i ∉ keys))
    (E := fun k₁ => RecordsOnly k k₁ ∧ k₁.storage.data.RowsBetween r.ksid
      (fun i => k.storage.data.HasRow r.ksid i ∧ i ∉ keys) (k.storage.data.HasRow r.ksid))
    (handle_decKeys_rows indexed direct keys) ⟨RecordsOnly.refl k, filed, fun _ had => had, fun _ had => had⟩ ran
  cases out with
  | none =>
    obtain ⟨only, between⟩ := failed rfl
    exact ⟨only, between.1, between.2.2, fun i had absent => between.2.1 i ⟨had, absent⟩, fun _ absurd => nomatch absurd⟩
  | some p =>
    obtain ⟨only, between⟩ := answered p rfl
    refine ⟨only, between.1, fun i row => (between.2.2 i row).1, fun i had absent => between.2.1 i ⟨had, absent⟩,
      fun _ _ i named row => (between.2.2 i row).2 named⟩

/-- A request that touches no key leaves the node's id, sessions, rows and clear keys. -/
theorem respond_alike {k k' : Kme} {req : KmeRequest} (quiet : req.Quiet) {e : Env} {out : Option Plan}
    (ran : respond req e k = some (out, k')) : Alike k k' :=
  respond_keeps (alike_handle quiet) ⟨rfl, rfl, Storage.sameKeys_chains.refl _⟩ ran

end Kme

end KeyRelay
