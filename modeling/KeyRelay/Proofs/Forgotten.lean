import KeyRelay.Proofs.Footprint

/-! A closed session stays closed at a node. The node files each row and clear key under its own
session and key ids, and each session of its index under its own id; `Kme.Forgets K k` says
moreover that it keeps nothing of the sessions in `K`: no index entry, no stored record, no row
and no clear key. Every request keeps that, answered or failed, but one that brings a session of
`K` back: a `syncKeys` with a row of it or an `assignSession` of it. A close that is answered
adds its session to `K`. So once a node has closed a session, it holds no state of it through
every later request that does not bring it back. -/

namespace KeyRelay

namespace Table

variable {κ α : Type} [DecidableEq κ]

/-- Every entry sits under the key its value names. -/
def Keyed (t : Table κ α) (key : α → κ) : Prop := ∀ k v, (k, v) ∈ t.entries → k = key v

variable {t : Table κ α} {key : α → κ}

omit [DecidableEq κ] in
theorem Keyed.filter (keyed : t.Keyed key) (p : κ → α → Bool) : (t.filter p).Keyed key :=
  fun k v member => keyed k v (List.mem_filter.mp member).1

theorem Keyed.erase (keyed : t.Keyed key) (k : κ) : (t.erase k).Keyed key :=
  fun j v member => keyed j v (List.mem_filter.mp member).1

theorem Keyed.insert (keyed : t.Keyed key) (v : α) : (t.insert (key v) v).Keyed key := by
  intro k w member
  rcases Store.mem_insert_entries member with ⟨rfl, rfl⟩ | ⟨old, -⟩
  · rfl
  · exact keyed k w old

theorem Keyed.foldl_insert : ∀ (vs : List α) {t : Table κ α}, t.Keyed key →
    (vs.foldl (fun t v => t.insert (key v) v) t).Keyed key
  | [], _, keyed => keyed
  | v :: rest, _, keyed => Keyed.foldl_insert rest (keyed.insert v)

theorem Keyed.get? (keyed : t.Keyed key) {k : κ} {v : α} (found : t.get? k = some v) : k = key v :=
  keyed k v (mem_of_get? found)

/-- No entry belongs to a session of `K`. -/
def Spares {β : Type} (t : Table (Ksid × KeyId) β) (K : Ksid → Prop) : Prop := ∀ k v, (k, v) ∈ t.entries → ¬ K k.1

section Spares

variable {β : Type} {t : Table (Ksid × KeyId) β} {K : Ksid → Prop}

theorem Spares.filter (spares : t.Spares K) (p : Ksid × KeyId → β → Bool) : (t.filter p).Spares K :=
  fun k v member => spares k v (List.mem_filter.mp member).1

theorem Spares.erase (spares : t.Spares K) (k : Ksid × KeyId) : (t.erase k).Spares K :=
  fun j v member => spares j v (List.mem_filter.mp member).1

theorem Spares.insert (spares : t.Spares K) {k : Ksid × KeyId} (other : ¬ K k.1) (v : β) : (t.insert k v).Spares K := by
  intro j w member
  rcases Store.mem_insert_entries member with ⟨rfl, -⟩ | ⟨old, -⟩
  · exact other
  · exact spares j w old

theorem Spares.foldl_insert {key : β → Ksid × KeyId} : ∀ (vs : List β) {t : Table (Ksid × KeyId) β},
    t.Spares K → (∀ v ∈ vs, ¬ K (key v).1) → (vs.foldl (fun t v => t.insert (key v) v) t).Spares K
  | [], _, spares, _ => spares
  | v :: rest, _, spares, foreign =>
    Spares.foldl_insert rest (spares.insert (foreign v List.mem_cons_self) v)
      fun w member => foreign w (List.mem_cons_of_mem v member)

theorem Spares.get? (spares : t.Spares K) {k : Ksid × KeyId} {v : β} (found : t.get? k = some v) : ¬ K k.1 :=
  spares k v (mem_of_get? found)

/-- The entries a filter drops, those of session `x`, are spared after it. -/
theorem spares_filter_session (t : Table (Ksid × KeyId) β) (x : Ksid) :
    (t.filter fun k _ => k.1 ≠ x).Spares (· = x) := by
  intro k v member
  simpa using (List.mem_filter.mp member).2

theorem Spares.or {K' : Ksid → Prop} (spares : t.Spares K) (spares' : t.Spares K') :
    t.Spares fun x => K x ∨ K' x :=
  fun k v member => not_or.mpr ⟨spares k v member, spares' k v member⟩

/-- A table that spares a session lists no key of it. -/
theorem Spares.sessionKeys (spares : t.Spares K) {x : Ksid} (forgotten : K x) : Store.sessionKeys t x = [] := by
  have none : t.keys.filter (·.1 = x) = [] := by
    simp only [Table.keys, List.filter_eq_nil_iff, List.mem_map, decide_eq_true_eq]
    rintro _ ⟨⟨k, v⟩, member, rfl⟩ same
    exact spares k v member (same ▸ forgotten)
  simp only [Store.sessionKeys, sortedBy, none, List.mergeSort_nil]

end Spares

end Table

namespace Store

/-- Contents that file rows and clear keys under their own ids and keep nothing of the sessions
in `K`: no row, no clear key and no session record. -/
structure Forgets (K : Ksid → Prop) (d : Store) : Prop where
  rowsKeyed : d.rows.Keyed fun r => (r.ksid, r.keyId)
  localsKeyed : d.locals.Keyed fun l => (l.ksid, l.keyId)
  rows : d.rows.Spares K
  locals : d.locals.Spares K
  sessions : ∀ x, K x → d.sessions.get? x = none

variable {K : Ksid → Prop} {d : Store}

theorem Forgets.sameKeys (forgets : d.Forgets K) {d' : Store} (same : SameKeys d d') : d'.Forgets K := by
  obtain ⟨rows, locals, sessions⟩ := same
  exact ⟨rows ▸ forgets.rowsKeyed, locals ▸ forgets.localsKeyed, rows ▸ forgets.rows, locals ▸ forgets.locals,
    sessions ▸ forgets.sessions⟩

/-- A row found in the records belongs to no session of `K`. -/
theorem Forgets.row_foreign (forgets : d.Forgets K) {k : Ksid × KeyId} {r : KeyRow} (found : d.rows.get? k = some r) :
    ¬ K r.ksid := by
  have filed := forgets.rowsKeyed.get? found
  have spared := forgets.rows.get? found
  rw [filed] at spared
  exact spared

theorem Forgets.local_foreign (forgets : d.Forgets K) {k : Ksid × KeyId} {l : LocalKey}
    (found : d.locals.get? k = some l) : ¬ K l.ksid := by
  have filed := forgets.localsKeyed.get? found
  have spared := forgets.locals.get? found
  rw [filed] at spared
  exact spared

theorem Forgets.storeRows (forgets : d.Forgets K) {rows : List KeyRow} (foreign : ∀ r ∈ rows, ¬ K r.ksid) :
    (d.storeRows rows).Forgets K :=
  { forgets with
    rowsKeyed := Table.Keyed.foldl_insert rows forgets.rowsKeyed
    rows := Table.Spares.foldl_insert rows forgets.rows foreign }

theorem Forgets.takeRow (forgets : d.Forgets K) (x : Ksid) (key : KeyId) : (d.takeRow x key).2.Forgets K :=
  { forgets with
    rowsKeyed := forgets.rowsKeyed.erase _
    rows := forgets.rows.erase _ }

theorem Forgets.takeRow_foreign (forgets : d.Forgets K) (x : Ksid) (key : KeyId) :
    ∀ r, (d.takeRow x key).1 = some r → ¬ K r.ksid :=
  fun _ found => forgets.row_foreign found

theorem Forgets.takeSessionRows (forgets : d.Forgets K) (x : Ksid) : (d.takeSessionRows x).2.Forgets K :=
  { forgets with
    rowsKeyed := forgets.rowsKeyed.filter _
    rows := forgets.rows.filter _ }

theorem Forgets.takeSessionRows_foreign (forgets : d.Forgets K) (x : Ksid) :
    ∀ r ∈ (d.takeSessionRows x).1, ¬ K r.ksid := by
  intro r member
  obtain ⟨k, -, found⟩ := List.mem_filterMap.mp member
  exact forgets.row_foreign found

theorem Forgets.storeLocals (forgets : d.Forgets K) {keys : List LocalKey} (foreign : ∀ l ∈ keys, ¬ K l.ksid) :
    (d.storeLocals keys).Forgets K :=
  { forgets with
    localsKeyed := Table.Keyed.foldl_insert keys forgets.localsKeyed
    locals := Table.Spares.foldl_insert keys forgets.locals foreign }

theorem Forgets.takeLocal (forgets : d.Forgets K) (x : Ksid) (key : Option KeyId) :
    (d.takeLocal x key).2.Forgets K ∧ ∀ l, (d.takeLocal x key).1 = some l → ¬ K l.ksid := by
  unfold Store.takeLocal
  dsimp only
  split
  · exact ⟨forgets, fun _ none => nomatch none⟩
  · exact ⟨{ forgets with localsKeyed := forgets.localsKeyed.erase _, locals := forgets.locals.erase _ },
      fun _ found => forgets.local_foreign found⟩

theorem Forgets.purgeLocals (forgets : d.Forgets K) (x : Ksid) : (d.purgeLocals x).2.Forgets K :=
  { forgets with
    localsKeyed := forgets.localsKeyed.filter _
    locals := forgets.locals.filter _ }

theorem Forgets.storeSession (forgets : d.Forgets K) {r : SessionRecord} (other : ¬ K r.ksid) :
    (d.storeSession r).Forgets K := by
  refine { forgets with sessions := fun x forgotten => ?_ }
  have apart : r.ksid ≠ x := fun same => other (same ▸ forgotten)
  simp only [Store.storeSession, Table.get?_insert, apart, if_false]
  exact forgets.sessions x forgotten

theorem Forgets.deleteSession (forgets : d.Forgets K) (x : Ksid) : (d.deleteSession x).Forgets K := by
  refine { forgets with sessions := fun y forgotten => ?_ }
  simp only [Store.deleteSession, Table.get?_erase]
  split
  · rfl
  · exact forgets.sessions y forgotten

/-- Contents that keep no row, clear key or record of session `x` forget it beside `K`. -/
theorem Forgets.add (forgets : d.Forgets K) {x : Ksid} (rows : d.rows.Spares (· = x)) (locals : d.locals.Spares (· = x))
    (dropped : d.sessions.get? x = none) : d.Forgets fun y => K y ∨ y = x where
  rowsKeyed := forgets.rowsKeyed
  localsKeyed := forgets.localsKeyed
  rows := forgets.rows.or rows
  locals := forgets.locals.or locals
  sessions := by
    rintro y (forgotten | rfl)
    · exact forgets.sessions y forgotten
    · exact dropped

theorem Forgets.mono (forgets : d.Forgets K) {K' : Ksid → Prop} (fewer : ∀ x, K' x → K x) : d.Forgets K' where
  rowsKeyed := forgets.rowsKeyed
  localsKeyed := forgets.localsKeyed
  rows := fun k v member forgotten => forgets.rows k v member (fewer _ forgotten)
  locals := fun k v member forgotten => forgets.locals k v member (fewer _ forgotten)
  sessions := fun x forgotten => forgets.sessions x (fewer x forgotten)

/-- A forgotten session has no row and no clear key to count. -/
theorem Forgets.countSessionKeys (forgets : d.Forgets K) {x : Ksid} (forgotten : K x) : d.countSessionKeys x = 0 := by
  simp only [Store.countSessionKeys, forgets.rows.sessionKeys forgotten, forgets.locals.sessionKeys forgotten,
    List.length_nil]

end Store

/-- A fact the precondition carries may be assumed. -/
theorem Spec.assume {ε σ α : Type} {P : σ → Prop} {m : EStateM ε σ α} {Q : α → σ → Prop} {E : σ → Prop} {φ : Prop}
    (spec : φ → Spec P m Q E) : Spec (fun s => P s ∧ φ) m Q E :=
  fun s start => spec start.2 s start.1

namespace Storage

variable {K : Ksid → Prop} {α : Type}

/-- Runs that end in contents forgetting `K` whenever they start in such. -/
def Forgetful (K : Ksid → Prop) (s t : Storage) : Prop := s.data.Forgets K → t.data.Forgets K

theorem forgetful_chains : Chains (Forgetful K) := ⟨fun _ => id, fun first second forgets => second (first forgets)⟩

theorem forgetful_of_sameKeys {m : StoreM α} (keeps : Keeps SameKeys m) : Keeps (Forgetful K) m :=
  keeps.imp fun _ _ same forgets => forgets.sameKeys same

theorem forgetful_of_write (operation : String) (f : Store → α × Store)
    (keeps : ∀ d, d.Forgets K → (f d).2.Forgets K) : Keeps (Forgetful K) (write operation f) :=
  @keeps_of_write α (fun d d' => d.Forgets K → d'.Forgets K) (fun _ => id) operation f keeps

theorem forgetful_storeKeyRows {rows : List KeyRow} (foreign : ∀ r ∈ rows, ¬ K r.ksid) :
    Keeps (Forgetful K) (storeKeyRows rows) :=
  forgetful_of_write _ _ fun _ forgets => forgets.storeRows foreign

theorem forgetful_storeLocalKeys {keys : List LocalKey} (foreign : ∀ l ∈ keys, ¬ K l.ksid) :
    Keeps (Forgetful K) (storeLocalKeys keys) :=
  forgetful_of_write _ _ fun _ forgets => forgets.storeLocals foreign

theorem forgetful_takeLocalKey (x : Ksid) (key : Option KeyId) : Keeps (Forgetful K) (takeLocalKey x key) :=
  forgetful_of_write _ _ fun _ forgets => (forgets.takeLocal x key).1

/-- Taking a row keeps the contents forgetting `K`, and the row it gives is of no session of `K`. -/
theorem spec_takeKeyRow_foreign (x : Ksid) (key : KeyId) :
    Spec (·.data.Forgets K) (takeKeyRow x key) (fun row st => st.data.Forgets K ∧ ∀ r, row = some r → ¬ K r.ksid)
      (·.data.Forgets K) :=
  @spec_of_write _ (Store.Forgets K) (fun (row : Option KeyRow) d => d.Forgets K ∧ ∀ r, row = some r → ¬ K r.ksid)
    (Store.Forgets K) "take_key_row" (·.takeRow x key) (fun _ forgets => ⟨forgets.takeRow x key, forgets.takeRow_foreign x key⟩) fun _ forgets => forgets

theorem spec_takeLocalKey_foreign (x : Ksid) (key : Option KeyId) :
    Spec (·.data.Forgets K) (takeLocalKey x key) (fun l st => st.data.Forgets K ∧ ∀ l', l = some l' → ¬ K l'.ksid)
      (·.data.Forgets K) :=
  @spec_of_write _ (Store.Forgets K) (fun (l : Option LocalKey) d => d.Forgets K ∧ ∀ l', l = some l' → ¬ K l'.ksid)
    (Store.Forgets K) "take_local_key" (·.takeLocal x key) (fun _ forgets => forgets.takeLocal x key) fun _ forgets => forgets

end Storage

namespace Engine

variable {K : Ksid → Prop} {α : Type}

/-- Runs of the engine that end in records forgetting `K` whenever they start in such. -/
def Forgetful (K : Ksid → Prop) (s t : Env × Storage) : Prop := Storage.Forgetful K s.2 t.2

theorem forgetful_chains : Chains (Forgetful K) := ⟨fun _ => id, fun first second forgets => second (first forgets)⟩

theorem forgetful_records {m : StoreM α} (inner : Keeps (Storage.Forgetful K) m) : Keeps (Forgetful K) (records m) :=
  Keeps.focus (·.2) (fun st s => (s.1, st)) (fun _ _ kept => kept) inner

theorem forgetful_of_sameKeys {m : EngineM α} (keeps : Keeps SameKeys m) : Keeps (Forgetful K) m :=
  keeps.imp fun _ _ same forgets => forgets.sameKeys same

/-- A run that keeps `Forgetful K` keeps the records forgetting `K`, answered or failed. -/
theorem spec_forgetful {m : EngineM α} (keeps : Keeps (Forgetful K) m) :
    Spec (·.2.data.Forgets K) m (fun _ s => s.2.data.Forgets K) (·.2.data.Forgets K) :=
  Spec.of_keeps keeps fun _ _ forgets still => still forgets

theorem keeps_sameKeys_replayRows : ∀ (rows : List KeyRow) (i : Nat) (keys : List Material),
    Keeps SameKeys (replayRows rows i keys)
  | [], _, _ => Keeps.pure sameKeys_chains _
  | row :: rest, i, keys => by
    unfold replayRows
    refine Keeps.bind sameKeys_chains (Keeps.tryCatch sameKeys_chains (Keeps.bind sameKeys_chains
      (keeps_sameKeys_records (Pool.keeps_sameKeys_read row.spans)) fun _ => Keeps.pure sameKeys_chains _)
        fun _ => Keeps.pure sameKeys_chains _) fun replayed => ?_
    cases replayed with
    | error f => exact Keeps.pure sameKeys_chains _
    | ok m => exact keeps_sameKeys_replayRows rest _ _

/-- A generation for a session outside `K` keeps the records forgetting `K`: the keys it keeps in
the clear are filed under its session. -/
theorem forgetful_generate (pool : Pool) {ksid : Ksid} (other : ¬ K ksid) (ℓ : LinkId) (sizeBits count keep : Nat) :
    Keeps (Forgetful K) (generate pool ksid ℓ sizeBits count keep) := by
  unfold generate
  dsimp only
  split
  · exact Keeps.throw_bind forgetful_chains _ _
  refine Keeps.bind forgetful_chains (forgetful_of_sameKeys keeps_sameKeys_wallSecs) fun now => ?_
  refine Keeps.bind forgetful_chains (forgetful_of_sameKeys (cutKeys_count pool ℓ _ now count [] []).keeps) fun cut => ?_
  refine Keeps.bind forgetful_chains (forgetful_of_sameKeys (keeps_sameKeys_releaseEach cut.1 0 cut.1)) fun _ => ?_
  have kept : ∀ l ∈ (cut.2.drop (count - keep)).map fun k => (⟨ksid, k.keyId, k.material, now⟩ : LocalKey),
      ¬ K l.ksid := by
    intro l member
    obtain ⟨_, -, rfl⟩ := List.mem_map.mp member
    exact other
  split
  · exact Keeps.bind forgetful_chains (onFailure_keeps forgetful_chains
      (forgetful_records (Storage.forgetful_storeLocalKeys kept)) fun _ =>
        forgetful_of_sameKeys (keeps_sameKeys_rollback _ _)) fun _ => Keeps.pure forgetful_chains _
  · exact Keeps.pure forgetful_chains _

theorem forgetful_discard (ksid : Ksid) (keys : List KeyId) : Keeps (Forgetful K) (discard ksid keys) :=
  Keeps.forM forgetful_chains _ fun _ _ => Keeps.bind forgetful_chains
    (forgetful_records (Storage.forgetful_takeLocalKey _ _)) fun _ => Keeps.pure forgetful_chains _

theorem forgetful_undoBatch (ksid : Ksid) (b : Batch) : Keeps (Forgetful K) (undoBatch ksid b) :=
  Keeps.bind forgetful_chains (forgetful_discard ksid b.storedIds) fun _ =>
    forgetful_of_sameKeys (keeps_sameKeys_records (Pool.keeps_sameKeys_undo _ _))

theorem forgetful_restoreRows {rows : List KeyRow} (foreign : ∀ r ∈ rows, ¬ K r.ksid) :
    Keeps (Forgetful K) (restoreRows rows) := by
  unfold restoreRows
  exact Keeps.ite _ (Keeps.pure forgetful_chains _)
    (forgetful_records (Keeps.attempt Storage.forgetful_chains (Storage.forgetful_storeKeyRows foreign)))

theorem forgetful_releaseRange (spans : List Span) : Keeps (Forgetful K) (records (Pool.releaseRange spans)) :=
  forgetful_of_sameKeys (keeps_sameKeys_records (Pool.keeps_sameKeys_releaseRange spans))

theorem forgetful_afterFailedReplay {row : KeyRow} (other : ¬ K row.ksid) (f : Fault) :
    Keeps (Forgetful K) (afterFailedReplay row f) := by
  unfold afterFailedReplay
  refine Keeps.ite _ ?_ (forgetful_restoreRows fun r member => ?_)
  · exact forgetful_of_sameKeys (keeps_sameKeys_records (Keeps.attempt Storage.sameKeys_chains
      (Pool.keeps_sameKeys_releaseRange _)))
  · rw [List.mem_singleton.mp member]
    exact other

/-- Replaying a key keeps the records forgetting `K`: a row it takes and must store again is of
no session of `K`, since the records held it. -/
theorem forgets_reconstruct (ksid : Ksid) (key : KeyId) :
    Spec (·.2.data.Forgets K) (reconstruct ksid key) (fun _ s => s.2.data.Forgets K) (·.2.data.Forgets K) := by
  unfold reconstruct
  refine Spec.bind (spec_records (Storage.spec_takeKeyRow_foreign ksid key)) fun row => ?_
  cases row with
  | none => exact Spec.throw fun _ held => held.1
  | some row =>
    refine Spec.weaken (Spec.assume fun (other : ¬ K row.ksid) => ?_) fun _ held => ⟨held.1, held.2 row rfl⟩
    refine Spec.bind (spec_forgetful (onFailure_keeps forgetful_chains
      (forgetful_of_sameKeys (keeps_sameKeys_records (Pool.keeps_sameKeys_read row.spans)))
        (forgetful_afterFailedReplay other))) fun _ => ?_
    exact Spec.bind (spec_forgetful (forgetful_releaseRange row.spans)) fun _ => Spec.pure fun _ forgets => forgets

/-- Following a companion keeps the records forgetting `K` when none of its rows is of a
session of `K`. -/
theorem forgetful_applySync (ℓ : LinkId) {rows : List KeyRow} (foreign : ∀ r ∈ rows, ¬ K r.ksid)
    (consumed : List Span) : Keeps (Forgetful K) (applySync ℓ rows consumed) := by
  unfold applySync
  refine Keeps.bind forgetful_chains (Keeps.ofExcept forgetful_chains _) fun _ => ?_
  refine Keeps.bind forgetful_chains
    (forgetful_of_sameKeys (keeps_sameKeys_records (Pool.keeps_sameKeys_acknowledge ℓ consumed _))) fun _ => ?_
  exact onFailure_keeps forgetful_chains (forgetful_records (Storage.forgetful_storeKeyRows foreign)) fun _ =>
    forgetful_of_sameKeys (keeps_sameKeys_records (Keeps.attempt Storage.sameKeys_chains
      (Pool.keeps_sameKeys_releaseRange _)))

/-- A prefetched key of another size goes back where it was found. -/
theorem forgets_takePrefetched (ksid : Ksid) (sizeBits : Nat) :
    Spec (·.2.data.Forgets K) (takePrefetched ksid sizeBits) (fun _ s => s.2.data.Forgets K) (·.2.data.Forgets K) := by
  unfold takePrefetched
  refine Spec.bind (spec_records (Storage.spec_takeLocalKey_foreign ksid none)) fun key => ?_
  cases key with
  | none => exact Spec.pure fun _ held => held.1
  | some key =>
    refine Spec.weaken (Spec.assume fun (other : ¬ K key.ksid) => ?_) fun _ held => ⟨held.1, held.2 key rfl⟩
    dsimp only
    split
    · exact Spec.pure fun _ forgets => forgets
    · refine Spec.bind (spec_forgetful (forgetful_records (Storage.forgetful_storeLocalKeys fun l member => ?_)))
        fun _ => Spec.pure fun _ forgets => forgets
      rw [List.mem_singleton.mp member]
      exact other

theorem forgetful_storeLocal {ksid : Ksid} (other : ¬ K ksid) (keys : List (KeyId × Material)) :
    Keeps (Forgetful K) (storeLocal ksid keys) := by
  unfold storeLocal
  refine Keeps.bind forgetful_chains (forgetful_of_sameKeys keeps_sameKeys_wallSecs) fun now => ?_
  refine forgetful_records (Storage.forgetful_storeLocalKeys fun l member => ?_)
  obtain ⟨_, -, rfl⟩ := List.mem_map.mp member
  exact other

/-- Taking rows one after the other gives rows of no session of `K`; a missing one puts back
those taken, which are of none either. -/
theorem forgets_takeRows (ksid : Ksid) : ∀ (keys : List KeyId) {taken : List KeyRow}, (∀ r ∈ taken, ¬ K r.ksid) →
    Spec (·.2.data.Forgets K) (takeRows ksid keys taken) (fun rows s => s.2.data.Forgets K ∧ ∀ r ∈ rows, ¬ K r.ksid)
      (·.2.data.Forgets K)
  | [], taken, foreign => Spec.pure fun _ forgets => ⟨forgets, foreign⟩
  | k :: rest, taken, foreign => by
    unfold takeRows
    refine Spec.bind (Q := fun row s => s.2.data.Forgets K ∧ ¬ K row.ksid)
      (spec_onFailure ?take fun _ => spec_forgetful (forgetful_restoreRows foreign)) fun row =>
        Spec.assume fun other => forgets_takeRows ksid rest fun r member => ?_
    case take =>
      refine Spec.bind (spec_records (Storage.spec_takeKeyRow_foreign ksid k)) fun found => ?_
      cases found with
      | none => exact Spec.throw fun _ held => held.1
      | some row => exact Spec.pure fun _ held => ⟨held.1, held.2 row rfl⟩
    rcases List.mem_append.mp member with old | new
    · exact foreign r old
    · rw [List.mem_singleton.mp new]
      exact other

theorem forgets_takeLocals (ksid : Ksid) : ∀ (keys : List KeyId) {taken : List LocalKey}, (∀ l ∈ taken, ¬ K l.ksid) →
    Spec (·.2.data.Forgets K) (takeLocals ksid keys taken) (fun _ s => s.2.data.Forgets K) (·.2.data.Forgets K)
  | [], taken, _ => Spec.pure fun _ forgets => forgets
  | k :: rest, taken, foreign => by
    unfold takeLocals
    refine Spec.bind (Q := fun key s => s.2.data.Forgets K ∧ ¬ K key.ksid)
      (spec_onFailure ?take fun _ => spec_forgetful ?restore)
      fun key => Spec.assume fun other => forgets_takeLocals ksid rest fun l member => ?_
    case take =>
      refine Spec.bind (spec_records (Storage.spec_takeLocalKey_foreign ksid (some k))) fun found => ?_
      cases found with
      | none => exact Spec.throw fun _ held => held.1
      | some key => exact Spec.pure fun _ held => ⟨held.1, held.2 key rfl⟩
    case restore =>
      split
      · exact Keeps.pure forgetful_chains _
      · exact forgetful_records (Keeps.attempt Storage.forgetful_chains (Storage.forgetful_storeLocalKeys foreign))
    rcases List.mem_append.mp member with old | new
    · exact foreign l old
    · rw [List.mem_singleton.mp new]
      exact other

/-- Handing out keys keeps the records forgetting `K`: the rows it stores again are rows it took. -/
theorem forgets_retrieve (ksid : Ksid) (keys : List KeyId) (replay : Bool) :
    Spec (·.2.data.Forgets K) (retrieve ksid keys replay) (fun _ s => s.2.data.Forgets K) (·.2.data.Forgets K) := by
  unfold retrieve
  dsimp only
  split
  · exact Spec.bind (Spec.throw fun _ forgets => forgets) fun _ => Spec.of_false
  split
  · refine Spec.bind (forgets_takeRows ksid keys fun _ none => nomatch none) fun rows => ?_
    refine Spec.assume fun foreign => ?_
    refine Spec.bind (spec_forgetful (forgetful_of_sameKeys (keeps_sameKeys_replayRows rows 0 []))) fun result => ?_
    obtain ⟨materials, failed⟩ := result
    cases failed with
    | some lost =>
      obtain ⟨i, f⟩ := lost
      -- the rows stored again are those taken, less the one whose bytes are lost
      have finish : ∀ kept : List KeyRow, Spec (fun s : Env × Storage => s.2.data.Forgets K ∧ ∀ r ∈ kept, ¬ K r.ksid)
          (do restoreRows kept; throw f : EngineM (List Material)) (fun _ s => s.2.data.Forgets K)
            (fun s => s.2.data.Forgets K) :=
        fun kept => Spec.assume fun foreign' => Spec.bind (spec_forgetful (forgetful_restoreRows foreign')) fun _ =>
          Spec.throw fun _ forgets => forgets
      have erased : ∀ r ∈ rows.eraseIdx i, ¬ K r.ksid := fun r member => foreign r (List.mem_of_mem_eraseIdx member)
      dsimp only
      split
      · split
        · exact Spec.bind (spec_forgetful (forgetful_records (Keeps.attempt Storage.forgetful_chains
            (Storage.forgetful_of_sameKeys (Pool.keeps_sameKeys_releaseRange _))))) fun _ =>
              Spec.bind (Spec.pure fun _ forgets => ⟨forgets, erased⟩) finish
        · exact Spec.bind (Spec.pure fun _ forgets => ⟨forgets, erased⟩) finish
      · exact Spec.bind (Spec.pure fun _ forgets => ⟨forgets, foreign⟩) finish
    | none =>
      exact Spec.bind (spec_forgetful (forgetful_releaseRange _)) fun _ => Spec.pure fun _ forgets => forgets
  · exact Spec.bind (forgets_takeLocals ksid keys fun _ none => nomatch none) fun _ =>
      Spec.pure fun _ forgets => forgets

theorem forgetful_purgeSession (ksid : Ksid) : Keeps (Forgetful K) (purgeSession ksid) :=
  Keeps.bind forgetful_chains (forgetful_records (Storage.forgetful_of_write _ _ fun _ forgets => forgets.purgeLocals ksid))
    fun _ => Keeps.bind forgetful_chains
      (forgetful_records (Storage.forgetful_of_write _ _ fun _ forgets => forgets.takeSessionRows ksid))
      fun _ => forgetful_releaseRange _

/-- Purging a session whose record is gone leaves records that forget it too. -/
theorem purgeSession_forgets (x : Ksid) :
    Spec (fun s => s.2.data.Forgets K ∧ s.2.data.sessions.get? x = none) (purgeSession x)
      (fun _ s => s.2.data.Forgets fun y => K y ∨ y = x) (·.2.data.Forgets K) := by
  have purged := spec_records (@Storage.spec_of_write _ (fun d => d.Forgets K ∧ d.sessions.get? x = none)
    (fun _ d => (d.Forgets K ∧ d.sessions.get? x = none) ∧ d.locals.Spares (· = x)) (Store.Forgets K)
    "purge_local_keys" (·.purgeLocals x)
    (fun d held => ⟨⟨held.1.purgeLocals x, held.2⟩, Table.spares_filter_session _ x⟩) fun _ held => held.1)
  have taken := spec_records (@Storage.spec_of_write _
    (fun d => (d.Forgets K ∧ d.sessions.get? x = none) ∧ d.locals.Spares (· = x))
    (fun _ d => d.Forgets fun y => K y ∨ y = x) (Store.Forgets K) "take_session_rows" (·.takeSessionRows x)
    (fun d held => (held.1.1.takeSessionRows x).add (Table.spares_filter_session _ x) held.2 held.1.2)
    fun _ held => held.1.1)
  unfold purgeSession
  refine Spec.bind purged fun _ => Spec.bind taken fun rows => ?_
  exact (spec_forgetful (forgetful_releaseRange _)).conseq (fun _ forgets => forgets) (fun _ _ done => done)
    fun _ forgets => forgets.mono fun y forgotten => .inl forgotten

theorem keeps_sameKeys_sessionKeyCount (ksid : Ksid) : Keeps SameKeys (sessionKeyCount ksid) :=
  keeps_sameKeys_records (Storage.keeps_sameKeys_of_read _ _)

theorem keeps_sameKeys_sweep (pool : Pool) : Keeps SameKeys (sweep pool) :=
  Keeps.bind sameKeys_chains keeps_sameKeys_wallSecs fun now => keeps_sameKeys_records (Pool.keeps_sameKeys_sweep pool now)

theorem keeps_sameKeys_available (pool : Pool) (ℓ : LinkId) : Keeps SameKeys (available pool ℓ) :=
  Keeps.bind sameKeys_chains keeps_sameKeys_wallSecs fun now =>
    keeps_sameKeys_records (Pool.keeps_sameKeys_available pool ℓ now)

end Engine

namespace SessionIndex

/-- An index that files each session under its own id and holds none of the sessions in `K`. -/
structure Forgets (K : Ksid → Prop) (ix : SessionIndex) : Prop where
  keyed : ∀ x r, ix.get? x = some r → r.ksid = x
  unindexed : ∀ x, K x → ix.get? x = none

variable {K : Ksid → Prop} {ix : SessionIndex}

theorem Forgets.mono (forgets : ix.Forgets K) {K' : Ksid → Prop} (fewer : ∀ x, K' x → K x) : ix.Forgets K' :=
  ⟨forgets.keyed, fun x forgotten => forgets.unindexed x (fewer x forgotten)⟩

theorem Forgets.indexed (forgets : ix.Forgets K) {x : Ksid} {r : SessionRecord} (found : ix.get? x = some r) : ¬ K x := by
  intro forgotten
  rw [forgets.unindexed x forgotten] at found
  cases found

/-- A session the index holds is none of `K`. -/
theorem Forgets.held (forgets : ix.Forgets K) {x : Ksid} {r : SessionRecord} (found : ix.get? x = some r) : ¬ K r.ksid := by
  rw [forgets.keyed x r found]
  exact forgets.indexed found

theorem Forgets.byPair (forgets : ix.Forgets K) {src dst : AppId} {r : SessionRecord}
    (found : ix.byPair? src dst = some r) : ¬ K r.ksid := by
  simp only [byPair?, Option.bind_eq_bind, Option.bind_eq_some_iff] at found
  obtain ⟨x, -, held⟩ := found
  exact forgets.held held

theorem Forgets.insert (forgets : ix.Forgets K) {r : SessionRecord} (other : ¬ K r.ksid) : (ix.insert r).1.Forgets K where
  keyed := by
    intro x r' found
    simp only [SessionIndex.insert, get?, Table.get?_insert] at found
    split at found
    · rename_i same
      cases found
      exact same
    · exact forgets.keyed x r' found
  unindexed := by
    intro x forgotten
    have apart : r.ksid ≠ x := fun same => other (same ▸ forgotten)
    simp only [SessionIndex.insert, get?, Table.get?_insert, apart, if_false]
    exact forgets.unindexed x forgotten

theorem get?_of_remove {x y : Ksid} {r : SessionRecord} (found : (ix.remove x).1.get? y = some r) : ix.get? y = some r := by
  unfold remove at found
  split at found
  · exact found
  · simp only [get?, Table.get?_erase] at found ⊢
    split at found
    · cases found
    · exact found

/-- Removing a session adds it to what the index forgets. -/
theorem Forgets.remove (forgets : ix.Forgets K) (x : Ksid) : (ix.remove x).1.Forgets fun y => K y ∨ y = x where
  keyed := fun y r found => forgets.keyed y r (get?_of_remove found)
  unindexed := by
    rintro y (forgotten | rfl)
    · cases found : (ix.remove x).1.get? y with
      | none => rfl
      | some r =>
        have held := get?_of_remove found
        rw [forgets.unindexed y forgotten] at held
        cases held
    · exact get?_remove ix y

end SessionIndex

namespace KmeRequest

/-- The request brings back nothing of the sessions in `K`: no row of one, no assignment of one. -/
def Spares (K : Ksid → Prop) : KmeRequest → Prop
  | .syncKeys _ rows _ => ∀ r ∈ rows, ¬ K r.ksid
  | .assignSession r => ¬ K r.ksid
  | _ => True

end KmeRequest

namespace Kme

/-- The node files each session of its index under its own id and each row and clear key under
its own ids, and keeps nothing of the sessions in `K`: no index entry, stored record, row or
clear key. -/
structure Forgets (K : Ksid → Prop) (k : Kme) : Prop where
  index : k.sessions.Forgets K
  records : k.storage.data.Forgets K

theorem Forgets.mono {K : Ksid → Prop} {k : Kme} (forgets : k.Forgets K) {K' : Ksid → Prop} (fewer : ∀ x, K' x → K x) :
    k.Forgets K' :=
  ⟨forgets.index.mono fewer, forgets.records.mono fewer⟩

section Forgetting

variable {K : Ksid → Prop} {α : Type}

/-- A computation of the key engine, specified over the records, leaves the node's index alone. -/
theorem triple_engine_index {I : SessionIndex → Prop} {m : EngineM α} {P : Env × Storage → Prop}
    {Q : α → Env × Storage → Prop} {E : Env × Storage → Prop} (spec : Spec P m Q E) :
    Triple (fun s => I s.2.sessions ∧ P (s.1, s.2.storage)) (engine m) (fun a s => I s.2.sessions ∧ Q a (s.1, s.2.storage))
      (fun s => I s.2.sessions ∧ E (s.1, s.2.storage)) := by
  intro s start
  obtain ⟨returned, failed⟩ := spec _ start.2
  rw [run_engine]
  cases run : m (s.1, s.2.storage) with
  | ok a t => exact ⟨start.1, returned a t run⟩
  | error f t => exact ⟨start.1, failed f t run⟩

theorem forgets_engine {m : EngineM α}
    (spec : Spec (·.2.data.Forgets K) m (fun _ s => s.2.data.Forgets K) (·.2.data.Forgets K)) :
    Triple (·.2.Forgets K) (engine m) (fun _ s => s.2.Forgets K) (·.2.Forgets K) :=
  (triple_engine_index (I := SessionIndex.Forgets K) spec).conseq (fun _ forgets => ⟨forgets.index, forgets.records⟩)
    (fun _ _ done => ⟨done.1, done.2⟩) (fun _ failed => ⟨failed.1, failed.2⟩)

theorem forgets_records {m : StoreM α} (keeps : Keeps (Storage.Forgetful K) m) :
    Triple (·.2.Forgets K) (records m) (fun _ s => s.2.Forgets K) (·.2.Forgets K) :=
  forgets_engine (Engine.spec_forgetful (Engine.forgetful_records keeps))

theorem forgets_current {E : Env × Kme → Prop} : Triple (·.2.Forgets K) current (fun _ s => s.2.Forgets K) E :=
  fun _ start => start

/-- A change of the node that keeps what it forgets. -/
theorem forgets_change (f : Kme → Kme) (keeps : ∀ k, k.Forgets K → (f k).Forgets K) {E : Env × Kme → Prop} :
    Triple (·.2.Forgets K) (change f) (fun _ s => s.2.Forgets K) E :=
  fun s start => keeps s.2 start

theorem forgets_sweepQuietly : Triple (·.2.Forgets K) sweepQuietly (fun _ s => s.2.Forgets K) (·.2.Forgets K) := by
  unfold sweepQuietly
  exact Triple.bind forgets_current fun k => forgets_engine (Engine.spec_forgetful (Keeps.attempt Engine.forgetful_chains
    (Engine.forgetful_of_sameKeys (Keeps.bind Engine.sameKeys_chains (Engine.keeps_sameKeys_sweep k.pool) fun _ =>
      Keeps.pure Engine.sameKeys_chains _))))

theorem forgets_generate {ksid : Ksid} (other : ¬ K ksid) (ℓ : LinkId) (sizeBits count keep : Nat) :
    Triple (·.2.Forgets K) (generate ksid ℓ sizeBits count keep) (fun _ s => s.2.Forgets K) (·.2.Forgets K) := by
  unfold generate
  refine Triple.bind (Triple.ofExcept _ fun _ start => ⟨start, fun _ _ => start⟩) fun _ => ?_
  exact Triple.bind forgets_current fun k =>
    forgets_engine (Engine.spec_forgetful (Engine.forgetful_generate k.pool other ℓ sizeBits count keep))

theorem forgets_takeKept (ksid : Ksid) (sizeBits : Nat) : ∀ (n : Nat) (keys : List (KeyId × Material)),
    Triple (·.2.Forgets K) (takeKept ksid sizeBits n keys) (fun _ s => s.2.Forgets K) (·.2.Forgets K)
  | 0, keys => Triple.pure keys fun _ start => start
  | n + 1, keys => by
    rw [takeKept]
    refine Triple.bind (forgets_engine (Engine.forgets_takePrefetched ksid sizeBits)) fun found => ?_
    cases found with
    | none => exact Triple.pure keys fun _ start => start
    | some l => exact forgets_takeKept ksid sizeBits n _

theorem forgets_prefetched (ksid : Ksid) (number sizeBits : Nat) :
    Triple (·.2.Forgets K) (prefetched ksid number sizeBits) (fun _ s => s.2.Forgets K) (·.2.Forgets K) := by
  unfold prefetched
  refine Triple.bind forgets_current fun k => ?_
  split
  · exact Triple.pure [] fun _ start => start
  · exact forgets_takeKept ksid sizeBits number []

theorem forgets_topUp {ksid : Ksid} (other : ¬ K ksid) (ℓ : LinkId) (missing sizeBits : Nat) :
    Triple (·.2.Forgets K) (topUp ksid ℓ missing sizeBits) (fun _ s => s.2.Forgets K) (·.2.Forgets K) := by
  unfold topUp
  split
  · exact Triple.pure none fun _ start => start
  · refine Triple.bind forgets_current fun k => ?_
    dsimp only
    split
    · exact Triple.stop _
    · exact Triple.bind (forgets_generate other ℓ sizeBits _ _) fun b => Triple.pure (some b) fun _ done => done

theorem forgets_directKeys {r : SessionRecord} (other : ¬ K r.ksid) (companion : KmeId) (number sizeBits : Nat) :
    Triple (·.2.Forgets K) (directKeys r companion number sizeBits) (fun _ s => s.2.Forgets K) (·.2.Forgets K) := by
  unfold directKeys
  refine Triple.bind (triple_linkTo_frame companion) fun ℓ => ?_
  refine Triple.bind (forgets_prefetched r.ksid number sizeBits) fun keys => ?_
  refine Triple.bind (forgets_topUp other ℓ _ sizeBits) fun topped => ?_
  cases topped with
  | none => exact Triple.pure _ fun _ done => done
  | some batch => exact Triple.bind triple_wallSecs fun now => Triple.pure _ fun _ done => done

theorem forgets_relayFirst {r : SessionRecord} (other : ¬ K r.ksid) (next : KmeId) (number sizeBits : Nat) :
    Triple (·.2.Forgets K) (relayFirst r next number sizeBits) (fun _ s => s.2.Forgets K) (·.2.Forgets K) := by
  unfold relayFirst
  refine Triple.bind (triple_linkTo_frame next) fun ℓ => ?_
  refine Triple.bind (forgets_prefetched r.ksid number sizeBits) fun keys => ?_
  refine Triple.bind (forgets_topUp other ℓ _ sizeBits) fun appBatch => ?_
  refine Triple.bind (Triple.tryCatch (forgets_generate other ℓ sizeBits number 0) ?undo
    (fun a => Triple.stop a)) fun otks => ?_
  case undo =>
    intro f
    cases appBatch with
    | none => exact Triple.throw _ fun _ start => start
    | some b => exact Triple.bind (forgets_engine (Engine.spec_forgetful (Keeps.attempt Engine.forgetful_chains
        (Engine.forgetful_undoBatch r.ksid b)))) fun _ => Triple.throw _ fun _ done => done
  refine Triple.bind triple_wallSecs fun now => ?_
  exact Triple.bind (triple_lift _) fun _ => Triple.pure _ fun _ done => done

theorem keeps_sameKeys_pickLink (pool : Pool) (needed : Nat) : ∀ (offered : List (LinkId × KmeId))
    (best : Option (LinkId × Nat)), Keeps Engine.SameKeys (pickLink pool needed offered best)
  | [], _ => Keeps.pure Engine.sameKeys_chains _
  | (ℓ, c) :: rest, best => by
    rw [pickLink]
    refine Keeps.bind Engine.sameKeys_chains (Engine.keeps_sameKeys_available pool ℓ) fun available => ?_
    split
    · exact Keeps.pure Engine.sameKeys_chains _
    · exact keeps_sameKeys_pickLink pool needed rest _

theorem forgets_localKeys {r : SessionRecord} (other : ¬ K r.ksid) (number sizeBits : Nat) :
    Triple (·.2.Forgets K) (localKeys r number sizeBits) (fun _ s => s.2.Forgets K) (·.2.Forgets K) := by
  unfold localKeys
  refine Triple.bind forgets_current fun k => ?_
  dsimp only
  refine Triple.bind (forgets_engine (Engine.spec_forgetful (Engine.forgetful_of_sameKeys
    (keeps_sameKeys_pickLink _ _ _ _)))) fun picked => ?_
  refine Triple.bind (triple_lift picked) fun chosen => ?_
  exact Triple.bind (forgets_generate other _ sizeBits number number) fun _ => Triple.pure _ fun _ done => done

/-- The session of a pair of applications is none of the sessions the node forgets. -/
theorem forgets_sessionByApps (src dst : AppId) :
    Triple (·.2.Forgets K) (sessionByApps src dst) (fun r s => s.2.Forgets K ∧ ¬ K r.ksid) (·.2.Forgets K) := by
  unfold sessionByApps
  refine Triple.bind triple_current fun k => ?_
  split
  · rename_i r found
    refine Triple.pure _ fun s start => ⟨start.1, ?_⟩
    rw [← start.2] at found
    exact start.1.index.byPair found
  · exact triple_fail _ fun _ start => start.1

theorem forgets_encKeys (src dst : AppId) (number : Nat) (size : Option Nat) :
    Triple (·.2.Forgets K) (encKeys src dst number size) (fun _ s => s.2.Forgets K) (·.2.Forgets K) := by
  unfold encKeys
  refine Triple.bind (forgets_sessionByApps src dst) fun r => Triple.assume fun other => ?_
  refine Triple.bind forgets_current fun k => ?_
  dsimp only
  split
  · exact Triple.throw_bind _ fun _ start => start
  refine Triple.bind (triple_checkCount number) fun _ => ?_
  refine Triple.bind (triple_lift _) fun sizeBits => ?_
  refine Triple.bind (triple_lift _) fun role => ?_
  split
  · exact forgets_localKeys other number sizeBits
  · exact forgets_directKeys other _ number sizeBits
  · exact forgets_relayFirst other _ number sizeBits
  · exact triple_fail _ fun _ start => start

theorem forgets_decKeys (src dst : AppId) (keys : List KeyId) :
    Triple (·.2.Forgets K) (decKeys src dst keys) (fun _ s => s.2.Forgets K) (·.2.Forgets K) := by
  unfold decKeys
  refine Triple.bind (forgets_sessionByApps src dst) fun r => Triple.assume fun _ => ?_
  refine Triple.bind forgets_current fun k => ?_
  dsimp only
  split
  · exact Triple.throw_bind _ fun _ start => start
  refine Triple.bind (triple_checkCount keys.length) fun _ => ?_
  have serve : ∀ replay, Triple (·.2.Forgets K)
      (engine (Engine.retrieve r.ksid keys replay) >>= fun materials =>
        pure (Plan.answer (.keys (containers (keys.zip materials))))) (fun _ s => s.2.Forgets K) (·.2.Forgets K) :=
    fun replay => Triple.bind (forgets_engine (Engine.forgets_retrieve _ _ _)) fun _ => Triple.pure _ fun _ done => done
  refine Triple.bind (triple_lift _) fun role => ?_
  split
  · exact Triple.bind (Triple.pure _ fun _ start => start) serve
  · exact Triple.bind (Triple.pure _ fun _ start => start) serve
  · exact Triple.bind (Triple.pure _ fun _ start => start) serve
  · exact Triple.throw_bind _ fun _ start => start

theorem forgets_status (src dst : AppId) :
    Triple (·.2.Forgets K) (status src dst) (fun _ s => s.2.Forgets K) (·.2.Forgets K) := by
  unfold status
  refine Triple.bind (forgets_sessionByApps src dst) fun r => Triple.assume fun _ => ?_
  refine Triple.bind (forgets_engine (Engine.spec_forgetful (Engine.forgetful_of_sameKeys
    (Engine.keeps_sameKeys_sessionKeyCount r.ksid)))) fun _ => ?_
  exact Triple.bind forgets_current fun _ => Triple.pure _ fun _ done => done

theorem triple_records_index {I : SessionIndex → Prop} {m : StoreM α} {P : Storage → Prop} {Q : α → Storage → Prop}
    {E : Storage → Prop} (spec : Spec P m Q E) :
    Triple (fun s => I s.2.sessions ∧ P s.2.storage) (records m) (fun a s => I s.2.sessions ∧ Q a s.2.storage)
      (fun s => I s.2.sessions ∧ E s.2.storage) :=
  triple_engine_index (Engine.spec_records spec)

/-- A close that is answered leaves the node forgetting its session beside `K`; one that fails
leaves it forgetting `K`. -/
theorem closeSession_forgets (x : Ksid) (o : Option KmeId) :
    Triple (·.2.Forgets K) (closeSession x o) (fun _ s => s.2.Forgets fun y => K y ∨ y = x) (·.2.Forgets K) := by
  -- on the way the index forgets the session already, the records not yet
  have back : ∀ s : Env × Kme, s.2.sessions.Forgets (fun y => K y ∨ y = x) ∧ s.2.storage.data.Forgets K →
      s.2.Forgets K := fun s held => ⟨held.1.mono fun y forgotten => .inl forgotten, held.2⟩
  unfold closeSession
  refine Triple.bind triple_current fun k => ?_
  dsimp only
  split
  · refine Triple.bind (Q := fun _ s => s.2.sessions.Forgets (fun y => K y ∨ y = x) ∧ s.2.storage.data.Forgets K)
      (fun s start => ?_) fun _ => ?_
    · obtain ⟨forgets, rfl⟩ := start
      exact ⟨forgets.index.remove x, forgets.records⟩
    have deleted := @Storage.spec_of_write _ (Store.Forgets K) (fun _ d => d.Forgets K ∧ d.sessions.get? x = none)
      (Store.Forgets K) "delete_session" (fun d => ((), d.deleteSession x))
      (fun d forgets => ⟨forgets.deleteSession x, by simp [Store.deleteSession]⟩) fun _ forgets => forgets
    refine Triple.bind ((triple_records_index deleted).conseq (fun _ start => start) (fun _ _ done => done) back)
      fun _ => ?_
    refine Triple.bind ((triple_engine_index (Engine.purgeSession_forgets x)).conseq (fun _ start => start)
      (fun _ _ done => done) back) fun _ => ?_
    exact Triple.pure _ fun _ done => ⟨done.1, done.2⟩
  · exact triple_fail _ fun _ start => start.1

theorem forgets_openSession (src dst : AppId) (qos : Qos) (master : Bool) :
    Triple (·.2.Forgets K) (openSession src dst qos master) (fun _ s => s.2.Forgets K) (·.2.Forgets K) := by
  unfold openSession
  exact Triple.bind forgets_current fun _ => Triple.pure _ fun _ done => done

/-- Taking up a session outside `K` files it under its id, in the index and in the records. -/
theorem forgets_assignSession {r : SessionRecord} (other : ¬ K r.ksid) :
    Triple (·.2.Forgets K) (assignSession r) (fun _ s => s.2.Forgets K) (·.2.Forgets K) := by
  unfold assignSession
  refine Triple.bind forgets_current fun k => ?_
  refine Triple.bind (triple_lift _) fun _ => ?_
  refine Triple.bind (forgets_records (Storage.forgetful_of_write _ _ fun _ forgets => forgets.storeSession other))
    fun _ => ?_
  exact Triple.bind (forgets_change _ fun _ forgets => by exact ⟨forgets.index.insert other, forgets.records⟩) fun _ =>
    Triple.pure _ fun _ done => done

/-- A relayed key comes for a session the node holds, which is none of `K`; its one-time key's row
is replayed and a middle hop cuts a fresh one, the last keeps the key for the session. -/
theorem forgets_relayForward (ksid : Ksid) (keyId otkId : KeyId) (cipher : String) (size : Nat) :
    Triple (·.2.Forgets K) (relayForward ksid keyId otkId cipher size) (fun _ s => s.2.Forgets K) (·.2.Forgets K) := by
  unfold relayForward
  refine Triple.bind triple_current fun k => ?_
  dsimp only
  split
  · rename_i r found
    refine Triple.given (φ := ¬ K ksid) (fun s start => ?_) fun other => ?_
    · rw [← start.2] at found
      exact start.1.index.indexed found
    -- the session is none of `K`, whichever node holds it from here on
    refine Triple.conseq (show Triple (·.2.Forgets K) _ _ _ from ?_) (fun _ start => start.1)
      (fun _ _ done => done) (fun _ failed => failed)
    refine Triple.bind (triple_lift _) fun role => ?_
    split
    · rename_i prev next
      refine Triple.bind (forgets_engine (Engine.forgets_reconstruct ksid otkId)) fun otk => ?_
      refine Triple.bind (triple_lift _) fun key => ?_
      dsimp only
      refine Triple.bind (triple_linkTo_frame next) fun ℓ => ?_
      refine Triple.bind (forgets_generate other ℓ size 1 0) fun batch => ?_
      split
      · refine Triple.bind (triple_lift _) fun _ => ?_
        exact Triple.bind triple_wallSecs fun now => Triple.pure _ fun _ done => done
      · exact triple_fail _ fun _ start => start
    · refine Triple.bind (forgets_engine (Engine.forgets_reconstruct ksid otkId)) fun otk => ?_
      refine Triple.bind (triple_lift _) fun key => ?_
      dsimp only
      refine Triple.bind (forgets_engine (Engine.spec_forgetful (Engine.forgetful_storeLocal other _))) fun _ => ?_
      exact Triple.pure _ fun _ done => done
    · exact Triple.throw_bind _ fun _ start => start
  · exact triple_fail _ fun _ start => start.1

theorem forgets_deliverBlock (ℓ : LinkId) (X : BlockId) (timestamp : Nat) (bytes : List UInt8) :
    Triple (·.2.Forgets K) (deliverBlock ℓ X timestamp bytes) (fun _ s => s.2.Forgets K) (·.2.Forgets K) := by
  unfold deliverBlock
  refine Triple.bind forgets_current fun k => ?_
  refine Triple.bind (forgets_records (Storage.forgetful_of_sameKeys (Pool.keeps_sameKeys_ingest k.pool ℓ X bytes timestamp)))
    fun ingested => ?_
  dsimp only
  refine Triple.bind (forgets_change _ fun _ forgets => by exact ⟨forgets.index, forgets.records⟩) fun _ => ?_
  split
  · exact Triple.pure _ fun _ done => done
  refine Triple.bind forgets_current fun k' => ?_
  refine Triple.bind (forgets_change _ fun _ forgets => by exact ⟨forgets.index, forgets.records⟩) fun _ => ?_
  refine Triple.bind (forgets_records (Storage.forgetful_of_sameKeys (Storage.keeps_sameKeys_storeLink _))) fun _ => ?_
  exact Triple.pure _ fun _ done => done

theorem forgets_linkConfirmed (ℓ : LinkId) (c : KmeId) (address : String) :
    Triple (·.2.Forgets K) (linkConfirmed ℓ c address) (fun _ s => s.2.Forgets K) (·.2.Forgets K) := by
  unfold linkConfirmed
  refine Triple.bind triple_wallSecs fun now => ?_
  refine Triple.bind forgets_current fun k => ?_
  dsimp only
  refine Triple.bind (forgets_change _ fun _ forgets => by exact ⟨forgets.index, forgets.records⟩) fun _ => ?_
  refine Triple.bind (forgets_records (Storage.forgetful_of_sameKeys (Storage.keeps_sameKeys_storeLink _))) fun _ => ?_
  exact Triple.pure _ fun _ done => done

/-- Every request that brings back none of the sessions in `K` leaves the node forgetting them,
answered or failed. -/
theorem forgets_handle {req : KmeRequest} (spares : req.Spares K) :
    Triple (·.2.Forgets K) (handle req) (fun _ s => s.2.Forgets K) (·.2.Forgets K) := by
  cases req with
  | deliverBlock ℓ X timestamp bytes => exact forgets_deliverBlock ℓ X timestamp bytes
  | openSession src dst qos master => exact forgets_openSession src dst qos master
  | encKeys src dst number size => exact Triple.bind forgets_sweepQuietly fun _ => forgets_encKeys src dst number size
  | decKeys src dst keys => exact Triple.bind forgets_sweepQuietly fun _ => forgets_decKeys src dst keys
  | status src dst => exact forgets_status src dst
  | closeSession x o =>
    exact (closeSession_forgets x o).conseq (fun _ start => start)
      (fun _ _ done => done.mono fun _ forgotten => .inl forgotten) (fun _ failed => failed)
  | syncKeys ℓ rows consumed =>
    exact Triple.bind (forgets_engine (Engine.spec_forgetful (Engine.forgetful_applySync ℓ spares consumed))) fun _ =>
      Triple.pure _ fun _ done => done
  | relayForward ksid keyId otkId cipher size => exact forgets_relayForward ksid keyId otkId cipher size
  | assignSession r => exact forgets_assignSession spares
  | linkConfirmed ℓ c address => exact forgets_linkConfirmed ℓ c address

/-- How a request handled to an end lands: answered in a node with `Q`, failed in one with `E`. -/
theorem respond_lands {P Q E : Kme → Prop} {req : KmeRequest}
    (t : Triple (fun s => P s.2) (handle req) (fun _ s => Q s.2) (fun s => E s.2)) {k : Kme} (holds : P k) {e : Env}
    {out : Option Plan} {k' : Kme} (ran : respond req e k = some (out, k')) :
    (∀ p, out = some p → Q k') ∧ (out = none → E k') := by
  have landed := t (e, k) holds
  unfold respond at ran
  cases run : handle req (e, k) with
  | ok p t =>
    rw [run] at ran landed
    cases ran
    exact ⟨fun _ _ => landed, fun absurd => nomatch absurd⟩
  | error h t =>
    rw [run] at ran landed
    cases h with
    | fault f =>
      cases ran
      exact ⟨fun _ absurd => (nomatch absurd), fun _ => landed⟩
    | abort a => cases ran

theorem respond_keeps {I : Kme → Prop} {req : KmeRequest}
    (t : Triple (fun s => I s.2) (handle req) (fun _ s => I s.2) (fun s => I s.2)) {k : Kme} (holds : I k) {e : Env}
    {out : Option Plan} {k' : Kme} (ran : respond req e k = some (out, k')) : I k' := by
  obtain ⟨answered, failed⟩ := respond_lands t holds ran
  cases out with
  | none => exact failed rfl
  | some p => exact answered p rfl

end Forgetting

/-- Node `k` handles the requests in turn, each to an end, answered or failed, and becomes `k'`. -/
inductive Handles : Kme → List KmeRequest → Kme → Prop
  | nil (k : Kme) : Handles k [] k
  | cons {k k₁ k' : Kme} {req : KmeRequest} {reqs : List KmeRequest} {e : Env} {out : Option Plan} :
      respond req e k = some (out, k₁) → Handles k₁ reqs k' → Handles k (req :: reqs) k'

/-- Through every run of requests that bring back none of the sessions in `K`, a node keeps
forgetting them. -/
theorem Handles.forgets {K : Ksid → Prop} {k k' : Kme} {reqs : List KmeRequest} (run : Handles k reqs k') :
    k.Forgets K → (∀ req ∈ reqs, req.Spares K) → k'.Forgets K := by
  induction run with
  | nil k => exact fun forgets _ => forgets
  | cons ran _ ih =>
    intro forgets spares
    have next := respond_keeps (forgets_handle (spares _ List.mem_cons_self)) forgets ran
    exact ih next fun req member => spares req (List.mem_cons_of_mem _ member)

end Kme

end KeyRelay
