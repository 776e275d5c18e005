import KeyRelay.Proofs.KeyBook

/-! Rows and clear keys that all have a property keep it through every computation of the key
engine, as long as what the engine files anew has it too. A row or clear key the engine stores
again is one it took, so it has the property already; a computation that takes one returns it
with the property. `Store.Carries R L` is the property of the records, `Engine.Carrying R L`
the relation of runs that keep it. -/

namespace KeyRelay

namespace Storage

variable {R : KeyRow → Prop} {L : LocalKey → Prop} {α : Type}

/-- Runs that end in records carrying `R` and `L` whenever they start in such. -/
def Carrying (R : KeyRow → Prop) (L : LocalKey → Prop) (s t : Storage) : Prop :=
  s.data.Carries R L → t.data.Carries R L

theorem carrying_chains : Chains (Carrying R L) := ⟨fun _ => id, fun first second carries => second (first carries)⟩

theorem carrying_of_sameKeys {m : StoreM α} (keeps : Keeps SameKeys m) : Keeps (Carrying R L) m :=
  keeps.imp fun _ _ same carries => carries.sameKeys same

theorem carrying_of_write (operation : String) (f : Store → α × Store)
    (keeps : ∀ d, d.Carries R L → (f d).2.Carries R L) : Keeps (Carrying R L) (write operation f) :=
  @keeps_of_write α (fun d d' => d.Carries R L → d'.Carries R L) (fun _ => id) operation f keeps

theorem carrying_storeKeyRows {rows : List KeyRow} (new : ∀ r ∈ rows, R r) :
    Keeps (Carrying R L) (storeKeyRows rows) :=
  carrying_of_write _ _ fun _ carries => carries.storeRows new

theorem carrying_storeLocalKeys {keys : List LocalKey} (new : ∀ l ∈ keys, L l) :
    Keeps (Carrying R L) (storeLocalKeys keys) :=
  carrying_of_write _ _ fun _ carries => carries.storeLocals new

theorem carrying_takeLocalKey (x : Ksid) (key : Option KeyId) : Keeps (Carrying R L) (takeLocalKey x key) :=
  carrying_of_write _ _ fun _ carries => (carries.takeLocal x key).1

/-- Taking a row keeps the records carrying `R`, and the row it gives has `R`. -/
theorem spec_takeKeyRow_carries (x : Ksid) (key : KeyId) :
    Spec (·.data.Carries R L) (takeKeyRow x key) (fun row st => st.data.Carries R L ∧ ∀ r, row = some r → R r)
      (·.data.Carries R L) :=
  @spec_of_write _ (Store.Carries R L) (fun (row : Option KeyRow) d => d.Carries R L ∧ ∀ r, row = some r → R r)
    (Store.Carries R L) "take_key_row" (·.takeRow x key) (fun _ carries => carries.takeRow x key)
    fun _ carries => carries

theorem spec_takeLocalKey_carries (x : Ksid) (key : Option KeyId) :
    Spec (·.data.Carries R L) (takeLocalKey x key) (fun l st => st.data.Carries R L ∧ ∀ l', l = some l' → L l')
      (·.data.Carries R L) :=
  @spec_of_write _ (Store.Carries R L) (fun (l : Option LocalKey) d => d.Carries R L ∧ ∀ l', l = some l' → L l')
    (Store.Carries R L) "take_local_key" (·.takeLocal x key) (fun _ carries => carries.takeLocal x key)
    fun _ carries => carries

end Storage

namespace Engine

variable {R : KeyRow → Prop} {L : LocalKey → Prop} {α : Type}

/-- Runs of the engine that end in records carrying `R` and `L` whenever they start in such. -/
def Carrying (R : KeyRow → Prop) (L : LocalKey → Prop) (s t : Env × Storage) : Prop := Storage.Carrying R L s.2 t.2

theorem carrying_chains : Chains (Carrying R L) := ⟨fun _ => id, fun first second carries => second (first carries)⟩

theorem carrying_records {m : StoreM α} (inner : Keeps (Storage.Carrying R L) m) : Keeps (Carrying R L) (records m) :=
  Keeps.focus (·.2) (fun st s => (s.1, st)) (fun _ _ kept => kept) inner

theorem carrying_of_sameKeys {m : EngineM α} (keeps : Keeps SameKeys m) : Keeps (Carrying R L) m :=
  keeps.imp fun _ _ same carries => carries.sameKeys same

theorem spec_carrying {m : EngineM α} (keeps : Keeps (Carrying R L) m) :
    Spec (·.2.data.Carries R L) m (fun _ s => s.2.data.Carries R L) (·.2.data.Carries R L) :=
  Spec.of_keeps keeps fun _ _ carries still => still carries

theorem carrying_releaseRange (spans : List Span) : Keeps (Carrying R L) (records (Pool.releaseRange spans)) :=
  carrying_of_sameKeys (keeps_sameKeys_records (Pool.keeps_sameKeys_releaseRange spans))

theorem carrying_discard (ksid : Ksid) (keys : List KeyId) : Keeps (Carrying R L) (discard ksid keys) :=
  Keeps.forM carrying_chains _ fun _ _ => Keeps.bind carrying_chains
    (carrying_records (Storage.carrying_takeLocalKey _ _)) fun _ => Keeps.pure carrying_chains _

theorem carrying_undoBatch (ksid : Ksid) (b : Batch) : Keeps (Carrying R L) (undoBatch ksid b) :=
  Keeps.bind carrying_chains (carrying_discard ksid b.storedIds) fun _ =>
    carrying_of_sameKeys (keeps_sameKeys_records (Pool.keeps_sameKeys_undo _ _))

theorem carrying_restoreRows {rows : List KeyRow} (new : ∀ r ∈ rows, R r) : Keeps (Carrying R L) (restoreRows rows) := by
  unfold restoreRows
  exact Keeps.ite _ (Keeps.pure carrying_chains _)
    (carrying_records (Keeps.attempt Storage.carrying_chains (Storage.carrying_storeKeyRows new)))

theorem carrying_afterFailedReplay {row : KeyRow} (held : R row) (f : Fault) :
    Keeps (Carrying R L) (afterFailedReplay row f) := by
  unfold afterFailedReplay
  refine Keeps.ite _ ?_ (carrying_restoreRows fun r member => ?_)
  · exact carrying_of_sameKeys (keeps_sameKeys_records (Keeps.attempt Storage.sameKeys_chains
      (Pool.keeps_sameKeys_releaseRange _)))
  · rw [List.mem_singleton.mp member]
    exact held

/-- Replaying a key keeps the records carrying `R`: a row it takes and must store again has `R`,
since the records held it. -/
theorem carries_reconstruct (ksid : Ksid) (key : KeyId) :
    Spec (·.2.data.Carries R L) (reconstruct ksid key) (fun _ s => s.2.data.Carries R L) (·.2.data.Carries R L) := by
  unfold reconstruct
  refine Spec.bind (spec_records (Storage.spec_takeKeyRow_carries ksid key)) fun row => ?_
  cases row with
  | none => exact Spec.throw fun _ held => held.1
  | some row =>
    refine Spec.weaken (Spec.assume fun (held : R row) => ?_) fun _ held => ⟨held.1, held.2 row rfl⟩
    refine Spec.bind (spec_carrying (onFailure_keeps carrying_chains
      (carrying_of_sameKeys (keeps_sameKeys_records (Pool.keeps_sameKeys_read row.spans)))
        (carrying_afterFailedReplay held))) fun _ => ?_
    exact Spec.bind (spec_carrying (carrying_releaseRange row.spans)) fun _ => Spec.pure fun _ carries => carries

/-- Following a companion keeps the records carrying `R` when every row it stores has `R`. -/
theorem carrying_applySync (ℓ : LinkId) {rows : List KeyRow} (new : ∀ r ∈ rows, R r) (consumed : List Span) :
    Keeps (Carrying R L) (applySync ℓ rows consumed) := by
  unfold applySync
  refine Keeps.bind carrying_chains (Keeps.ofExcept carrying_chains _) fun _ => ?_
  refine Keeps.bind carrying_chains
    (carrying_of_sameKeys (keeps_sameKeys_records (Pool.keeps_sameKeys_acknowledge ℓ consumed _))) fun _ => ?_
  exact onFailure_keeps carrying_chains (carrying_records (Storage.carrying_storeKeyRows new)) fun _ =>
    carrying_of_sameKeys (keeps_sameKeys_records (Keeps.attempt Storage.sameKeys_chains
      (Pool.keeps_sameKeys_releaseRange _)))

/-- A prefetched key of another size goes back where it was found; one that is handed on has `L`. -/
theorem carries_takePrefetched (ksid : Ksid) (sizeBits : Nat) :
    Spec (·.2.data.Carries R L) (takePrefetched ksid sizeBits)
      (fun l s => s.2.data.Carries R L ∧ ∀ l', l = some l' → L l') (·.2.data.Carries R L) := by
  unfold takePrefetched
  refine Spec.bind (spec_records (Storage.spec_takeLocalKey_carries ksid none)) fun key => ?_
  cases key with
  | none => exact Spec.pure fun _ held => ⟨held.1, fun _ none => (by cases none)⟩
  | some key =>
    refine Spec.weaken (Spec.assume fun (held : L key) => ?_) fun _ found => ⟨found.1, found.2 key rfl⟩
    dsimp only
    split
    · exact Spec.pure fun _ carries => ⟨carries, fun _ same => by cases same; exact held⟩
    · refine Spec.bind (spec_carrying (carrying_records (Storage.carrying_storeLocalKeys fun l member => ?_)))
        fun _ => Spec.pure fun _ carries => ⟨carries, fun _ none => (by cases none)⟩
      rw [List.mem_singleton.mp member]
      exact held

theorem carrying_storeLocal {ksid : Ksid} {keys : List (KeyId × Material)}
    (new : ∀ now, ∀ k ∈ keys, L ⟨ksid, k.1, k.2, now⟩) : Keeps (Carrying R L) (storeLocal ksid keys) := by
  unfold storeLocal
  refine Keeps.bind carrying_chains (carrying_of_sameKeys keeps_sameKeys_wallSecs) fun now => ?_
  refine carrying_records (Storage.carrying_storeLocalKeys fun l member => ?_)
  obtain ⟨k, listed, rfl⟩ := List.mem_map.mp member
  exact new now k listed

/-- Taking rows one after the other gives rows with `R`; a missing one puts back those taken,
which have `R` too. -/
theorem carries_takeRows (ksid : Ksid) : ∀ (keys : List KeyId) {taken : List KeyRow}, (∀ r ∈ taken, R r) →
    Spec (·.2.data.Carries R L) (takeRows ksid keys taken) (fun rows s => s.2.data.Carries R L ∧ ∀ r ∈ rows, R r)
      (·.2.data.Carries R L)
  | [], taken, held => Spec.pure fun _ carries => ⟨carries, held⟩
  | k :: rest, taken, held => by
    unfold takeRows
    refine Spec.bind (Q := fun row s => s.2.data.Carries R L ∧ R row)
      (spec_onFailure ?take fun _ => spec_carrying (carrying_restoreRows held)) fun row =>
        Spec.assume (P := fun s : Env × Storage => s.2.data.Carries R L) fun found => carries_takeRows ksid rest fun r member => ?_
    case take =>
      refine Spec.bind (spec_records (Storage.spec_takeKeyRow_carries ksid k)) fun found => ?_
      cases found with
      | none => exact Spec.throw fun _ carried => carried.1
      | some row => exact Spec.pure fun _ carried => ⟨carried.1, carried.2 row rfl⟩
    rcases List.mem_append.mp member with old | new
    · exact held r old
    · rw [List.mem_singleton.mp new]
      exact found

theorem carries_takeLocals (ksid : Ksid) : ∀ (keys : List KeyId) {taken : List LocalKey}, (∀ l ∈ taken, L l) →
    Spec (·.2.data.Carries R L) (takeLocals ksid keys taken) (fun _ s => s.2.data.Carries R L) (·.2.data.Carries R L)
  | [], taken, _ => Spec.pure fun _ carries => carries
  | k :: rest, taken, held => by
    unfold takeLocals
    refine Spec.bind (Q := fun key s => s.2.data.Carries R L ∧ L key)
      (spec_onFailure ?take fun _ => spec_carrying ?restore)
      fun key => Spec.assume (P := fun s : Env × Storage => s.2.data.Carries R L) fun found =>
        carries_takeLocals ksid rest fun l member => ?_
    case take =>
      refine Spec.bind (spec_records (Storage.spec_takeLocalKey_carries ksid (some k))) fun found => ?_
      cases found with
      | none => exact Spec.throw fun _ carried => carried.1
      | some key => exact Spec.pure fun _ carried => ⟨carried.1, carried.2 key rfl⟩
    case restore =>
      split
      · exact Keeps.pure carrying_chains _
      · exact carrying_records (Keeps.attempt Storage.carrying_chains (Storage.carrying_storeLocalKeys held))
    rcases List.mem_append.mp member with old | new
    · exact held l old
    · rw [List.mem_singleton.mp new]
      exact found

/-- Handing out keys keeps the records carrying `R` and `L`: the rows and clear keys it stores
again are ones it took. -/
theorem carries_retrieve (ksid : Ksid) (keys : List KeyId) (replay : Bool) :
    Spec (·.2.data.Carries R L) (retrieve ksid keys replay) (fun _ s => s.2.data.Carries R L)
      (·.2.data.Carries R L) := by
  unfold retrieve
  dsimp only
  split
  · exact Spec.bind (Spec.throw fun _ carries => carries) fun _ => Spec.of_false
  split
  · refine Spec.bind (carries_takeRows ksid keys fun _ none => (by cases none)) fun rows => ?_
    refine Spec.assume fun held => ?_
    refine Spec.bind (spec_carrying (carrying_of_sameKeys (keeps_sameKeys_replayRows rows 0 []))) fun result => ?_
    obtain ⟨materials, failed⟩ := result
    cases failed with
    | some lost =>
      obtain ⟨i, f⟩ := lost
      -- the rows stored again are those taken, less the one whose bytes are lost
      have finish : ∀ kept : List KeyRow, Spec (fun s : Env × Storage => s.2.data.Carries R L ∧ ∀ r ∈ kept, R r)
          (do restoreRows kept; throw f : EngineM (List Material)) (fun _ s => s.2.data.Carries R L)
            (fun s => s.2.data.Carries R L) :=
        fun kept => Spec.assume fun held' => Spec.bind (spec_carrying (carrying_restoreRows held')) fun _ =>
          Spec.throw fun _ carries => carries
      have erased : ∀ r ∈ rows.eraseIdx i, R r := fun r member => held r (List.mem_of_mem_eraseIdx member)
      dsimp only
      split
      · split
        · exact Spec.bind (spec_carrying (carrying_records (Keeps.attempt Storage.carrying_chains
            (Storage.carrying_of_sameKeys (Pool.keeps_sameKeys_releaseRange _))))) fun _ =>
              Spec.bind (Spec.pure fun _ carries => ⟨carries, erased⟩) finish
        · exact Spec.bind (Spec.pure fun _ carries => ⟨carries, erased⟩) finish
      · exact Spec.bind (Spec.pure fun _ carries => ⟨carries, held⟩) finish
    | none =>
      exact Spec.bind (spec_carrying (carrying_releaseRange _)) fun _ => Spec.pure fun _ carries => carries
  · exact Spec.bind (carries_takeLocals ksid keys fun _ none => (by cases none)) fun _ =>
      Spec.pure fun _ carries => carries

theorem carrying_purgeSession (ksid : Ksid) : Keeps (Carrying R L) (purgeSession ksid) :=
  Keeps.bind carrying_chains (carrying_records (Storage.carrying_of_write _ _ fun _ carries => carries.purgeLocals ksid))
    fun _ => Keeps.bind carrying_chains
      (carrying_records (Storage.carrying_of_write _ _ fun _ carries => (carries.takeSessionRows ksid).1))
      fun _ => carrying_releaseRange _

end Engine

end KeyRelay
