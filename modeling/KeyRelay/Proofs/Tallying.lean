import KeyRelay.Proofs.Carrying

/-! The key engine as the ledger sees it. Without fault injection every read gives the bytes
the book has under its spans (`Pool.read_spell`), so a generation's keys hold the book's bytes
of their spans, and their ids are the next draws of the environment (`Engine.cutKeys_drawn`);
nothing but a generation draws (`Engine.Stays`). Handing keys out takes exactly the rows or
clear keys of the ids asked for, whose bytes it returns, and leaves none of their slots behind
(`Engine.spells_retrieve_replay`, `Engine.spells_retrieve_clear`). -/

namespace KeyRelay

namespace Env

theorem drawn_add (e : Env) (m : Nat) : ∀ n, e.drawn (m + n) = e.drawn m ++ (e.after m).drawn n
  | 0 => by simp [drawn]
  | n + 1 => by
    rw [← Nat.add_assoc]
    simp only [drawn, drawn_add e m n, after_add, List.append_assoc]

/-- The environment `e'` comes from `e` by at most `n` draws. -/
def Drew (n : Nat) (e e' : Env) : Prop := ∃ j ≤ n, e' = e.after j

theorem Drew.refl (n : Nat) (e : Env) : Drew n e e := ⟨0, Nat.zero_le n, rfl⟩

theorem Drew.exact (e : Env) (n : Nat) : Drew n e (e.after n) := ⟨n, le_rfl, rfl⟩

theorem Drew.trans {n m : Nat} {e e' e'' : Env} (first : Drew n e e') (second : Drew m e' e'') :
    Drew (n + m) e e'' := by
  obtain ⟨j, le, rfl⟩ := first
  obtain ⟨i, le', rfl⟩ := second
  exact ⟨j + i, Nat.add_le_add le le', after_add e j i⟩

theorem Drew.mono {n m : Nat} {e e' : Env} (drew : Drew n e e') (le : n ≤ m) : Drew m e e' :=
  let ⟨j, below, same⟩ := drew
  ⟨j, below.trans le, same⟩

/-- Draws with room for them move the counter forward by whole steps and change nothing else. -/
theorem Drew.counter {n : Nat} {e e' : Env} (drew : Drew n e e') (room : e.counter + e.step * n < Ident.space) :
    ∃ j ≤ n, e' = { e with counter := e.counter + e.step * j } := by
  obtain ⟨j, le, rfl⟩ := drew
  have within : e.counter + e.step * j < Ident.space :=
    lt_of_le_of_lt (Nat.add_le_add_left (Nat.mul_le_mul_left _ le) _) room
  exact ⟨j, le, after_eq within⟩

/-- After at most `n` draws with room for `m` more, there is still room for those `m`, by the
same step. -/
theorem Drew.room {n m : Nat} {e e' : Env} (drew : Drew n e e') (room : e.counter + e.step * (n + m) < Ident.space) :
    e'.counter + e'.step * m < Ident.space ∧ e'.step = e.step := by
  have within : e.counter + e.step * n < Ident.space :=
    lt_of_le_of_lt (Nat.add_le_add_left (Nat.mul_le_mul_left _ (Nat.le_add_right n m)) _) room
  obtain ⟨j, le, rfl⟩ := drew.counter within
  have fewer : e.step * j ≤ e.step * n := Nat.mul_le_mul_left _ le
  rw [Nat.mul_add] at room
  exact ⟨by simp only; omega, rfl⟩

/-- Each identifier of `n` draws with room for them lies past the counter they start from and
at most at the one they end on. -/
theorem drawn_past {e : Env} {n : Nat} (pos : 0 < e.step) (room : e.counter + e.step * n < Ident.space) :
    ∀ i ∈ e.drawn n, e.counter < i.val ∧ i.val ≤ (e.after n).counter := by
  intro i member
  obtain ⟨j, bound, val⟩ := drawn_val room i member
  rw [after_eq room, val]
  have within : e.step * (j + 1) ≤ e.step * n := Nat.mul_le_mul_left _ bound
  have moved : 0 < e.step * (j + 1) := Nat.mul_pos pos (by omega)
  exact ⟨by omega, by simp only; omega⟩

end Env

namespace Book

variable {β : Book} {e e' : Env} {n : Nat}

/-- The ids the book knows stay below a counter that only advances. -/
theorem Below.drew (below : β.Below e) (drew : Env.Drew n e e') (room : e.counter + e.step * n < Ident.space) :
    β.Below e' := by
  obtain ⟨j, -, rfl⟩ := drew.counter room
  exact fun i past => below i (by simp only at past; omega)

/-- An id the book knows is at most the counter. -/
theorem Below.known (below : β.Below e) {i : Ident} {v : Ksid × Material} (known : β.keys i = some v) :
    i.val ≤ e.counter := by
  by_contra past
  rw [(below i (by omega)).1] at known
  cases known

end Book

namespace Pool

/-- Without fault injection, a read that returns gives the bytes the book has under the spans,
when every block holds the book's bytes. -/
theorem read_spell {st : Storage} (steady : st.Steady) {bytes : BlockId → List UInt8}
    (spelled : Spelled bytes st.data.bare) (spans : List Span) {m : Material} {st' : Storage}
    (run : read spans st = .ok m st') : m = spell bytes spans :=
  read_by steady _ (fun s b found => by
    rw [← spelled s.block b.bare (by simp [Store.bare, found])]
    rfl) spans run

end Pool

/-- A run that keeps a relation keeps every condition the relation carries. -/
theorem Spec.keeping {ε σ α : Type} {P : σ → Prop} {m : EStateM ε σ α} {Q : α → σ → Prop} {E : σ → Prop}
    {R : σ → σ → Prop} {F : σ → Prop} (spec : Spec P m Q E) (keeps : Keeps R m) (stays : ∀ s t, F s → R s t → F t) :
    Spec (fun s => P s ∧ F s) m (fun a s => Q a s ∧ F s) (fun s => E s ∧ F s) := by
  rintro s ⟨start, framed⟩
  obtain ⟨returned, failed⟩ := spec s start
  have kept := keeps s
  refine ⟨fun a t run => ⟨returned a t run, ?_⟩, fun f t run => ⟨failed f t run, ?_⟩⟩ <;> rw [run] at kept
  · exact stays s t framed kept
  · exact stays s t framed kept

namespace Storage

variable {bytes : BlockId → List UInt8} {R : KeyRow → Prop} {L : LocalKey → Prop}

/-- Steady records whose every block holds the bytes `bytes` gives its id. -/
def Spelt (bytes : BlockId → List UInt8) (st : Storage) : Prop := st.Steady ∧ Spelled bytes st.data.bare

theorem Spelt.kept {st st' : Storage} (spelt : st.Spelt bytes) (kept : Kept st st') : st'.Spelt bytes :=
  let ⟨steady, fewer⟩ := kept spelt.1
  ⟨steady, spelt.2.shrinks fewer⟩

theorem spec_read_spell (spans : List Span) :
    Spec (Spelt bytes) (Pool.read spans) (fun m st => st.Spelt bytes ∧ m = spell bytes spans) (Spelt bytes) := by
  intro st spelt
  have kept := Pool.keeps_read spans st
  refine ⟨fun m st' run => ?_, fun f st' run => ?_⟩ <;> rw [run] at kept
  · exact ⟨spelt.kept kept, Pool.read_spell spelt.1 spelt.2 spans run⟩
  · exact spelt.kept kept

theorem spec_takeKeyRow_apart (x : Ksid) (key : KeyId) :
    Spec (fun st => st.data.Carries R L ∧ st.Spelt bytes) (takeKeyRow x key)
      (fun row st => (st.data.Carries (fun r => R r ∧ (r.ksid, r.keyId) ≠ (x, key)) L ∧
        ∀ r, row = some r → (r.ksid, r.keyId) = (x, key) ∧ R r) ∧ st.Spelt bytes)
      (fun st => st.data.Carries R L ∧ st.Spelt bytes) :=
  Spec.keeping (@spec_of_write _ (Store.Carries R L)
    (fun (row : Option KeyRow) d => d.Carries (fun r => R r ∧ (r.ksid, r.keyId) ≠ (x, key)) L ∧
      ∀ r, row = some r → (r.ksid, r.keyId) = (x, key) ∧ R r)
    (Store.Carries R L) "take_key_row" (·.takeRow x key) (fun _ carries => carries.takeRow_apart x key)
    fun _ carries => carries) (keeps_takeKeyRow x key) fun _ _ spelt kept => spelt.kept kept

theorem spec_takeLocalKey_apart (x : Ksid) (key : Option KeyId) :
    Spec (fun st => st.data.Carries R L ∧ st.Spelt bytes) (takeLocalKey x key)
      (fun l st => (st.data.Carries R L ∧ ∀ l', l = some l' → l'.ksid = x ∧ (∀ k, key = some k → l'.keyId = k) ∧
        L l' ∧ st.data.Carries R fun l'' => L l'' ∧ (l''.ksid, l''.keyId) ≠ (l'.ksid, l'.keyId)) ∧ st.Spelt bytes)
      (fun st => st.data.Carries R L ∧ st.Spelt bytes) :=
  Spec.keeping (@spec_of_write _ (Store.Carries R L)
    (fun (l : Option LocalKey) d => d.Carries R L ∧ ∀ l', l = some l' → l'.ksid = x ∧
      (∀ k, key = some k → l'.keyId = k) ∧ L l' ∧ d.Carries R fun l'' => L l'' ∧ (l''.ksid, l''.keyId) ≠ (l'.ksid, l'.keyId))
    (Store.Carries R L) "take_local_key" (·.takeLocal x key)
    (fun _ carries => ⟨(carries.takeLocal x key).1, fun _ found => carries.takeLocal_apart x key found⟩)
    fun _ carries => carries) (keeps_takeLocalKey x key) fun _ _ spelt kept => spelt.kept kept

end Storage

namespace Engine

variable {bytes : BlockId → List UInt8} {R : KeyRow → Prop} {L : LocalKey → Prop} {α : Type}

/-! ### What leaves the environment alone -/

/-- Runs of the engine that leave the environment as it was: every run that draws no id. -/
def Stays (s t : Env × Storage) : Prop := t.1 = s.1

theorem stays_chains : Chains Stays := ⟨fun _ => rfl, fun first second => second.trans first⟩

theorem stays_records {m : StoreM α} : Keeps Stays (records m) :=
  Keeps.focus (Q := fun _ _ => True) (·.2) (fun st s => (s.1, st)) (fun _ _ _ => rfl) fun _ => trivial

theorem stays_wallSecs : Keeps Stays wallSecs := fun _ => rfl

theorem stays_onFailure {m : EngineM α} {undo : Fault → EngineM Unit} (first : Keeps Stays m)
    (recover : ∀ f, Keeps Stays (undo f)) : Keeps Stays (onFailure m undo) :=
  Keeps.tryCatch stays_chains first fun f => Keeps.bind stays_chains (recover f) fun _ => Keeps.throw stays_chains _

theorem stays_restoreRows (rows : List KeyRow) : Keeps Stays (restoreRows rows) :=
  Keeps.ite _ (Keeps.pure stays_chains _) stays_records

theorem stays_afterFailedReplay (row : KeyRow) (f : Fault) : Keeps Stays (afterFailedReplay row f) :=
  Keeps.ite _ stays_records (stays_restoreRows _)

theorem stays_reconstruct (ksid : Ksid) (key : KeyId) : Keeps Stays (reconstruct ksid key) := by
  unfold reconstruct
  refine Keeps.bind stays_chains stays_records fun row => ?_
  cases row with
  | none => exact Keeps.throw stays_chains _
  | some row =>
    exact Keeps.bind stays_chains (stays_onFailure stays_records (stays_afterFailedReplay row)) fun _ =>
      Keeps.bind stays_chains stays_records fun _ => Keeps.pure stays_chains _

theorem stays_takeRows (ksid : Ksid) : ∀ (keys : List KeyId) (taken : List KeyRow), Keeps Stays (takeRows ksid keys taken)
  | [], _ => Keeps.pure stays_chains _
  | k :: rest, taken => by
    unfold takeRows
    refine Keeps.bind stays_chains (stays_onFailure ?_ fun _ => stays_restoreRows taken) fun _ =>
      stays_takeRows ksid rest _
    refine Keeps.bind stays_chains stays_records fun row => ?_
    cases row with
    | none => exact Keeps.throw stays_chains _
    | some row => exact Keeps.pure stays_chains _

theorem stays_replayRows : ∀ (rows : List KeyRow) (i : Nat) (keys : List Material), Keeps Stays (replayRows rows i keys)
  | [], _, _ => Keeps.pure stays_chains _
  | row :: rest, i, keys => by
    unfold replayRows
    refine Keeps.bind stays_chains (Keeps.tryCatch stays_chains (Keeps.bind stays_chains stays_records fun _ =>
      Keeps.pure stays_chains _) fun _ => Keeps.pure stays_chains _) fun r => ?_
    cases r with
    | error f => exact Keeps.pure stays_chains _
    | ok m => exact stays_replayRows rest _ _

theorem stays_takeLocals (ksid : Ksid) : ∀ (keys : List KeyId) (taken : List LocalKey),
    Keeps Stays (takeLocals ksid keys taken)
  | [], _ => Keeps.pure stays_chains _
  | k :: rest, taken => by
    unfold takeLocals
    refine Keeps.bind stays_chains (stays_onFailure ?_ fun _ => Keeps.ite _ (Keeps.pure stays_chains _) stays_records)
      fun _ => stays_takeLocals ksid rest _
    refine Keeps.bind stays_chains stays_records fun key => ?_
    cases key with
    | none => exact Keeps.throw stays_chains _
    | some key => exact Keeps.pure stays_chains _

theorem stays_retrieve (ksid : Ksid) (keys : List KeyId) (replay : Bool) : Keeps Stays (retrieve ksid keys replay) := by
  unfold retrieve
  dsimp only
  split
  · exact Keeps.throw_bind stays_chains _ _
  split
  · refine Keeps.bind stays_chains (stays_takeRows ksid keys []) fun rows => ?_
    refine Keeps.bind stays_chains (stays_replayRows rows 0 []) fun result => ?_
    obtain ⟨materials, failed⟩ := result
    dsimp only
    cases failed with
    | some lost =>
      obtain ⟨i, f⟩ := lost
      dsimp only
      have finish : ∀ rows : List KeyRow, Keeps Stays (do restoreRows rows; throw f : EngineM (List Material)) :=
        fun rows => Keeps.bind stays_chains (stays_restoreRows rows) fun _ => Keeps.throw stays_chains _
      split
      · split
        · exact Keeps.bind stays_chains stays_records fun _ => Keeps.bind stays_chains (Keeps.pure stays_chains _) finish
        · exact Keeps.bind stays_chains (Keeps.pure stays_chains _) finish
      · exact Keeps.bind stays_chains (Keeps.pure stays_chains _) finish
    | none => exact Keeps.bind stays_chains stays_records fun _ => Keeps.pure stays_chains _
  · exact Keeps.bind stays_chains (stays_takeLocals ksid keys []) fun _ => Keeps.pure stays_chains _

theorem stays_applySync (ℓ : LinkId) (rows : List KeyRow) (consumed : List Span) :
    Keeps Stays (applySync ℓ rows consumed) :=
  Keeps.bind stays_chains (Keeps.ofExcept stays_chains _) fun _ => Keeps.bind stays_chains stays_records fun _ =>
    stays_onFailure stays_records fun _ => stays_records

theorem stays_takePrefetched (ksid : Ksid) (sizeBits : Nat) : Keeps Stays (takePrefetched ksid sizeBits) := by
  unfold takePrefetched
  refine Keeps.bind stays_chains stays_records fun key => ?_
  cases key with
  | none => exact Keeps.pure stays_chains _
  | some key =>
    exact Keeps.ite _ (Keeps.pure stays_chains _) (Keeps.bind stays_chains stays_records fun _ => Keeps.pure stays_chains _)

theorem stays_storeLocal (ksid : Ksid) (keys : List (KeyId × Material)) : Keeps Stays (storeLocal ksid keys) :=
  Keeps.bind stays_chains stays_wallSecs fun _ => stays_records

theorem stays_purgeSession (ksid : Ksid) : Keeps Stays (purgeSession ksid) :=
  Keeps.bind stays_chains stays_records fun _ => Keeps.bind stays_chains stays_records fun _ => stays_records

theorem stays_sessionKeyCount (ksid : Ksid) : Keeps Stays (sessionKeyCount ksid) := stays_records

theorem stays_sweep (pool : Pool) : Keeps Stays (sweep pool) :=
  Keeps.bind stays_chains stays_wallSecs fun _ => stays_records

theorem stays_available (pool : Pool) (ℓ : LinkId) : Keeps Stays (available pool ℓ) :=
  Keeps.bind stays_chains stays_wallSecs fun _ => stays_records

theorem stays_discard (ksid : Ksid) (keys : List KeyId) : Keeps Stays (discard ksid keys) :=
  Keeps.forM stays_chains _ fun _ _ => Keeps.bind stays_chains stays_records fun _ => Keeps.pure stays_chains _

theorem stays_undoBatch (ksid : Ksid) (b : Batch) : Keeps Stays (undoBatch ksid b) :=
  Keeps.bind stays_chains (stays_discard ksid _) fun _ => stays_records

/-! ### Computations that keep the records as the book has them -/

/-- A run that keeps the blocks and carries `R` and `L` keeps the records spelling the book's
bytes and carrying them. -/
theorem spells_of_keeps {m : EngineM α} (kept : Keeps Kept m) (carrying : Keeps (Carrying R L) m) :
    Spec (fun s => s.2.data.Carries R L ∧ s.2.Spelt bytes) m (fun _ s => s.2.data.Carries R L ∧ s.2.Spelt bytes)
      (fun s => s.2.data.Carries R L ∧ s.2.Spelt bytes) :=
  (spec_carrying carrying).keeping kept fun _ _ spelt still => spelt.kept still

theorem store_onlyBlocks {d d' : Store} (carries : d.Carries R L) (only : Store.OnlyBlocks d d') : d'.Carries R L := by
  rw [only]
  exact ⟨carries.rows, carries.locals⟩

/-- Following a companion moves cursors only, so every block keeps its bytes. -/
theorem spells_applySync (ℓ : LinkId) {rows : List KeyRow} (new : ∀ r ∈ rows, R r) (consumed : List Span) :
    Spec (fun s => s.2.data.Carries R L ∧ s.2.Spelt bytes) (applySync ℓ rows consumed)
      (fun _ s => s.2.data.Carries R L ∧ s.2.Spelt bytes) (fun s => s.2.data.Carries R L ∧ s.2.Spelt bytes) := by
  rintro ⟨e, st⟩ ⟨carries, steady, spelled⟩
  have carried := carrying_applySync (L := L) ℓ new consumed (e, st)
  rcases applySync_spec ℓ rows consumed e steady with ⟨f, failed⟩ | ⟨st', synced, steady', -, view⟩
  · refine ⟨fun _ _ run => (by rw [failed] at run; cases run), fun f' t run => ?_⟩
    rw [failed] at run
    cases run
    exact ⟨carries, steady, spelled⟩
  · refine ⟨fun _ t run => ?_, fun _ _ run => (by rw [synced] at run; cases run)⟩
    rw [synced] at carried run
    cases run
    exact ⟨carried carries, steady', spelled.offsets view⟩

/-! ### Generating keys -/

/-- Cutting keys after those cut so far: each key holds the book's bytes of its spans, and the
keys' ids are the next draws; a failure has drawn no more ids than keys were to be cut. -/
theorem cutKeys_drawn (pool : Pool) (ℓ : LinkId) (size now : Nat) {v : BlockId → Option Block}
    (spelled : Spelled bytes v) : ∀ (k : Nat) (carved : List Span) (keys : List Issued) (e : Env) (st : Storage),
    st.Steady → Carves ℓ v carved st.data.bare →
    (∀ f e' st', cutKeys pool ℓ size now k carved keys (e, st) = .error f (e', st') → Env.Drew k e e') ∧
    ∀ c keys' e' st', cutKeys pool ℓ size now k carved keys (e, st) = .ok (c, keys') (e', st') →
      e' = e.after k ∧ ∃ fresh, keys' = keys ++ fresh ∧ fresh.map (·.keyId) = e.drawn k ∧
        ∀ key ∈ fresh, key.material = spell bytes key.spans
  | 0, carved, keys, e, st, _, _ =>
    ⟨fun _ _ _ run => (by cases run), fun _ _ _ _ run => by
      cases run
      exact ⟨rfl, [], by simp, rfl, by simp⟩⟩
  | k + 1, carved, keys, e, st, steady, carves => by
    simp only [cutKeys]
    rcases Pool.reserve_spec pool ℓ size now steady with ⟨f, refused⟩ | ⟨C, st1, reserved, steady1, cut, -⟩
    · -- the reservation fails before any draw
      obtain ⟨st', back, -, -⟩ := rollback_run carves steady true e
      have failed : onFailure (records (pool.reserve ℓ size now)) (fun _ => rollback carved true) (e, st) =
          .error f (e, st') := by
        rw [run_onFailure_error (records_error e refused), run_bind_ok back]
        rfl
      rw [run_bind_error failed]
      exact ⟨fun _ _ _ run => (by cases run; exact Env.Drew.refl _ _), fun _ _ _ _ run => by cases run⟩
    have carves1 : Carves ℓ v (carved ++ C) st1.data.bare := carves.append cut
    obtain ⟨m, read, -⟩ := Pool.read_spec steady1 C fun s member => cut.readable member
    have material : m = spell bytes C := Pool.read_spell steady1 (spelled.carves carves1) C read
    rw [run_bind_ok (run_onFailure_ok (records_ok e reserved)), run_bind_ok (run_onFailure_ok (records_ok e read)),
      run_bind_ok (show draw (e, st1) = .ok e.draw.1 (e.draw.2, st1) from rfl)]
    -- the key's id is the first draw, the rest come after it
    have first : e.draw.2 = e.after 1 := rfl
    obtain ⟨failed, done⟩ := cutKeys_drawn pool ℓ size now spelled k (carved ++ C) (keys ++ [⟨e.draw.1, C, m⟩])
      e.draw.2 st1 steady1 carves1
    refine ⟨fun f e' st' run => ?_, fun c keys' e' st' run => ?_⟩
    · have drew := (Env.Drew.exact e 1).trans (first ▸ failed f e' st' run)
      rwa [Nat.add_comm] at drew
    · obtain ⟨rfl, fresh, rfl, ids, spelt⟩ := done c keys' e' st' run
      refine ⟨by rw [first, Env.after_add, Nat.add_comm], ⟨e.draw.1, C, m⟩ :: fresh, by simp, ?_, ?_⟩
      · rw [Nat.add_comm, Env.drawn_add, ← first, List.map_cons, ids]
        rfl
      · intro key member
        rcases List.mem_cons.mp member with rfl | later
        · exact material
        · exact spelt key later

/-- A generation's environment and keys: the keys hold the book's bytes of their spans and their
ids are the next `count` draws; a failure draws at most `count`. -/
theorem generate_drawn (pool : Pool) (ksid : Ksid) (ℓ : LinkId) (sizeBits count keep : Nat) (e : Env) {st : Storage}
    (steady : st.Steady) (spelled : Spelled bytes st.data.bare) :
    (∀ f e' st', generate pool ksid ℓ sizeBits count keep (e, st) = .error f (e', st') → Env.Drew count e e') ∧
    ∀ b e' st', generate pool ksid ℓ sizeBits count keep (e, st) = .ok b (e', st') →
      e' = e.after count ∧ b.keys.map (·.keyId) = e.drawn count ∧ ∀ key ∈ b.keys, key.material = spell bytes key.spans := by
  unfold generate
  by_cases bad : sizeBits = 0 ∨ sizeBits % 8 ≠ 0
  · rw [if_pos bad]
    exact ⟨fun _ _ _ run => (by cases run; exact Env.Drew.refl _ _), fun _ _ _ run => by cases run⟩
  rw [if_neg bad]
  dsimp only
  rw [run_bind_ok (show wallSecs (e, st) = .ok e.wallSecs (e, st) from rfl)]
  obtain ⟨cutFailed, cutDone⟩ := cutKeys_drawn pool ℓ (sizeBits / 8) e.wallSecs spelled count [] [] e st steady .nil
  rcases cutKeys_spec pool ℓ (sizeBits / 8) e.wallSecs st.data.bare count [] [] e st steady .nil rfl (by simp)
    with ⟨f, e', st', failed, -, -⟩ | ⟨keys, e1, st1, cut, steady1, -, -, -⟩
  · rw [run_bind_error failed]
    exact ⟨fun _ _ _ run => (by cases run; exact cutFailed f e' st' failed), fun _ _ _ run => by cases run⟩
  obtain ⟨rfl, fresh, same, ids, spelt⟩ := cutDone _ keys e1 st1 cut
  rw [List.nil_append] at same
  subst same
  rw [run_bind_ok cut]
  dsimp only
  obtain ⟨st2, released, steady2, -⟩ := releaseEach_spec (keys.flatMap (·.spans)) 0 _ (e.after count) st1 steady1
  rw [run_bind_ok released]
  -- the batch holds the keys cut, handed out first
  have whole : ∀ b : Batch, b = ⟨ℓ, keys.take (count - keep), keys.drop (count - keep)⟩ →
      b.keys.map (·.keyId) = e.drawn count ∧ ∀ key ∈ b.keys, key.material = spell bytes key.spans := by
    rintro b rfl
    simp only [Batch.keys, List.take_append_drop]
    exact ⟨ids, spelt⟩
  split
  · obtain ⟨st3, stored, -, -⟩ := storeLocalKeys_run steady2
      ((keys.drop (count - keep)).map fun k => (⟨ksid, k.keyId, k.material, e.wallSecs⟩ : LocalKey))
    rw [run_bind_ok (run_onFailure_ok (records_ok _ stored))]
    exact ⟨fun _ _ _ run => (by cases run), fun b e' st' run => by cases run; exact ⟨rfl, whole _ rfl⟩⟩
  · exact ⟨fun _ _ _ run => (by cases run), fun b e' st' run => by cases run; exact ⟨rfl, whole _ rfl⟩⟩

/-- A generation from records as the book has them: it fails and leaves them as they were, or
returns a batch whose keys hold the book's bytes of their spans under the next `count` ids,
and the records carry its kept keys besides. -/
theorem generate_spells (pool : Pool) (ksid : Ksid) (ℓ : LinkId) (sizeBits count keep : Nat) (e : Env)
    {st : Storage} (carries : st.data.Carries R L) (spelt : st.Spelt bytes) (fits : keep ≤ count) :
    (∃ f e' st', generate pool ksid ℓ sizeBits count keep (e, st) = .error f (e', st') ∧
      st'.data.Carries R L ∧ st'.Spelt bytes ∧ Env.Drew count e e') ∨
    ∃ b st', generate pool ksid ℓ sizeBits count keep (e, st) = .ok b (e.after count, st') ∧
      st'.data.Carries R (fun l => L l ∨ l ∈ b.stored.map fun key => ⟨ksid, key.keyId, key.material, e.wallSecs⟩) ∧
      st'.Spelt bytes ∧ b.keys.map (·.keyId) = e.drawn count ∧ ∀ key ∈ b.keys, key.material = spell bytes key.spans := by
  obtain ⟨drewFailed, drewDone⟩ := generate_drawn pool ksid ℓ sizeBits count keep e spelt.1 spelt.2
  rcases generate_calm pool ksid ℓ sizeBits count keep e spelt.1 fits with
    ⟨f, e', st', failed, steady', restored⟩ | ⟨b, e', st', dc, made, steady', -, cutting, stored⟩
  · -- a failure leaves every block as it was
    have same : st'.data.bare = st.data.bare := funext fun X => by simp [Store.bare, restored.blocks X]
    exact .inl ⟨f, e', st', failed, store_onlyBlocks carries restored.only, ⟨steady', same ▸ spelt.2⟩,
      drewFailed f e' st' failed⟩
  · obtain ⟨rfl, ids, spelt'⟩ := drewDone b e' st' made
    refine .inr ⟨b, st', made, ?_, ⟨steady', ?_⟩, ids, spelt'⟩
    · rw [stored]
      exact ((store_onlyBlocks carries cutting.only).mono (fun _ _ held => held) fun _ _ held => .inl held).storeLocals
        fun _ member => .inr member
    · rw [stored]
      exact spelt.2.carves cutting.carves

/-! ### Taking and handing out keys -/

theorem forall₂_right {α β : Type} {P : α → β → Prop} {Q : β → Prop} (each : ∀ a b, P a b → Q b) :
    ∀ {as : List α} {bs : List β}, List.Forall₂ P as bs → ∀ b ∈ bs, Q b
  | _, _, .nil => fun _ none => (by cases none)
  | _, _, .cons held rest => fun b member => by
    rcases List.mem_cons.mp member with rfl | later
    · exact each _ _ held
    · exact forall₂_right each rest b later

theorem forall₂_left {α β : Type} {P : α → β → Prop} :
    ∀ {as : List α} {bs : List β}, List.Forall₂ P as bs → ∀ a ∈ as, ∃ b ∈ bs, P a b
  | _, _, .nil => fun _ none => (by cases none)
  | _, _, .cons head tail => fun a member => by
    rcases List.mem_cons.mp member with rfl | later
    · exact ⟨_, List.mem_cons_self, head⟩
    · obtain ⟨b, listed, holds⟩ := forall₂_left tail a later
      exact ⟨b, List.mem_cons_of_mem _ listed, holds⟩

theorem spells_restoreRows {rows : List KeyRow} (new : ∀ r ∈ rows, R r) :
    Spec (fun s => s.2.data.Carries R L ∧ s.2.Spelt bytes) (restoreRows rows)
      (fun _ s => s.2.data.Carries R L ∧ s.2.Spelt bytes) (fun s => s.2.data.Carries R L ∧ s.2.Spelt bytes) :=
  spells_of_keeps (keeps_restoreRows rows) (carrying_restoreRows new)

/-- A read of the records gives the book's bytes of its spans and changes no key. -/
theorem spells_read (spans : List Span) :
    Spec (fun s => s.2.data.Carries R L ∧ s.2.Spelt bytes) (records (Pool.read spans))
      (fun m s => (s.2.data.Carries R L ∧ s.2.Spelt bytes) ∧ m = spell bytes spans)
      (fun s => s.2.data.Carries R L ∧ s.2.Spelt bytes) :=
  ((spec_records (Storage.spec_read_spell spans)).keeping (keeps_sameKeys_records (Pool.keeps_sameKeys_read spans))
    fun _ _ carries same => carries.sameKeys same).conseq (fun _ start => ⟨start.2, start.1⟩)
    (fun _ _ done => ⟨⟨done.2, done.1.1⟩, done.1.2⟩) fun _ failed => ⟨failed.2, failed.1⟩

/-- Replaying a key gives the book's bytes of the spans of its row, taken from its slot. -/
theorem spells_reconstruct (ksid : Ksid) (key : KeyId) :
    Spec (fun s => s.2.data.Carries R L ∧ s.2.Spelt bytes) (reconstruct ksid key)
      (fun m s => (s.2.data.Carries R L ∧ s.2.Spelt bytes) ∧
        ∃ row, (row.ksid, row.keyId) = (ksid, key) ∧ R row ∧ m = spell bytes row.spans)
      (fun s => s.2.data.Carries R L ∧ s.2.Spelt bytes) := by
  unfold reconstruct
  refine Spec.bind (spec_records (Storage.spec_takeKeyRow_apart ksid key)) fun found => ?_
  cases found with
  | none => exact Spec.throw fun _ held => ⟨held.1.1.mono (fun _ _ kept => kept.1) fun _ _ kept => kept, held.2⟩
  | some row =>
    refine Spec.weaken (P := fun s => (s.2.data.Carries R L ∧ s.2.Spelt bytes) ∧ ((row.ksid, row.keyId) = (ksid, key) ∧ R row))
      (Spec.assume fun taken => ?_) fun _ held =>
        ⟨⟨held.1.1.mono (fun _ _ kept => kept.1) fun _ _ kept => kept, held.2⟩, held.1.2 row rfl⟩
    refine Spec.bind (spec_onFailure (spells_read row.spans) fun f =>
      spells_of_keeps (keeps_afterFailedReplay row f) (carrying_afterFailedReplay taken.2 f)) fun m => ?_
    refine Spec.weaken (Spec.assume fun read => ?_) fun _ held => held
    exact Spec.bind (spells_of_keeps (keeps_records (Pool.keeps_releaseRange _)) (carrying_releaseRange _)) fun _ =>
      Spec.pure fun _ held => ⟨held, row, taken.1, taken.2, read⟩

/-- Taking the rows of `keys` after those of `done`: each row comes from the slot of its id, and
the rows left are apart from every slot taken; a missing row puts back those taken. -/
theorem spells_takeRows (ksid : Ksid) : ∀ (keys : List KeyId) {done : List KeyId} {taken : List KeyRow},
    List.Forall₂ (fun i r => (r.ksid, r.keyId) = (ksid, i) ∧ R r) done taken →
    Spec (fun s => s.2.data.Carries (fun r => R r ∧ (r.ksid = ksid → r.keyId ∉ done)) L ∧ s.2.Spelt bytes)
      (takeRows ksid keys taken)
      (fun rows s => (s.2.data.Carries (fun r => R r ∧ (r.ksid = ksid → r.keyId ∉ done ++ keys)) L ∧ s.2.Spelt bytes) ∧
        List.Forall₂ (fun i r => (r.ksid, r.keyId) = (ksid, i) ∧ R r) (done ++ keys) rows)
      (fun s => s.2.data.Carries R L ∧ s.2.Spelt bytes)
  | [], done, taken, pairs => Spec.pure fun _ held => ⟨by simpa using held, by simpa using pairs⟩
  | k :: rest, done, taken, pairs => by
    unfold takeRows
    refine Spec.bind (Q := fun row s => (s.2.data.Carries (fun r => R r ∧ (r.ksid = ksid → r.keyId ∉ done ++ [k])) L ∧
        s.2.Spelt bytes) ∧ ((row.ksid, row.keyId) = (ksid, k) ∧ R row))
      (spec_onFailure ?take fun _ => spells_restoreRows (forall₂_right (fun _ _ held => held.2) pairs)) fun row => ?_
    case take =>
      refine Spec.bind ((spec_records (Storage.spec_takeKeyRow_apart
        (R := fun r => R r ∧ (r.ksid = ksid → r.keyId ∉ done)) ksid k)).conseq (fun _ start => start)
          (fun _ _ done => done) fun _ failed => ⟨failed.1.mono (fun _ _ kept => kept.1) fun _ _ kept => kept, failed.2⟩)
        fun found => ?_
      cases found with
      | none => exact Spec.throw fun _ held =>
          ⟨held.1.1.mono (fun _ _ kept => kept.1.1) fun _ _ kept => kept, held.2⟩
      | some row =>
        refine Spec.pure fun _ held => ⟨⟨held.1.1.mono (fun r _ kept => ⟨kept.1.1, fun own listed => ?_⟩)
          fun _ _ kept => kept, held.2⟩, ⟨(held.1.2 row rfl).1, (held.1.2 row rfl).2.1⟩⟩
        rcases List.mem_append.mp listed with old | new
        · exact kept.1.2 own old
        · rw [List.mem_singleton.mp new] at kept
          exact kept.2 (by rw [own])
    refine Spec.weaken (Spec.assume fun found => ?_) fun _ held => held
    have later := spells_takeRows ksid rest (List.rel_append pairs (List.Forall₂.cons found .nil))
    rw [List.append_assoc, List.singleton_append] at later
    exact later

/-- Replaying rows reads only: when no row fails, the bytes are the book's bytes of each row's
spans, in order. -/
theorem spells_replayRows : ∀ (rows : List KeyRow) (i : Nat) (keys : List Material),
    Spec (fun s => s.2.Spelt bytes) (replayRows rows i keys)
      (fun r s => s.2.Spelt bytes ∧ (r.2 = none → r.1 = keys ++ rows.map (spell bytes ·.spans))) (fun s => s.2.Spelt bytes)
  | [], _, keys => Spec.pure fun _ spelt => ⟨spelt, fun _ => by simp⟩
  | row :: rest, i, keys => by
    unfold replayRows
    refine Spec.bind (Q := fun r s => s.2.Spelt bytes ∧ ∀ m, r = .ok m → m = spell bytes row.spans)
      (Spec.tryCatch (Spec.bind (spec_records (Storage.spec_read_spell row.spans)) fun m =>
        Spec.pure fun _ held => ⟨held.1, fun _ same => by cases same; exact held.2⟩) fun _ =>
          Spec.pure fun _ spelt => ⟨spelt, fun _ none => (by cases none)⟩) fun r => ?_
    cases r with
    | error f => exact Spec.pure fun _ held => ⟨held.1, fun none => (by cases none)⟩
    | ok m =>
      refine Spec.weaken (Spec.assume (P := fun s : Env × Storage => s.2.Spelt bytes) fun material => ?_)
        fun _ held => ⟨held.1, held.2 m rfl⟩
      refine (spells_replayRows rest (i + 1) (keys ++ [m])).conseq (fun _ held => held)
        (fun r _ done => ⟨done.1, fun none => ?_⟩) fun _ failed => failed
      rw [done.2 none, material, List.map_cons, List.append_assoc, List.singleton_append]

/-- Handing out replayed keys from rows as the book has them: the keys' ids have no repeat, each
comes from the row at its slot with the book's bytes of the row's spans, and the rows left are
apart from every slot taken. -/
theorem spells_retrieve_replay (ksid : Ksid) (keys : List KeyId) :
    Spec (fun s => s.2.data.Carries R L ∧ s.2.Spelt bytes) (retrieve ksid keys true)
      (fun ms s => keys.Nodup ∧ ∃ rows, List.Forall₂ (fun i r => (r.ksid, r.keyId) = (ksid, i) ∧ R r) keys rows ∧
        ms = rows.map (spell bytes ·.spans) ∧
        s.2.data.Carries (fun r => R r ∧ (r.ksid = ksid → r.keyId ∉ keys)) L ∧ s.2.Spelt bytes)
      (fun s => s.2.data.Carries R L ∧ s.2.Spelt bytes) := by
  unfold retrieve
  cases repeated : firstRepeat keys [] with
  | some k => exact Spec.bind (Spec.throw fun _ held => held) fun _ => Spec.of_false
  | none =>
  have distinct := (nodup_of_firstRepeat keys [] repeated).1
  simp only [↓reduceIte]
  refine Spec.bind ((spells_takeRows ksid keys .nil).weaken fun _ held =>
    ⟨held.1.mono (fun _ _ ok => ⟨ok, fun _ none => (by cases none)⟩) fun _ _ ok => ok, held.2⟩) fun rows => ?_
  rw [List.nil_append]
  refine Spec.weaken (Spec.assume (P := fun s : Env × Storage =>
    s.2.data.Carries (fun r => R r ∧ (r.ksid = ksid → r.keyId ∉ keys)) L ∧ s.2.Spelt bytes) fun pairs => ?_) fun _ held => held
  have held : ∀ r ∈ rows, R r := forall₂_right (fun _ _ held => held.2) pairs
  refine Spec.bind (((spells_replayRows rows 0 []).keeping (keeps_sameKeys_replayRows rows 0 [])
    fun _ _ carries same => carries.sameKeys same).conseq (fun _ start => ⟨start.2, start.1⟩) (fun _ _ done => done)
      fun _ failed => ⟨failed.2.mono (fun _ _ ok => ok.1) fun _ _ ok => ok, failed.1⟩) fun result => ?_
  obtain ⟨materials, failed⟩ := result
  cases failed with
  | some lost =>
    obtain ⟨i, f⟩ := lost
    -- the rows stored again are those taken, less the one whose bytes are lost
    have finish : ∀ kept : List KeyRow, Spec (fun s : Env × Storage => (s.2.data.Carries R L ∧ s.2.Spelt bytes) ∧
        ∀ r ∈ kept, R r) (do restoreRows kept; throw f : EngineM (List Material))
          (fun ms s => keys.Nodup ∧ ∃ rows, List.Forall₂ (fun i r => (r.ksid, r.keyId) = (ksid, i) ∧ R r) keys rows ∧
            ms = rows.map (spell bytes ·.spans) ∧
            s.2.data.Carries (fun r => R r ∧ (r.ksid = ksid → r.keyId ∉ keys)) L ∧ s.2.Spelt bytes)
          (fun s => s.2.data.Carries R L ∧ s.2.Spelt bytes) :=
      fun kept => Spec.assume fun held' => Spec.bind (spells_restoreRows held') fun _ => Spec.throw fun _ done => done
    have erased : ∀ r ∈ rows.eraseIdx i, R r := fun r member => held r (List.mem_of_mem_eraseIdx member)
    refine Spec.weaken (P := fun s => s.2.data.Carries R L ∧ s.2.Spelt bytes) ?_ fun _ start =>
      ⟨start.2.mono (fun _ _ ok => ok.1) fun _ _ ok => ok, start.1.1⟩
    dsimp only
    split
    · split
      · exact Spec.bind (spells_of_keeps (keeps_records (Keeps.attempt Storage.kept_chains (Pool.keeps_releaseRange _)))
          (carrying_records (Keeps.attempt Storage.carrying_chains
            (Storage.carrying_of_sameKeys (Pool.keeps_sameKeys_releaseRange _))))) fun _ =>
              Spec.bind (Spec.pure fun _ start => ⟨start, erased⟩) finish
      · exact Spec.bind (Spec.pure fun _ start => ⟨start, erased⟩) finish
    · exact Spec.bind (Spec.pure fun _ start => ⟨start, held⟩) finish
  | none =>
    refine Spec.weaken (Spec.assume (P := fun s : Env × Storage =>
      s.2.data.Carries (fun r => R r ∧ (r.ksid = ksid → r.keyId ∉ keys)) L ∧ s.2.Spelt bytes) fun replayed => ?_)
        fun _ start => ⟨⟨start.2, start.1.1⟩, start.1.2 rfl⟩
    refine Spec.bind ((spells_of_keeps (keeps_records (Pool.keeps_releaseRange _)) (carrying_releaseRange _)).conseq
      (fun _ start => start) (fun _ _ done => done) fun _ failed =>
        ⟨failed.1.mono (fun _ _ ok => ok.1) fun _ _ ok => ok, failed.2⟩) fun _ => ?_
    exact Spec.pure fun _ start => ⟨distinct, rows, pairs, by simpa using replayed, start⟩

/-- Taking the clear keys of `keys` after those of `done`: each comes from the slot of its id,
and the clear keys left are apart from every slot taken; a missing one puts back those taken. -/
theorem spells_takeLocals (ksid : Ksid) : ∀ (keys : List KeyId) {done : List KeyId} {taken : List LocalKey},
    List.Forall₂ (fun i l => (l.ksid, l.keyId) = (ksid, i) ∧ L l) done taken →
    Spec (fun s => s.2.data.Carries R (fun l => L l ∧ (l.ksid = ksid → l.keyId ∉ done)) ∧ s.2.Spelt bytes)
      (takeLocals ksid keys taken)
      (fun locals s => (s.2.data.Carries R (fun l => L l ∧ (l.ksid = ksid → l.keyId ∉ done ++ keys)) ∧ s.2.Spelt bytes) ∧
        List.Forall₂ (fun i l => (l.ksid, l.keyId) = (ksid, i) ∧ L l) (done ++ keys) locals)
      (fun s => s.2.data.Carries R L ∧ s.2.Spelt bytes)
  | [], done, taken, pairs => Spec.pure fun _ held => ⟨by simpa using held, by simpa using pairs⟩
  | k :: rest, done, taken, pairs => by
    unfold takeLocals
    have back : ∀ l ∈ taken, L l := forall₂_right (fun _ _ held => held.2) pairs
    refine Spec.bind (Q := fun key s => (s.2.data.Carries R (fun l => L l ∧ (l.ksid = ksid → l.keyId ∉ done ++ [k])) ∧
        s.2.Spelt bytes) ∧ ((key.ksid, key.keyId) = (ksid, k) ∧ L key))
      (spec_onFailure (show Spec _ _ _ fun s : Env × Storage => s.2.data.Carries R L ∧ s.2.Spelt bytes from ?take)
        fun _ => ?restore) fun key => ?_
    case take =>
      refine Spec.bind ((spec_records (Storage.spec_takeLocalKey_apart
        (L := fun l => L l ∧ (l.ksid = ksid → l.keyId ∉ done)) ksid (some k))).conseq (fun _ start => start)
          (fun _ _ done => done) fun _ failed => ⟨failed.1.mono (fun _ _ kept => kept) fun _ _ kept => kept.1, failed.2⟩)
        fun found => ?_
      cases found with
      | none => exact Spec.throw fun _ held => ⟨held.1.1.mono (fun _ _ kept => kept) fun _ _ kept => kept.1, held.2⟩
      | some key =>
        refine Spec.pure fun _ held => ?_
        obtain ⟨own, named, ok, apart⟩ := held.1.2 key rfl
        refine ⟨⟨apart.mono (fun _ _ kept => kept) fun l _ kept => ⟨kept.1.1, fun same listed => ?_⟩, held.2⟩,
          by rw [own, named k rfl], ok.1⟩
        rcases List.mem_append.mp listed with old | new
        · exact kept.1.2 same old
        · exact kept.2 (Prod.ext (same.trans own.symm) ((List.mem_singleton.mp new).trans (named k rfl).symm))
    case restore =>
      split
      · exact Spec.pure fun _ held => held
      · exact spells_of_keeps (keeps_records (Keeps.attempt Storage.kept_chains (Storage.keeps_storeLocalKeys taken)))
          (carrying_records (Keeps.attempt Storage.carrying_chains (Storage.carrying_storeLocalKeys back)))
    refine Spec.weaken (Spec.assume fun found => ?_) fun _ held => held
    have later := spells_takeLocals ksid rest (List.rel_append pairs (List.Forall₂.cons found .nil))
    rw [List.append_assoc, List.singleton_append] at later
    exact later

/-- Handing out clear keys as the book has them: the keys' ids have no repeat, each comes from
the clear key at its slot, and the clear keys left are apart from every slot taken. -/
theorem spells_retrieve_clear (ksid : Ksid) (keys : List KeyId) :
    Spec (fun s => s.2.data.Carries R L ∧ s.2.Spelt bytes) (retrieve ksid keys false)
      (fun ms s => keys.Nodup ∧ ∃ locals, List.Forall₂ (fun i l => (l.ksid, l.keyId) = (ksid, i) ∧ L l) keys locals ∧
        ms = locals.map (·.material) ∧
        s.2.data.Carries R (fun l => L l ∧ (l.ksid = ksid → l.keyId ∉ keys)) ∧ s.2.Spelt bytes)
      (fun s => s.2.data.Carries R L ∧ s.2.Spelt bytes) := by
  unfold retrieve
  cases repeated : firstRepeat keys [] with
  | some k => exact Spec.bind (Spec.throw fun _ held => held) fun _ => Spec.of_false
  | none =>
  have distinct := (nodup_of_firstRepeat keys [] repeated).1
  simp only [Bool.false_eq_true, ↓reduceIte]
  refine Spec.bind ((spells_takeLocals ksid keys .nil).weaken fun _ held =>
    ⟨held.1.mono (fun _ _ ok => ok) fun _ _ ok => ⟨ok, fun _ none => (by cases none)⟩, held.2⟩) fun locals => ?_
  exact Spec.pure fun _ held => ⟨distinct, locals, by simpa using held.2, rfl, by simpa using held.1⟩

/-- A prefetched key handed on is one of the session's clear keys, and the clear keys left are
apart from its slot. -/
theorem spells_takePrefetched (ksid : Ksid) (sizeBits : Nat) :
    Spec (fun s => s.2.data.Carries R L ∧ s.2.Spelt bytes) (takePrefetched ksid sizeBits)
      (fun l s => (s.2.data.Carries R L ∧ s.2.Spelt bytes) ∧ ∀ l', l = some l' → l'.ksid = ksid ∧ L l' ∧
        s.2.data.Carries R fun l'' => L l'' ∧ (l''.ksid, l''.keyId) ≠ (l'.ksid, l'.keyId))
      (fun s => s.2.data.Carries R L ∧ s.2.Spelt bytes) := by
  unfold takePrefetched
  refine Spec.bind (spec_records (Storage.spec_takeLocalKey_apart ksid none)) fun key => ?_
  cases key with
  | none => exact Spec.pure fun _ held => ⟨⟨held.1.1, held.2⟩, fun _ none => (by cases none)⟩
  | some key =>
    refine Spec.weaken (P := fun s => (s.2.data.Carries R L ∧ s.2.Spelt bytes) ∧ (key.ksid = ksid ∧ L key ∧
      s.2.data.Carries R fun l'' => L l'' ∧ (l''.ksid, l''.keyId) ≠ (key.ksid, key.keyId))) ?_ fun _ held =>
        ⟨⟨held.1.1, held.2⟩, (held.1.2 key rfl).1, (held.1.2 key rfl).2.2.1, (held.1.2 key rfl).2.2.2⟩
    dsimp only
    split
    · exact Spec.pure fun _ held => ⟨held.1, fun _ same => by cases same; exact held.2⟩
    · refine Spec.weaken (Spec.assume fun taken => ?_) fun _ held => ⟨held.1, held.2.2.1⟩
      exact Spec.bind (spells_of_keeps (keeps_records (Storage.keeps_storeLocalKeys [key]))
        (carrying_records (Storage.carrying_storeLocalKeys fun l member => by
          rw [List.mem_singleton.mp member]; exact taken))) fun _ =>
        Spec.pure fun _ held => ⟨held, fun _ none => (by cases none)⟩

end Engine

end KeyRelay
