import KeyRelay.Engine
import KeyRelay.Proofs.Pool

/-! Key generation on records without fault injection. A generation either fails and leaves
every cursor where it was, or cuts its keys one after the other from the link's blocks: the
spans it reports consumed are exactly those cut, and each key has the size asked for. Undoing a
batch gives its spans back; following a companion's consumption either refuses and changes
nothing, or moves the cursors of the link's blocks; every other operation of the engine keeps
the blocks, less those it sweeps. -/

namespace KeyRelay

namespace Engine

/-- The engine's runs keep the records' blocks: `Storage.Kept` on the records. -/
def Kept (s t : Env × Storage) : Prop := Storage.Kept s.2 t.2

theorem kept_chains : Chains Kept :=
  ⟨fun s => Storage.kept_chains.refl s.2, fun first second => Storage.kept_chains.trans first second⟩

theorem keeps_records {α : Type} {m : StoreM α} (inner : Keeps Storage.Kept m) : Keeps Kept (records m) := by
  intro s
  have started := inner s.2
  unfold records EStateM.focus
  cases run : m s.2 <;> rw [run] at started <;> exact started

variable {α : Type}

theorem records_ok {m : StoreM α} {st st' : Storage} {a : α} (e : Env) (h : m st = .ok a st') :
    records m (e, st) = .ok a (e, st') := run_focus_ok h

theorem records_error {m : StoreM α} {st st' : Storage} {f : Fault} (e : Env) (h : m st = .error f st') :
    records m (e, st) = .error f (e, st') := run_focus_error h

theorem run_onFailure_ok {m : EngineM α} {undo : Fault → EngineM Unit} {s t : Env × Storage} {a : α}
    (h : m s = .ok a t) : onFailure m undo s = .ok a t := run_tryCatch_ok h

theorem run_onFailure_error {m : EngineM α} {undo : Fault → EngineM Unit} {s t : Env × Storage} {f : Fault}
    (h : m s = .error f t) : onFailure m undo s = (undo f >>= fun _ => throw f) t := run_tryCatch_error h

/-- Giving back spans cut one after the other restores their cursors. -/
theorem rollback_run {ℓ : LinkId} {v : BlockId → Option Block} {C : List Span} {st : Storage}
    (carves : Carves ℓ v C st.data.bare) (steady : st.Steady) (release : Bool) (e : Env) :
    ∃ st', rollback C release (e, st) = .ok () (e, st') ∧ st'.Steady ∧ st'.data.bare = v := by
  obtain ⟨st', run, steady', view⟩ := Pool.undo_spec carves release st steady rfl
  refine ⟨st', ?_, steady', view⟩
  unfold rollback Pool.rollback
  rw [records_ok e (by rw [run_attempt, run])]
  rfl

/-- Cutting keys one after the other: a failure gives back every span cut so far, so the cursors
are those the generation started from; otherwise each new key has `size` bytes and the spans
cut so far are exactly those of the keys. -/
theorem cutKeys_spec (pool : Pool) (ℓ : LinkId) (size now : Nat) (v : BlockId → Option Block) :
    ∀ (k : Nat) (carved : List Span) (keys : List Issued) (e : Env) (st : Storage), st.Steady →
    Carves ℓ v carved st.data.bare → carved = keys.flatMap (·.spans) →
    (∀ key ∈ keys, key.material.len = size) →
    (∃ f e' st', cutKeys pool ℓ size now k carved keys (e, st) = .error f (e', st') ∧ st'.Steady ∧
      st'.data.bare = v) ∨
    ∃ keys' e' st', cutKeys pool ℓ size now k carved keys (e, st) =
        .ok (keys'.flatMap (·.spans), keys') (e', st') ∧ st'.Steady ∧
      Carves ℓ v (keys'.flatMap (·.spans)) st'.data.bare ∧ keys'.length = keys.length + k ∧
      ∀ key ∈ keys', key.material.len = size
  | 0, carved, keys, e, st, steady, carves, spans, sized =>
    .inr ⟨keys, e, st, by rw [spans]; rfl, steady, spans ▸ carves, rfl, sized⟩
  | k + 1, carved, keys, e, st, steady, carves, spans, sized => by
    simp only [cutKeys]
    rcases Pool.reserve_spec pool ℓ size now steady with ⟨f, refused⟩ | ⟨C, st1, reserved, steady1, cut, total⟩
    · -- nothing was cut for this key: the earlier keys are given back
      obtain ⟨st', back, steady', view⟩ := rollback_run carves steady true e
      have failed : onFailure (records (pool.reserve ℓ size now)) (fun _ => rollback carved true) (e, st) =
          .error f (e, st') := by
        rw [run_onFailure_error (records_error e refused), run_bind_ok back]
        rfl
      exact .inl ⟨f, e, st', by rw [run_bind_error failed], steady', view⟩
    have carves1 : Carves ℓ v (carved ++ C) st1.data.bare := carves.append cut
    obtain ⟨m, read, length⟩ := Pool.read_spec steady1 C fun s member => cut.readable member
    rw [run_bind_ok (run_onFailure_ok (records_ok e reserved)), run_bind_ok (run_onFailure_ok (records_ok e read))]
    rw [run_bind_ok (show draw (e, st1) = .ok e.draw.1 (e.draw.2, st1) from rfl)]
    have spans1 : carved ++ C = (keys ++ [(⟨e.draw.1, C, m⟩ : Issued)]).flatMap (·.spans) := by simp [spans]
    have sized1 : ∀ key ∈ keys ++ [(⟨e.draw.1, C, m⟩ : Issued)], key.material.len = size := by
      intro key member
      rcases List.mem_append.mp member with old | new
      · exact sized key old
      · rw [List.mem_singleton.mp new, length, total]
    rcases cutKeys_spec pool ℓ size now v k (carved ++ C) (keys ++ [(⟨e.draw.1, C, m⟩ : Issued)]) e.draw.2 st1
      steady1 carves1 spans1 sized1 with failed | ⟨keys', e', st', run, steady', carves', count, sized'⟩
    · exact .inl failed
    · refine .inr ⟨keys', e', st', run, steady', carves', ?_, sized'⟩
      simp only [count, List.length_append, List.length_singleton]
      omega

/-- Dropping the references of cut spans one by one always succeeds and moves no cursor. -/
theorem releaseEach_spec (carved : List Span) : ∀ (released : Nat) (rest : List Span) (e : Env)
    (st : Storage), st.Steady →
    ∃ st', releaseEach carved released rest (e, st) = .ok () (e, st') ∧ st'.Steady ∧
      st'.data.bare = st.data.bare
  | _, [], e, st, steady => ⟨st, rfl, steady, rfl⟩
  | released, s :: rest, e, st, steady => by
    obtain ⟨st1, dropped, steady1, view1⟩ := Pool.releaseRange_spec steady [s]
    obtain ⟨st', run, steady', view'⟩ := releaseEach_spec carved (released + 1) rest e st1 steady1
    refine ⟨st', ?_, steady', view'.trans view1⟩
    simp only [releaseEach]
    rw [run_bind_ok (run_onFailure_ok (records_ok e dropped))]
    exact run

/-- A write that leaves blocks and index alone succeeds and keeps the records steady. -/
theorem write_run {β : Type} {st : Storage} (steady : st.Steady) (operation : String) (f : Store → β × Store)
    (blocks : (f st.data).2.blocks = st.data.blocks) (chain : (f st.data).2.chain = st.data.chain) :
    ∃ st', Storage.write operation f st = .ok (f st.data).1 st' ∧ st'.Steady ∧ st'.data.bare = st.data.bare := by
  have kept := Store.Kept.of_blocks blocks chain
  refine ⟨_, Storage.write_steady steady.calm operation f, ⟨steady.calm, kept.indexed steady.indexed⟩, ?_⟩
  funext X
  simp [Store.bare, blocks]

theorem storeLocalKeys_run {st : Storage} (steady : st.Steady) (keys : List LocalKey) :
    ∃ st', Storage.storeLocalKeys keys st = .ok () st' ∧ st'.Steady ∧ st'.data.bare = st.data.bare :=
  write_run steady _ _ rfl rfl

/-- A generation either fails and leaves every cursor where it was, or cuts `count` keys of
`sizeBits / 8` bytes each from the link's blocks, reporting as consumed exactly the spans cut. -/
theorem generate_spec (pool : Pool) (ksid : Ksid) (ℓ : LinkId) (sizeBits count keepLocal : Nat) (e : Env)
    {st : Storage} (steady : st.Steady) :
    (∃ f e' st', generate pool ksid ℓ sizeBits count keepLocal (e, st) = .error f (e', st') ∧
      st'.Steady ∧ st'.data.bare = st.data.bare) ∨
    ∃ batch e' st', generate pool ksid ℓ sizeBits count keepLocal (e, st) = .ok batch (e', st') ∧
      st'.Steady ∧ batch.link = ℓ ∧ Carves ℓ st.data.bare batch.consumed st'.data.bare ∧
      (∀ key ∈ batch.keys, key.material.len = sizeBits / 8) ∧ batch.issued.length = count - keepLocal := by
  unfold generate
  by_cases bad : sizeBits = 0 ∨ sizeBits % 8 ≠ 0
  · exact .inl ⟨_, e, st, by rw [if_pos bad]; rfl, steady, rfl⟩
  rw [if_neg bad]
  dsimp only
  rw [run_bind_ok (show wallSecs (e, st) = .ok e.wallSecs (e, st) from rfl)]
  rcases cutKeys_spec pool ℓ (sizeBits / 8) e.wallSecs st.data.bare count [] [] e st steady .nil rfl (by simp)
    with ⟨f, e', st', failed, steady', view⟩ | ⟨keys, e', st1, cut, steady1, carves, count', sized⟩
  · exact .inl ⟨f, e', st', by rw [run_bind_error failed], steady', view⟩
  rw [run_bind_ok cut]
  dsimp only
  obtain ⟨st2, released, steady2, view2⟩ := releaseEach_spec (keys.flatMap (·.spans)) 0 _ e' st1 steady1
  rw [run_bind_ok released]
  have consumed : (⟨ℓ, keys.take (count - keepLocal), keys.drop (count - keepLocal)⟩ : Batch).consumed =
      keys.flatMap (·.spans) := by
    simp only [Batch.consumed, Batch.keys, List.take_append_drop]
  have sized' : ∀ key ∈ (⟨ℓ, keys.take (count - keepLocal), keys.drop (count - keepLocal)⟩ : Batch).keys,
      key.material.len = sizeBits / 8 := by
    intro key member
    simp only [Batch.keys, List.take_append_drop] at member
    exact sized key member
  have issued : (keys.take (count - keepLocal)).length = count - keepLocal := by
    simp only [List.length_take, count', List.length_nil, Nat.zero_add]
    omega
  -- the keys kept in the clear are stored, which touches no block
  split
  · obtain ⟨st3, stored, steady3, view3⟩ := storeLocalKeys_run steady2
      ((keys.drop (count - keepLocal)).map fun k => (⟨ksid, k.keyId, k.material, e.wallSecs⟩ : LocalKey))
    rw [run_bind_ok (run_onFailure_ok (records_ok e' stored))]
    exact .inr ⟨_, e', st3, rfl, steady3, rfl, by rw [consumed, view3, view2]; exact carves, sized', issued⟩
  · exact .inr ⟨_, e', st2, rfl, steady2, rfl, by rw [consumed, view2]; exact carves, sized', issued⟩

theorem takeLocalKey_run {st : Storage} (steady : st.Steady) (ksid : Ksid) (key : Option KeyId) :
    ∃ st', Storage.takeLocalKey ksid key st = .ok (st.data.takeLocal ksid key).1 st' ∧ st'.Steady ∧
      st'.data.bare = st.data.bare := by
  refine write_run steady _ _ ?_ ?_ <;>
  · unfold Store.takeLocal
    cases key with
    | some k => rfl
    | none =>
      dsimp only
      split <;> rfl

/-- Dropping clear keys always succeeds and touches no block. -/
theorem discard_run (ksid : Ksid) (e : Env) : ∀ (keys : List KeyId) (st : Storage), st.Steady →
    ∃ st', discard ksid keys (e, st) = .ok () (e, st') ∧ st'.Steady ∧ st'.data.bare = st.data.bare
  | [], st, steady => ⟨st, rfl, steady, rfl⟩
  | k :: rest, st, steady => by
    obtain ⟨st1, taken, steady1, view1⟩ := takeLocalKey_run steady ksid (some k)
    obtain ⟨st', run, steady', view'⟩ := discard_run ksid e rest st1 steady1
    refine ⟨st', ?_, steady', view'.trans view1⟩
    unfold discard
    rw [run_forM_cons, bind_assoc, run_bind_ok (records_ok e taken)]
    exact run

/-- Undoing a batch just generated gives its spans back. -/
theorem undoBatch_run {ℓ : LinkId} {v : BlockId → Option Block} (ksid : Ksid) (b : Batch) (e : Env)
    {st : Storage} (steady : st.Steady) (carves : Carves ℓ v b.consumed st.data.bare) :
    ∃ st', undoBatch ksid b (e, st) = .ok () (e, st') ∧ st'.Steady ∧ st'.data.bare = v := by
  obtain ⟨st1, dropped, steady1, view1⟩ := discard_run ksid e b.storedIds st steady
  obtain ⟨st', undone, steady', view'⟩ := Pool.undo_spec carves false st1 steady1 view1
  exact ⟨st', by unfold undoBatch; rw [run_bind_ok dropped, records_ok e undone], steady', view'⟩

theorem storeKeyRows_run {st : Storage} (steady : st.Steady) (rows : List KeyRow) :
    ∃ st', Storage.storeKeyRows rows st = .ok () st' ∧ st'.Steady ∧ st'.data.bare = st.data.bare :=
  write_run steady _ _ rfl rfl

/-- Following a companion's consumption either refuses, changing nothing, or finds every named
resident block on the link and moves each cursor to the furthest end consumed on it. -/
theorem applySync_spec (ℓ : LinkId) (rows : List KeyRow) (consumed : List Span) (e : Env) {st : Storage}
    (steady : st.Steady) :
    (∃ f, applySync ℓ rows consumed (e, st) = .error f (e, st)) ∨
    ∃ st', applySync ℓ rows consumed (e, st) = .ok () (e, st') ∧ st'.Steady ∧
      (∀ s ∈ consumed, ∀ b, st.data.blocks.get? s.block = some b → b.link = ℓ) ∧
      st'.data.bare = fun X => (st.data.bare X).map fun b =>
        { b with offset := ackReach consumed X b.bytes.length b.offset } := by
  unfold applySync
  cases checked : checkRows ℓ rows consumed with
  | error f => exact .inl ⟨f, by rw [run_bind_error (run_ofExcept_error f _)]⟩
  | ok u =>
    rw [run_bind_ok (run_ofExcept_ok u _)]
    rcases Pool.acknowledge_spec ℓ consumed (rows.flatMap (·.spans)) steady with
      ⟨f, refused⟩ | ⟨st1, acked, steady1, onLink, view1⟩
    · exact .inl ⟨f, by rw [run_bind_error (records_error e refused)]⟩
    obtain ⟨st2, stored, steady2, view2⟩ := storeKeyRows_run steady1 rows
    refine .inr ⟨st2, ?_, steady2, onLink, view2.trans view1⟩
    rw [run_bind_ok (records_ok e acked), run_onFailure_ok (records_ok e stored)]

/-! ### What keeps the blocks -/

theorem keeps_onFailure {m : EngineM α} {undo : Fault → EngineM Unit} (first : Keeps Kept m)
    (recover : ∀ f, Keeps Kept (undo f)) : Keeps Kept (onFailure m undo) :=
  Keeps.tryCatch kept_chains first fun f =>
    Keeps.bind kept_chains (recover f) fun _ => Keeps.throw kept_chains _

theorem keeps_wallSecs : Keeps Kept wallSecs := fun s => kept_chains.refl s

theorem keeps_restoreRows (rows : List KeyRow) : Keeps Kept (restoreRows rows) := by
  unfold restoreRows
  split
  · exact Keeps.pure kept_chains _
  · exact keeps_records (Keeps.attempt Storage.kept_chains (Storage.keeps_storeKeyRows rows))

theorem keeps_afterFailedReplay (row : KeyRow) (f : Fault) : Keeps Kept (afterFailedReplay row f) := by
  unfold afterFailedReplay
  split
  · exact keeps_records (Keeps.attempt Storage.kept_chains (Pool.keeps_releaseRange _))
  · exact keeps_restoreRows _

theorem keeps_reconstruct (ksid : Ksid) (key : KeyId) : Keeps Kept (reconstruct ksid key) := by
  unfold reconstruct
  refine Keeps.bind kept_chains (keeps_records (Storage.keeps_takeKeyRow ksid key)) fun row => ?_
  cases row with
  | none => exact Keeps.throw kept_chains _
  | some row =>
    exact Keeps.bind kept_chains (keeps_onFailure (keeps_records (Pool.keeps_read _))
      (keeps_afterFailedReplay row)) fun _ => Keeps.bind kept_chains
        (keeps_records (Pool.keeps_releaseRange _)) fun _ => Keeps.pure kept_chains _

theorem keeps_takeRows (ksid : Ksid) : ∀ (keys : List KeyId) (taken : List KeyRow),
    Keeps Kept (takeRows ksid keys taken)
  | [], _ => Keeps.pure kept_chains _
  | k :: rest, taken => by
    unfold takeRows
    refine Keeps.bind kept_chains (keeps_onFailure ?_ fun _ => keeps_restoreRows taken)
      fun _ => keeps_takeRows ksid rest _
    refine Keeps.bind kept_chains (keeps_records (Storage.keeps_takeKeyRow ksid k)) fun row => ?_
    cases row with
    | none => exact Keeps.throw kept_chains _
    | some row => exact Keeps.pure kept_chains _

theorem keeps_replayRows : ∀ (rows : List KeyRow) (i : Nat) (keys : List Material),
    Keeps Kept (replayRows rows i keys)
  | [], _, _ => Keeps.pure kept_chains _
  | row :: rest, i, keys => by
    unfold replayRows
    refine Keeps.bind kept_chains (Keeps.tryCatch kept_chains (Keeps.bind kept_chains
      (keeps_records (Pool.keeps_read _)) fun _ => Keeps.pure kept_chains _)
        fun _ => Keeps.pure kept_chains _) fun r => ?_
    cases r with
    | error f => exact Keeps.pure kept_chains _
    | ok m => exact keeps_replayRows rest _ _

theorem keeps_takeLocals (ksid : Ksid) : ∀ (keys : List KeyId) (taken : List LocalKey),
    Keeps Kept (takeLocals ksid keys taken)
  | [], _ => Keeps.pure kept_chains _
  | k :: rest, taken => by
    unfold takeLocals
    refine Keeps.bind kept_chains (keeps_onFailure ?_ fun _ => ?_) fun _ => keeps_takeLocals ksid rest _
    · refine Keeps.bind kept_chains (keeps_records (Storage.keeps_takeLocalKey ksid (some k))) fun key => ?_
      cases key with
      | none => exact Keeps.throw kept_chains _
      | some key => exact Keeps.pure kept_chains _
    · split
      · exact Keeps.pure kept_chains _
      · exact keeps_records (Keeps.attempt Storage.kept_chains (Storage.keeps_storeLocalKeys taken))

theorem keeps_retrieve (ksid : Ksid) (keys : List KeyId) (replay : Bool) :
    Keeps Kept (retrieve ksid keys replay) := by
  unfold retrieve
  dsimp only
  split
  · exact Keeps.throw_bind kept_chains _ _
  split
  · refine Keeps.bind kept_chains (keeps_takeRows ksid keys []) fun rows => ?_
    refine Keeps.bind kept_chains (keeps_replayRows rows 0 []) fun result => ?_
    obtain ⟨materials, failed⟩ := result
    dsimp only
    cases failed with
    | some lost =>
      obtain ⟨i, f⟩ := lost
      dsimp only
      -- whichever rows stay, they are stored again and the failure is passed on
      have finish : ∀ rows : List KeyRow, Keeps Kept (do restoreRows rows; throw f : EngineM (List Material)) :=
        fun rows => Keeps.bind kept_chains (keeps_restoreRows rows) fun _ => Keeps.throw kept_chains _
      split
      · split
        · exact Keeps.bind kept_chains (keeps_records (Keeps.attempt Storage.kept_chains
            (Pool.keeps_releaseRange _))) fun _ => Keeps.bind kept_chains (Keeps.pure kept_chains _) finish
        · exact Keeps.bind kept_chains (Keeps.pure kept_chains _) finish
      · exact Keeps.bind kept_chains (Keeps.pure kept_chains _) finish
    | none =>
      exact Keeps.bind kept_chains (keeps_records (Pool.keeps_releaseRange _)) fun _ => Keeps.pure kept_chains _
  · exact Keeps.bind kept_chains (keeps_takeLocals ksid keys []) fun _ => Keeps.pure kept_chains _

theorem keeps_purgeSession (ksid : Ksid) : Keeps Kept (purgeSession ksid) :=
  Keeps.bind kept_chains (keeps_records (Storage.keeps_purgeLocalKeys ksid)) fun _ =>
    Keeps.bind kept_chains (keeps_records (Storage.keeps_takeSessionRows ksid)) fun _ =>
      keeps_records (Pool.keeps_releaseRange _)

theorem keeps_storeLocal (ksid : Ksid) (keys : List (KeyId × Material)) : Keeps Kept (storeLocal ksid keys) :=
  Keeps.bind kept_chains keeps_wallSecs fun _ => keeps_records (Storage.keeps_storeLocalKeys _)

theorem keeps_sessionKeyCount (ksid : Ksid) : Keeps Kept (sessionKeyCount ksid) :=
  keeps_records (Storage.keeps_countSessionKeys ksid)

theorem keeps_sweep (pool : Pool) : Keeps Kept (sweep pool) :=
  Keeps.bind kept_chains keeps_wallSecs fun now => keeps_records (Pool.keeps_sweep pool now)

theorem keeps_available (pool : Pool) (ℓ : LinkId) : Keeps Kept (available pool ℓ) :=
  Keeps.bind kept_chains keeps_wallSecs fun now => keeps_records (Pool.keeps_available pool ℓ now)

end Engine

end KeyRelay
