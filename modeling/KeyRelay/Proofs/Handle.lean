import KeyRelay.Proofs.Node

/-! What each request does to a node's blocks. A request for keys, a relayed key, a session's
opening, assignment, status or close leaves `Kme.Carved`: blocks only dropped, or dropped and then
spans cut from one link whose companion the plan asks to follow them. A key handed out relayed
is masked with material of its own length, so the masking that follows a cut never fails. -/

namespace KeyRelay

namespace Kme

section Handlers

variable {k₀ : Kme} {E : Env × Kme → Prop}

/-- Masking a key with material of its own length succeeds. -/
theorem Relay.wrap_ok {key otk : Material} (same : key.len = otk.len) :
    ∃ cipher, Relay.wrap key otk = .ok cipher := by
  have masked : key.xor otk = .ok ⟨List.zipWith (· ^^^ ·) key.bytes otk.bytes⟩ := by
    simp [Material.xor, same]
  unfold Relay.wrap
  rw [masked]
  exact ⟨_, rfl⟩

/-- A key recovered from its masked transmission has the announced number of bits. -/
theorem Relay.unwrap_len {cipher : String} {otk key : Material} {size : Nat}
    (recovered : Relay.unwrap cipher otk size = .ok key) : 8 * key.len = size := by
  unfold Relay.unwrap at recovered
  cases decoded : Material.decode cipher with
  | error e =>
    rw [decoded] at recovered
    cases recovered
  | ok c =>
    rw [decoded] at recovered
    simp only [bind, Except.bind] at recovered
    split at recovered
    · cases recovered
    · rename_i bits
      unfold Material.xor at recovered
      split at recovered
      · cases recovered
      · rename_i same
        cases recovered
        simp only [Material.bitLen, ne_eq, Decidable.not_not] at bits same
        simp only [Material.len, List.length_zipWith] at bits same ⊢
        omega

theorem Material.len_of_bitLen {m : Material} {n : Nat} (bits : m.bitLen = n) : m.len = n / 8 := by
  unfold Material.bitLen at bits
  omega

/-- A map that succeeds on each element succeeds on the list. -/
theorem mapM_ok {α β ε : Type} (f : α → Except ε β) (R : β → Prop) :
    ∀ (xs : List α), (∀ x ∈ xs, ∃ b, f x = .ok b ∧ R b) → ∃ ys, xs.mapM f = .ok ys ∧ ∀ y ∈ ys, R y
  | [], _ => ⟨[], rfl, by simp⟩
  | x :: rest, each => by
    obtain ⟨b, first, holds⟩ := each x List.mem_cons_self
    obtain ⟨ys, others, hold⟩ := mapM_ok f R rest fun y member => each y (List.mem_cons_of_mem _ member)
    refine ⟨b :: ys, ?_, ?_⟩
    · rw [List.mapM_cons, first, others]
      rfl
    · intro y member
      rcases List.mem_cons.mp member with rfl | later
      · exact holds
      · exact hold y later

theorem triple_current_shrunk :
    Triple (fun s => Shrunk k₀ s.2) current (fun k s => Shrunk k₀ s.2 ∧ Shrunk k₀ k) E :=
  fun _ start => ⟨start, start⟩

theorem partners_eq {k k' : Kme} (links : k'.links = k.links) : k'.partners = k.partners := by
  unfold partners
  rw [links]

/-- A failure that cannot happen: the value is there. -/
theorem triple_lift_ok {α : Type} {P : Env × Kme → Prop} {r : Except Fault α} (R : α → Prop)
    (ok : ∃ a, r = .ok a ∧ R a) : Triple P (lift r) (fun a s => P s ∧ R a) E := by
  obtain ⟨a, rfl, holds⟩ := ok
  exact Triple.pure a fun _ start => ⟨start, holds⟩

theorem triple_lift_yields {α : Type} {P : Env × Kme → Prop} (r : Except Fault α) (R : α → Prop)
    (holds : ∀ a, r = .ok a → R a) : Triple P (lift r) (fun a s => P s ∧ R a) P := by
  unfold lift
  cases r with
  | error f => exact Triple.throw _ fun _ start => start
  | ok a => exact Triple.pure a fun _ start => ⟨start, holds a rfl⟩

/-- Keys for two applications on one node come from a confirmed link, whose companion follows
the consumption. -/
theorem triple_localKeys (r : SessionRecord) (number sizeBits : Nat) :
    Triple (fun s => Shrunk k₀ s.2) (localKeys r number sizeBits) (fun p s => Carved k₀ p s.2)
      (fun s => Shrunk k₀ s.2) := by
  unfold localKeys
  refine Triple.bind triple_current_shrunk fun k => Triple.assume fun here => ?_
  dsimp only
  refine Triple.bind (triple_engine (yields_pickLink _ _ _ _)) fun picked => Triple.assume fun offered => ?_
  refine Triple.bind (triple_lift_yields picked _ offered) fun chosen => Triple.assume fun listed => ?_
  obtain ⟨ℓ, c⟩ := chosen
  have confirmed : (ℓ, c) ∈ k₀.partners := by
    rw [← partners_eq here.links]
    exact List.mem_mergeSort.mp listed
  refine Triple.bind ((triple_generate r.ksid ℓ sizeBits number number []).conseq
    (fun _ start => cut_nil.mpr start) (fun _ _ done => done) (fun _ failed => cut_nil.mp failed)) fun batch => ?_
  exact Triple.pure _ fun _ ⟨cut, _⟩ => .inr ⟨c, ℓ, [], batch.consumed, rfl, confirmed, by simpa using cut⟩

/-- Keys over one link come from a link confirmed with the slave's node, which follows the
consumption. -/
theorem triple_directKeys (r : SessionRecord) (companion : KmeId) (number sizeBits : Nat) :
    Triple (fun s => Shrunk k₀ s.2) (directKeys r companion number sizeBits) (fun p s => Carved k₀ p s.2)
      (fun s => Shrunk k₀ s.2) := by
  unfold directKeys
  refine Triple.bind (triple_linkTo companion) fun ℓ => Triple.assume fun confirmed => ?_
  refine Triple.bind ((triple_prefetched r.ksid number sizeBits).conseq (fun _ start => start)
    (fun _ _ done => done.1) (fun _ failed => failed)) fun keys => ?_
  refine Triple.bind (triple_topUp r.ksid ℓ _ sizeBits) fun topped => ?_
  cases topped with
  | none => exact Triple.pure _ fun _ ⟨cut, _⟩ => .inl ⟨rfl, cut_nil.mp cut⟩
  | some batch =>
    refine Triple.bind triple_wallSecs fun now => ?_
    exact Triple.pure _ fun _ ⟨cut, _⟩ => .inr ⟨companion, ℓ, _, batch.consumed, rfl, confirmed, cut⟩

/-- A relayed request for keys cuts application keys and one-time keys from a link confirmed with
the next hop, which follows both; when the one-time keys cannot be cut, the application keys are
given back. -/
theorem triple_relayFirst (r : SessionRecord) (next : KmeId) (number sizeBits : Nat) :
    Triple (fun s => Shrunk k₀ s.2) (relayFirst r next number sizeBits) (fun p s => Carved k₀ p s.2)
      (fun s => Shrunk k₀ s.2) := by
  unfold relayFirst
  refine Triple.bind (triple_linkTo next) fun ℓ => Triple.assume fun confirmed => ?_
  refine Triple.bind (triple_prefetched r.ksid number sizeBits) fun keys => Triple.assume fun kept => ?_
  refine Triple.bind (triple_topUp r.ksid ℓ _ sizeBits) fun appBatch => Triple.assume fun app => ?_
  refine Triple.bind (Triple.tryCatch (triple_generate r.ksid ℓ sizeBits number 0 _) ?undo
    (fun a => Triple.stop a)) fun otks => Triple.assume fun generated => ?_
  case undo =>
    -- when the one-time keys cannot be cut, the application keys go back
    intro f
    cases appBatch with
    | none => exact Triple.throw _ fun _ cut => cut_nil.mp cut
    | some b => exact Triple.bind (triple_undoBatch r.ksid ℓ b) fun _ => Triple.throw _ fun _ done => done
  obtain ⟨-, otk, -⟩ := generated
  dsimp only
  refine Triple.bind triple_wallSecs fun now => ?_
  -- every key handed out has the length of the one-time key that masks it
  have sized : ∀ key ∈ keys ++ (appBatch.map handedOut).getD [], key.2.len = sizeBits / 8 := by
    intro key member
    rcases List.mem_append.mp member with old | new
    · exact Material.len_of_bitLen (kept key old)
    · cases appBatch with
      | none => cases new
      | some b =>
        obtain ⟨i, issued, rfl⟩ := List.mem_map.mp new
        exact (app b rfl).2.1 i (List.mem_append_left _ issued)
  refine Triple.bind (triple_lift_ok (fun forwards => ∀ a ∈ forwards, a.sync? = none) ?masked) fun forwards => ?_
  case masked =>
    refine mapM_ok _ _ _ fun x member => ?_
    obtain ⟨⟨keyId, key⟩, pad⟩ := x
    have ⟨inKeys, inPads⟩ := List.of_mem_zip member
    obtain ⟨cipher, wrapped⟩ := Relay.wrap_ok ((sized _ inKeys).trans (otk pad (List.mem_append_left _ inPads)).symm)
    exact ⟨_, by simp only [wrapped]; rfl, rfl⟩
  refine Triple.pure _ fun _ done => .inr ⟨next, ℓ, otks.rows r.ksid true now, _, ?_, confirmed, done.1⟩
  show (Action.callKme next (.syncKeys ℓ _ _) true :: forwards).filterMap Action.sync? = _
  simp only [List.filterMap_cons, Action.sync?, List.filterMap_eq_nil_iff.mpr done.2]

theorem triple_sessionByApps {P : Env × Kme → Prop} (src dst : AppId) :
    Triple P (sessionByApps src dst) (fun _ => P) P := by
  unfold sessionByApps
  refine Triple.bind triple_current fun k => ?_
  split
  · exact Triple.pure _ fun _ start => start.1
  · exact triple_fail _ fun _ start => start.1

theorem triple_checkCount {P : Env × Kme → Prop} (n : Nat) : Triple P (checkCount n) (fun _ => P) P := by
  unfold checkCount
  refine Triple.bind triple_current fun k => ?_
  dsimp only
  split
  · exact triple_fail _ fun _ start => start.1
  · exact Triple.pure _ fun _ start => start.1

/-- The master's request for keys cuts from one link at most, and its plan asks that link's
companion to follow. -/
theorem triple_encKeys (src dst : AppId) (number : Nat) (size : Option Nat) :
    Triple (fun s => Shrunk k₀ s.2) (encKeys src dst number size) (fun p s => Carved k₀ p s.2)
      (fun s => Shrunk k₀ s.2) := by
  unfold encKeys
  refine Triple.bind (triple_sessionByApps src dst) fun r => ?_
  refine Triple.bind triple_current_shrunk fun k => Triple.assume fun _ => ?_
  dsimp only
  split
  · exact Triple.throw_bind _ fun _ start => start
  refine Triple.bind (triple_checkCount number) fun _ => ?_
  refine Triple.bind (triple_lift _) fun sizeBits => ?_
  refine Triple.bind (triple_lift _) fun role => ?_
  split
  · exact triple_localKeys r number sizeBits
  · exact triple_directKeys r _ number sizeBits
  · exact triple_relayFirst r _ number sizeBits
  · exact triple_fail _ fun _ start => start

/-- The slave's request for keys cuts nothing. -/
theorem triple_decKeys (src dst : AppId) (keys : List KeyId) :
    Triple (fun s => Shrunk k₀ s.2) (decKeys src dst keys) (fun p s => Carved k₀ p s.2)
      (fun s => Shrunk k₀ s.2) := by
  unfold decKeys
  refine Triple.bind (triple_sessionByApps src dst) fun r => ?_
  refine Triple.bind triple_current_shrunk fun k => Triple.assume fun _ => ?_
  dsimp only
  split
  · exact Triple.throw_bind _ fun _ start => start
  refine Triple.bind (triple_checkCount keys.length) fun _ => ?_
  have serve : ∀ replay, Triple (fun s => Shrunk k₀ s.2)
      (engine (Engine.retrieve r.ksid keys replay) >>= fun materials =>
        pure (Plan.answer (.keys (containers (keys.zip materials))))) (fun p s => Carved k₀ p s.2)
      (fun s => Shrunk k₀ s.2) := fun replay =>
    Triple.bind (triple_engine_keeps (Engine.keeps_retrieve _ _ _)) fun _ =>
      Triple.pure _ fun _ start => .inl ⟨rfl, start⟩
  refine Triple.bind (triple_lift _) fun role => ?_
  split
  · exact Triple.bind (Triple.pure _ fun _ start => start) serve
  · exact Triple.bind (Triple.pure _ fun _ start => start) serve
  · exact Triple.bind (Triple.pure _ fun _ start => start) serve
  · exact Triple.throw_bind _ fun _ start => start

theorem triple_closeSession (ksid : Ksid) (origin : Option KmeId) :
    Triple (fun s => Shrunk k₀ s.2) (closeSession ksid origin) (fun p s => Carved k₀ p s.2)
      (fun s => Shrunk k₀ s.2) := by
  unfold closeSession
  refine Triple.bind triple_current_shrunk fun k => Triple.assume fun _ => ?_
  dsimp only
  split
  · refine Triple.bind (triple_change _ fun _ => ⟨rfl, rfl⟩) fun _ => ?_
    refine Triple.bind (triple_records_keeps (Storage.keeps_deleteSession ksid)) fun _ => ?_
    refine Triple.bind (triple_engine_keeps (Engine.keeps_purgeSession ksid)) fun _ => ?_
    refine Triple.pure _ fun _ start => .inl ⟨?_, start⟩
    -- the plan only tells the controller and the neighbours
    apply List.filterMap_eq_nil_iff.mpr
    intro a member
    rcases List.mem_append.mp member with toController | toNeighbours
    · split at toController
      · rw [List.mem_singleton.mp toController]
        rfl
      · cases toController
    · split at toNeighbours
      · obtain ⟨n, _, rfl⟩ := List.mem_map.mp toNeighbours
        rfl
      · cases toNeighbours
  · exact triple_fail _ fun _ start => start

theorem triple_status (src dst : AppId) :
    Triple (fun s => Shrunk k₀ s.2) (status src dst) (fun p s => Carved k₀ p s.2)
      (fun s => Shrunk k₀ s.2) := by
  unfold status
  refine Triple.bind (triple_sessionByApps src dst) fun r => ?_
  refine Triple.bind (triple_engine_keeps (Engine.keeps_sessionKeyCount r.ksid)) fun _ => ?_
  refine Triple.bind triple_current fun _ => ?_
  exact Triple.pure _ fun _ start => .inl ⟨rfl, start.1⟩

theorem triple_openSession (src dst : AppId) (qos : Qos) (master : Bool) :
    Triple (fun s => Shrunk k₀ s.2) (openSession src dst qos master) (fun p s => Carved k₀ p s.2)
      (fun s => Shrunk k₀ s.2) := by
  unfold openSession
  refine Triple.bind triple_current fun _ => ?_
  exact Triple.pure _ fun _ start => .inl ⟨rfl, start.1⟩

theorem triple_assignSession (r : SessionRecord) :
    Triple (fun s => Shrunk k₀ s.2) (assignSession r) (fun p s => Carved k₀ p s.2)
      (fun s => Shrunk k₀ s.2) := by
  unfold assignSession
  refine Triple.bind triple_current_shrunk fun k => Triple.assume fun _ => ?_
  refine Triple.bind (triple_lift _) fun _ => ?_
  refine Triple.bind (triple_records_keeps (Storage.keeps_storeSession r)) fun _ => ?_
  refine Triple.bind (triple_change _ fun _ => ⟨rfl, rfl⟩) fun _ => ?_
  exact Triple.pure _ fun _ start => .inl ⟨rfl, start⟩

theorem triple_relayForward (ksid : Ksid) (keyId otkId : KeyId) (cipher : String) (size : Nat) :
    Triple (fun s => Shrunk k₀ s.2) (relayForward ksid keyId otkId cipher size) (fun p s => Carved k₀ p s.2)
      (fun s => Shrunk k₀ s.2) := by
  unfold relayForward
  refine Triple.bind triple_current_shrunk fun k => Triple.assume fun _ => ?_
  dsimp only
  split
  · refine Triple.bind (triple_lift _) fun role => ?_
    split
    · -- a middle hop masks the key again with one cut from its next link
      rename_i prev next
      refine Triple.bind (triple_engine_keeps (Engine.keeps_reconstruct ksid otkId)) fun otk => ?_
      refine Triple.bind (triple_lift_yields _ (fun key => 8 * key.len = size) fun _ => Relay.unwrap_len)
        fun key => Triple.assume fun bits => ?_
      dsimp only
      refine Triple.bind (triple_linkTo next) fun ℓ => Triple.assume fun confirmed => ?_
      refine Triple.bind ((triple_generate ksid ℓ size 1 0 []).conseq (fun _ start => cut_nil.mpr start)
        (fun _ _ done => done) (fun _ failed => cut_nil.mp failed)) fun batch => Triple.assume fun ⟨_, sized, one⟩ => ?_
      obtain ⟨fresh, single⟩ : ∃ fresh, batch.issued = [fresh] := List.length_eq_one_iff.mp one
      have padded : key.len = fresh.material.len := by
        rw [sized fresh (List.mem_append_left _ (single ▸ List.mem_singleton_self fresh))]
        omega
      obtain ⟨masked, wrapped⟩ := Relay.wrap_ok padded
      rw [single]
      refine Triple.bind (triple_lift_ok (fun _ => True) ⟨masked, wrapped, trivial⟩) fun _ => ?_
      refine Triple.bind triple_wallSecs fun now => ?_
      refine Triple.pure _ fun _ ⟨cut, _⟩ => .inr ⟨next, ℓ, batch.rows ksid true now, batch.consumed, ?_, confirmed,
        by simpa using cut⟩
      simp [Plan.syncs, Plan.andThen, Plan.ack, Plan.answer, Action.sync?]
    · -- the last hop keeps the key for the slave
      refine Triple.bind (triple_engine_keeps (Engine.keeps_reconstruct ksid otkId)) fun otk => ?_
      refine Triple.bind (triple_lift _) fun key => ?_
      dsimp only
      refine Triple.bind (triple_engine_keeps (Engine.keeps_storeLocal ksid _)) fun _ => ?_
      exact Triple.pure _ fun _ start => .inl ⟨rfl, start⟩
    · exact Triple.throw_bind _ fun _ start => start
  · exact triple_fail _ fun _ start => start

end Handlers

/-! ### Links and delivered blocks -/

/-- The links a node knows are filed under their own ids. -/
def LinksKeyed (k : Kme) : Prop := ∀ ℓ st, (ℓ, st) ∈ k.links.entries → st.record.link = ℓ

/-- A node whose records are steady and whose links are filed under their ids. -/
structure Sound (k : Kme) : Prop where
  steady : k.storage.Steady
  keyed : k.LinksKeyed

theorem linkState_link {k : Kme} (keyed : k.LinksKeyed) (ℓ : LinkId) (createdAt : Nat) :
    (k.linkState ℓ createdAt).record.link = ℓ := by
  unfold linkState
  cases known : k.links.get? ℓ with
  | none => rfl
  | some st => exact keyed ℓ st (Table.mem_of_get? known)

/-- A link's state knows a companion only when the node had confirmed the link with it. -/
theorem linkState_partner {k : Kme} {ℓ : LinkId} {createdAt : Nat} {c : KmeId}
    (companion : (k.linkState ℓ createdAt).record.companion = some c) :
    ((k.linkState ℓ createdAt).record.link, c) ∈ k.partners := by
  unfold linkState at companion ⊢
  cases known : k.links.get? ℓ with
  | none =>
    rw [known] at companion
    cases companion
  | some st =>
    rw [known, Option.getD_some] at companion
    rw [Option.getD_some]
    refine List.mem_filterMap.mpr ⟨st, Table.mem_values.mpr ⟨ℓ, Table.mem_of_get? known⟩, ?_⟩
    simp [companion]

theorem keyed_insert {k : Kme} (keyed : k.LinksKeyed) {ℓ : LinkId} {st : LinkState}
    (link : st.record.link = ℓ) : ∀ ℓ' st', (ℓ', st') ∈ (k.links.insert ℓ st).entries → st'.record.link = ℓ' := by
  intro ℓ' st' member
  rcases Store.mem_insert_entries member with ⟨rfl, rfl⟩ | ⟨old, _⟩
  · exact link
  · exact keyed ℓ' st' old

/-- A link state filed anew adds at most its own companion. -/
theorem partners_insert (k : Kme) (ℓ : LinkId) (st : LinkState) {x : LinkId × KmeId}
    (member : x ∈ (k.links.insert ℓ st).values.filterMap fun s => s.record.companion.map (s.record.link, ·)) :
    x ∈ k.partners ∨ st.record.companion.map (st.record.link, ·) = some x := by
  obtain ⟨st', known, named⟩ := List.mem_filterMap.mp member
  obtain ⟨ℓ', entry⟩ := Table.mem_values.mp known
  rcases Store.mem_insert_entries entry with ⟨_, rfl⟩ | ⟨old, _⟩
  · exact .inr named
  · exact .inl (List.mem_filterMap.mpr ⟨st', Table.mem_values.mpr ⟨ℓ', old⟩, named⟩)

theorem storeLink_run {st : Storage} (steady : st.Steady) (l : LinkRecord) :
    Storage.storeLink l st = .ok () { st with data := st.data.storeLink l } ∧
      Storage.Steady { st with data := st.data.storeLink l } :=
  ⟨Storage.write_steady steady.calm _ _, steady.calm,
    (show Store.Kept st.data (st.data.storeLink l) from Store.Kept.of_blocks rfl rfl).indexed steady.indexed⟩

theorem run_engine_ok {α : Type} {m : EngineM α} {e e' : Env} {k : Kme} {a : α} {st : Storage}
    (h : m (e, k.storage) = .ok a (e', st)) : engine m (e, k) = .ok a (e', { k with storage := st }) := by
  rw [run_engine]
  simp only [h]

theorem run_engine_error {α : Type} {m : EngineM α} {e e' : Env} {k : Kme} {f : Fault} {st : Storage}
    (h : m (e, k.storage) = .error f (e', st)) :
    engine m (e, k) = .error (.fault f) (e', { k with storage := st }) := by
  rw [run_engine]
  simp only [h]

theorem run_records_ok {α : Type} {m : StoreM α} {e : Env} {k : Kme} {a : α} {st : Storage}
    (h : m k.storage = .ok a st) : records m (e, k) = .ok a (e, { k with storage := st }) := by
  simp only [records, run_engine, Engine.records_ok e h]

/-- A block delivered on link `ℓ`: added unless its id is known, and no link gains a companion. -/
structure Delivered (k : Kme) (ℓ : LinkId) (X : BlockId) (timestamp : Nat) (bytes : List UInt8) (k' : Kme) :
    Prop where
  sound : k'.Sound
  blocks : k'.bare = (k.storage.data.insertBlock ⟨X, ℓ, timestamp, k.pool.nextArrival, bytes, 0, 0⟩).2.bare
  partners : ∀ x ∈ k'.partners, x ∈ k.partners

theorem deliverBlock_run {k : Kme} (sound : k.Sound) (ℓ : LinkId) (X : BlockId) (timestamp : Nat)
    (bytes : List UInt8) (e : Env) :
    ∃ p k', deliverBlock ℓ X timestamp bytes (e, k) = .ok p (e, k') ∧ p.syncs = [] ∧
      Delivered k ℓ X timestamp bytes k' := by
  obtain ⟨ingested, steady⟩ := Pool.ingest_run k.pool ℓ X bytes timestamp sound.steady
  unfold deliverBlock
  rw [run_bind_ok (show current (e, k) = .ok k (e, k) from rfl), run_bind_ok (run_records_ok ingested)]
  dsimp only
  rw [run_bind_ok (show change _ _ = .ok () _ from rfl)]
  split
  · exact ⟨Plan.ack, _, rfl, rfl, ⟨steady, sound.keyed⟩, rfl, fun _ member => member⟩
  rw [run_bind_ok (show current _ = .ok _ _ from rfl)]
  dsimp only
  rw [run_bind_ok (show change _ _ = .ok () _ from rfl)]
  rw [run_bind_ok (run_records_ok (storeLink_run steady _).1)]
  refine ⟨_, _, rfl, rfl, ⟨⟨(storeLink_run steady _).2, keyed_insert sound.keyed ?_⟩, rfl, ?_⟩⟩
  · apply linkState_link
    exact sound.keyed
  · intro x member
    rcases partners_insert _ _ _ member with old | new
    · exact old
    · obtain ⟨c, named, rfl⟩ := Option.map_eq_some_iff.mp new
      exact linkState_partner named

/-- A link confirmed with companion `c`: the blocks stay, and the link gains `c` as its only new
companion. -/
structure Linked (k : Kme) (ℓ : LinkId) (c : KmeId) (k' : Kme) : Prop where
  sound : k'.Sound
  blocks : k'.bare = k.bare
  partners : ∀ x ∈ k'.partners, x ∈ k.partners ∨ x = (ℓ, c)

theorem linkConfirmed_run {k : Kme} (sound : k.Sound) (ℓ : LinkId) (c : KmeId) (address : String) (e : Env) :
    ∃ p k', linkConfirmed ℓ c address (e, k) = .ok p (e, k') ∧ p.syncs = [] ∧ Linked k ℓ c k' := by
  unfold linkConfirmed
  rw [run_bind_ok (show wallSecs (e, k) = .ok _ (e, k) from rfl), run_bind_ok (show current _ = .ok _ _ from rfl)]
  dsimp only
  rw [run_bind_ok (show change _ _ = .ok () _ from rfl)]
  dsimp only
  rw [run_bind_ok (run_records_ok ?stored)]
  case stored => exact (storeLink_run sound.steady _).1
  refine ⟨_, _, rfl, rfl, ⟨⟨(storeLink_run sound.steady _).2, keyed_insert sound.keyed ?_⟩, rfl, ?_⟩⟩
  · exact linkState_link sound.keyed ℓ _
  · intro x member
    rcases partners_insert _ _ _ member with old | new
    · exact .inl old
    · obtain ⟨c', named, rfl⟩ := Option.map_eq_some_iff.mp new
      cases named
      exact .inr (by rw [linkState_link sound.keyed ℓ _])

/-- What following a companion's consumption on link `ℓ` leaves: refused with the blocks as they
were, or done, each named block being of the link and each cursor moved past the spans consumed
on its block, held to the block's end. -/
def Synced (k : Kme) (ℓ : LinkId) (consumed : List Span) (out : Option Plan) (k' : Kme) : Prop :=
  k'.Sound ∧ k'.links = k.links ∧
    ((out = none ∧ k'.bare = k.bare) ∨
      ∃ p, out = some p ∧ p.syncs = [] ∧ (∀ s ∈ consumed, ∀ b, k.bare s.block = some b → b.link = ℓ) ∧
        k'.bare = fun X => (k.bare X).map fun b => { b with offset := ackReach consumed X b.bytes.length b.offset })

/-- Handles a request to its end: the plan, or `none` when the request failed; nothing when it
stopped the program. -/
def respond (req : KmeRequest) (e : Env) (k : Kme) : Option (Option Plan × Kme) :=
  match handle req (e, k) with
  | .ok p (_, k') => some (some p, k')
  | .error (.fault _) (_, k') => some (none, k')
  | .error (.abort _) _ => none

theorem respond_of_ok (req : KmeRequest) {e e' : Env} {k k' : Kme} {p : Plan}
    (run : handle req (e, k) = .ok p (e', k')) : respond req e k = some (some p, k') := by
  unfold respond
  rw [run]

/-- The calls to follow carves of a request's plan; none when it failed. -/
def syncsOf : Option Plan → List Sync
  | some p => p.syncs
  | none => []

theorem syncKeys_effect {k : Kme} (sound : k.Sound) (ℓ : LinkId) (rows : List KeyRow) (consumed : List Span)
    {e : Env} {out : Option Plan} {k' : Kme} (ran : respond (.syncKeys ℓ rows consumed) e k = some (out, k')) :
    Synced k ℓ consumed out k' := by
  have unfolded : handle (.syncKeys ℓ rows consumed) (e, k) =
      (engine (Engine.applySync ℓ rows consumed) >>= fun _ => pure Plan.ack) (e, k) := rfl
  unfold respond at ran
  rw [unfolded] at ran
  rcases Engine.applySync_spec ℓ rows consumed e sound.steady with ⟨f, refused⟩ | ⟨st, done, steady, onLink, acked⟩
  · rw [run_bind_error (run_engine_error refused)] at ran
    cases ran
    exact ⟨sound, rfl, .inl ⟨rfl, rfl⟩⟩
  · rw [run_bind_ok (run_engine_ok done)] at ran
    cases ran
    refine ⟨⟨steady, sound.keyed⟩, rfl, .inr ⟨Plan.ack, rfl, rfl, ?_, acked⟩⟩
    intro s member b found
    obtain ⟨b₀, stored, rfl⟩ := Option.map_eq_some_iff.mp found
    exact onLink s member b₀ stored

/-- What handling a request may do to node `k`, which becomes `k'`, with the plan, or `none` when
the request failed. -/
def Effect (k : Kme) (out : Option Plan) (k' : Kme) : KmeRequest → Prop
  | .deliverBlock ℓ X timestamp bytes => syncsOf out = [] ∧ Delivered k ℓ X timestamp bytes k'
  | .syncKeys ℓ _ consumed => Synced k ℓ consumed out k'
  | .linkConfirmed ℓ c _ => syncsOf out = [] ∧ Linked k ℓ c k'
  | _ => (∀ p, out = some p → Carved k p k') ∧ (out = none → Shrunk k k')

theorem respond_of_triple {req : KmeRequest} {k : Kme}
    (t : Triple (fun s => Shrunk k s.2) (handle req) (fun p s => Carved k p s.2) (fun s => Shrunk k s.2))
    (steady : k.storage.Steady) {e : Env} {out : Option Plan} {k' : Kme} (ran : respond req e k = some (out, k')) :
    (∀ p, out = some p → Carved k p k') ∧ (out = none → Shrunk k k') := by
  have landed := t (e, k) (Shrunk.refl steady)
  unfold respond at ran
  cases run : handle req (e, k) with
  | ok p t =>
    obtain ⟨e', k₁⟩ := t
    rw [run] at ran landed
    cases ran
    refine ⟨fun _ same => ?_, fun absurd => nomatch absurd⟩
    cases same
    exact landed
  | error h t =>
    obtain ⟨e', k₁⟩ := t
    rw [run] at ran landed
    cases h with
    | fault f =>
      cases ran
      exact ⟨fun _ absurd => (nomatch absurd), fun _ => landed⟩
    | abort a => cases ran

/-- Every request a node handles without stopping the program does what `Effect` says. -/
theorem respond_effect {k : Kme} (sound : k.Sound) {req : KmeRequest} {e : Env} {out : Option Plan} {k' : Kme}
    (ran : respond req e k = some (out, k')) : Effect k out k' req := by
  cases req with
  | deliverBlock ℓ X timestamp bytes =>
    obtain ⟨p, k₁, run, quiet, delivered⟩ := deliverBlock_run sound ℓ X timestamp bytes e
    rw [respond_of_ok (.deliverBlock ℓ X timestamp bytes) run] at ran
    cases ran
    exact ⟨quiet, delivered⟩
  | syncKeys ℓ rows consumed => exact syncKeys_effect sound ℓ rows consumed ran
  | linkConfirmed ℓ c address =>
    obtain ⟨p, k₁, run, quiet, linked⟩ := linkConfirmed_run sound ℓ c address e
    rw [respond_of_ok (.linkConfirmed ℓ c address) run] at ran
    cases ran
    exact ⟨quiet, linked⟩
  | openSession src dst qos master => exact respond_of_triple (triple_openSession src dst qos master) sound.steady ran
  | encKeys src dst number size =>
    exact respond_of_triple (Triple.bind triple_sweepQuietly fun _ => triple_encKeys src dst number size)
      sound.steady ran
  | decKeys src dst keys =>
    exact respond_of_triple (Triple.bind triple_sweepQuietly fun _ => triple_decKeys src dst keys) sound.steady ran
  | status src dst => exact respond_of_triple (triple_status src dst) sound.steady ran
  | closeSession ksid origin => exact respond_of_triple (triple_closeSession ksid origin) sound.steady ran
  | relayForward ksid keyId otkId cipher size =>
    exact respond_of_triple (triple_relayForward ksid keyId otkId cipher size) sound.steady ran
  | assignSession r => exact respond_of_triple (triple_assignSession r) sound.steady ran

end Kme

end KeyRelay
