import KeyRelay.Proofs.Backed
import KeyRelay.Proofs.Link

/-! Stored rows never dangle. A node that starts on empty records keeps, through every request
it handles, a reference on each block for each (stored row, span) pair on it: every span of a
stored row lies on a resident block, and replaying a stored row never finds its block gone.

This holds as long as each `syncKeys` the node follows names each range in at most one of its
rows (`KmeRequest.RangesOnce`): acknowledging a companion's consumption takes one reference for
each consumed range that a row names, however many rows name it, so two rows sharing a range
would share one reference between them. -/

namespace KeyRelay

namespace Store

variable {s : Store} {owed : List Span}

end Store

namespace KmeRequest

/-- The rows a request asks to store name each range once: only a companion's `syncKeys`
carries rows. -/
def RangesOnce : KmeRequest → Prop
  | .syncKeys _ rows _ => (rows.flatMap (·.spans)).Nodup
  | _ => True

instance : DecidablePred RangesOnce := fun req => by
  cases req <;> unfold RangesOnce <;> infer_instance

end KmeRequest

namespace Kme

/-- The node's records back their rows and owe no reference. -/
def Backed (s : Env × Kme) : Prop := s.2.storage.Backs []

section Backing

variable {α : Type}

/-- A computation of the key engine, specified over the records, seen from the node. -/
theorem triple_of_spec {m : EngineM α} {P : Env × Storage → Prop} {Q : α → Env × Storage → Prop}
    {E : Env × Storage → Prop} (spec : Spec P m Q E) :
    Triple (fun s => P (s.1, s.2.storage)) (engine m) (fun a s => Q a (s.1, s.2.storage))
      (fun s => E (s.1, s.2.storage)) := by
  intro s start
  obtain ⟨returned, failed⟩ := spec _ start
  rw [run_engine]
  cases run : m (s.1, s.2.storage) with
  | ok a t => exact returned a t run
  | error f t => exact failed f t run

theorem backs_engine {m : EngineM α}
    (spec : Spec (·.2.Backs []) m (fun _ s => s.2.Backs []) (·.2.Backs [])) :
    Triple Backed (engine m) (fun _ => Backed) Backed :=
  triple_of_spec spec

theorem backs_records {m : StoreM α} (spec : Spec (·.Backs []) m (fun _ st => st.Backs []) (·.Backs [])) :
    Triple Backed (records m) (fun _ => Backed) Backed :=
  backs_engine (Engine.spec_records spec)

theorem backs_change (f : Kme → Kme) (keeps : ∀ k, (f k).storage = k.storage) {E : Env × Kme → Prop} :
    Triple Backed (change f) (fun _ => Backed) E := by
  intro s start
  show (f s.2).storage.Backs []
  rw [keeps]
  exact start

theorem backs_current {E : Env × Kme → Prop} : Triple Backed current (fun _ => Backed) E :=
  fun _ start => start

theorem backs_linkTo (c : KmeId) : Triple Backed (linkTo c) (fun _ => Backed) Backed := by
  unfold linkTo
  refine Triple.bind backs_current fun k => ?_
  dsimp only
  split
  · exact Triple.pure _ fun _ start => start
  · exact triple_fail _ fun _ start => start

theorem backs_sweepQuietly : Triple Backed sweepQuietly (fun _ => Backed) Backed := by
  unfold sweepQuietly
  exact Triple.bind backs_current fun k => backs_engine (Spec.attempt (Spec.bind (Engine.spec_sweep k.pool)
    fun _ => Spec.pure fun _ backs => backs))

theorem backs_generate (ksid : Ksid) (ℓ : LinkId) (sizeBits count keep : Nat) :
    Triple Backed (generate ksid ℓ sizeBits count keep) (fun _ => Backed) Backed := by
  unfold generate
  refine Triple.bind (Triple.ofExcept _ fun _ start => ⟨start, fun _ _ => start⟩) fun _ => ?_
  exact Triple.bind backs_current fun k => backs_engine (Engine.spec_generate k.pool ksid ℓ sizeBits count keep)

theorem backs_takeKept (ksid : Ksid) (sizeBits : Nat) : ∀ (n : Nat) (keys : List (KeyId × Material)),
    Triple Backed (takeKept ksid sizeBits n keys) (fun _ => Backed) Backed
  | 0, keys => Triple.pure keys fun _ start => start
  | n + 1, keys => by
    rw [takeKept]
    refine Triple.bind (backs_engine (Engine.spec_quiet (Engine.keeps_quiet_takePrefetched ksid sizeBits)))
      fun r => ?_
    cases r with
    | none => exact Triple.pure keys fun _ start => start
    | some l => exact backs_takeKept ksid sizeBits n _

theorem backs_prefetched (ksid : Ksid) (number sizeBits : Nat) :
    Triple Backed (prefetched ksid number sizeBits) (fun _ => Backed) Backed := by
  unfold prefetched
  refine Triple.bind backs_current fun k => ?_
  split
  · exact Triple.pure [] fun _ start => start
  · exact backs_takeKept ksid sizeBits number []

theorem backs_topUp (ksid : Ksid) (ℓ : LinkId) (missing sizeBits : Nat) :
    Triple Backed (topUp ksid ℓ missing sizeBits) (fun _ => Backed) Backed := by
  unfold topUp
  split
  · exact Triple.pure none fun _ start => start
  · refine Triple.bind backs_current fun k => ?_
    dsimp only
    split
    · exact Triple.stop _
    · exact Triple.bind (backs_generate ksid ℓ sizeBits _ _) fun b => Triple.pure (some b) fun _ done => done

theorem backs_directKeys (r : SessionRecord) (companion : KmeId) (number sizeBits : Nat) :
    Triple Backed (directKeys r companion number sizeBits) (fun _ => Backed) Backed := by
  unfold directKeys
  refine Triple.bind (backs_linkTo companion) fun ℓ => ?_
  refine Triple.bind (backs_prefetched r.ksid number sizeBits) fun keys => ?_
  refine Triple.bind (backs_topUp r.ksid ℓ _ sizeBits) fun topped => ?_
  cases topped with
  | none => exact Triple.pure _ fun _ done => done
  | some batch => exact Triple.bind triple_wallSecs fun now => Triple.pure _ fun _ done => done

theorem backs_relayFirst (r : SessionRecord) (next : KmeId) (number sizeBits : Nat) :
    Triple Backed (relayFirst r next number sizeBits) (fun _ => Backed) Backed := by
  unfold relayFirst
  refine Triple.bind (backs_linkTo next) fun ℓ => ?_
  refine Triple.bind (backs_prefetched r.ksid number sizeBits) fun keys => ?_
  refine Triple.bind (backs_topUp r.ksid ℓ _ sizeBits) fun appBatch => ?_
  refine Triple.bind (Triple.tryCatch (backs_generate r.ksid ℓ sizeBits number 0) ?undo
    (fun a => Triple.stop a)) fun otks => ?_
  case undo =>
    -- when the one-time keys cannot be cut, the application keys go back
    intro f
    cases appBatch with
    | none => exact Triple.throw _ fun _ start => start
    | some b => exact Triple.bind (backs_engine (Spec.attempt (Engine.spec_undoBatch r.ksid b))) fun _ =>
        Triple.throw _ fun _ done => done
  refine Triple.bind triple_wallSecs fun now => ?_
  exact Triple.bind (triple_lift _) fun _ => Triple.pure _ fun _ done => done

theorem keeps_quiet_pickLink (pool : Pool) (needed : Nat) : ∀ (offered : List (LinkId × KmeId))
    (best : Option (LinkId × Nat)), Keeps Engine.Quiet (pickLink pool needed offered best)
  | [], _ => Keeps.pure Engine.quiet_chains _
  | (ℓ, c) :: rest, best => by
    rw [pickLink]
    refine Keeps.bind Engine.quiet_chains (Engine.keeps_quiet_available pool ℓ) fun available => ?_
    split
    · exact Keeps.pure Engine.quiet_chains _
    · exact keeps_quiet_pickLink pool needed rest _

theorem backs_localKeys (r : SessionRecord) (number sizeBits : Nat) :
    Triple Backed (localKeys r number sizeBits) (fun _ => Backed) Backed := by
  unfold localKeys
  refine Triple.bind backs_current fun k => ?_
  dsimp only
  refine Triple.bind (backs_engine (Engine.spec_quiet (keeps_quiet_pickLink _ _ _ _))) fun picked => ?_
  refine Triple.bind (triple_lift picked) fun chosen => ?_
  exact Triple.bind (backs_generate r.ksid _ sizeBits number number) fun _ => Triple.pure _ fun _ done => done

theorem backs_encKeys (src dst : AppId) (number : Nat) (size : Option Nat) :
    Triple Backed (encKeys src dst number size) (fun _ => Backed) Backed := by
  unfold encKeys
  refine Triple.bind (triple_sessionByApps src dst) fun r => ?_
  refine Triple.bind backs_current fun k => ?_
  dsimp only
  split
  · exact Triple.throw_bind _ fun _ start => start
  refine Triple.bind (triple_checkCount number) fun _ => ?_
  refine Triple.bind (triple_lift _) fun sizeBits => ?_
  refine Triple.bind (triple_lift _) fun role => ?_
  split
  · exact backs_localKeys r number sizeBits
  · exact backs_directKeys r _ number sizeBits
  · exact backs_relayFirst r _ number sizeBits
  · exact triple_fail _ fun _ start => start

/-- The slave's request for keys replays their rows and releases them, or puts the rows back. -/
theorem backs_decKeys (src dst : AppId) (keys : List KeyId) :
    Triple Backed (decKeys src dst keys) (fun _ => Backed) Backed := by
  unfold decKeys
  refine Triple.bind (triple_sessionByApps src dst) fun r => ?_
  refine Triple.bind backs_current fun k => ?_
  dsimp only
  split
  · exact Triple.throw_bind _ fun _ start => start
  refine Triple.bind (triple_checkCount keys.length) fun _ => ?_
  have serve : ∀ replay, Triple Backed
      (engine (Engine.retrieve r.ksid keys replay) >>= fun materials =>
        pure (Plan.answer (.keys (containers (keys.zip materials))))) (fun _ => Backed) Backed := fun replay =>
    Triple.bind (backs_engine (Engine.spec_retrieve _ _ _)) fun _ => Triple.pure _ fun _ done => done
  refine Triple.bind (triple_lift _) fun role => ?_
  split
  · exact Triple.bind (Triple.pure _ fun _ start => start) serve
  · exact Triple.bind (Triple.pure _ fun _ start => start) serve
  · exact Triple.bind (Triple.pure _ fun _ start => start) serve
  · exact Triple.throw_bind _ fun _ start => start

theorem backs_status (src dst : AppId) : Triple Backed (status src dst) (fun _ => Backed) Backed := by
  unfold status
  refine Triple.bind (triple_sessionByApps src dst) fun r => ?_
  refine Triple.bind (backs_engine (Engine.spec_quiet (Engine.keeps_quiet_sessionKeyCount r.ksid))) fun _ => ?_
  exact Triple.bind backs_current fun _ => Triple.pure _ fun _ done => done

/-- Closing a session releases the references its rows held. -/
theorem backs_closeSession (ksid : Ksid) (origin : Option KmeId) :
    Triple Backed (closeSession ksid origin) (fun _ => Backed) Backed := by
  unfold closeSession
  refine Triple.bind backs_current fun k => ?_
  dsimp only
  split
  · refine Triple.bind (backs_change _ fun _ => by rfl) fun _ => ?_
    refine Triple.bind (backs_records (Storage.spec_quiet (Storage.keeps_quiet_deleteSession ksid))) fun _ => ?_
    exact Triple.bind (backs_engine (Engine.spec_purgeSession ksid)) fun _ => Triple.pure _ fun _ done => done
  · exact triple_fail _ fun _ start => start

theorem backs_openSession (src dst : AppId) (qos : Qos) (master : Bool) :
    Triple Backed (openSession src dst qos master) (fun _ => Backed) Backed := by
  unfold openSession
  exact Triple.bind backs_current fun _ => Triple.pure _ fun _ done => done

theorem backs_assignSession (r : SessionRecord) : Triple Backed (assignSession r) (fun _ => Backed) Backed := by
  unfold assignSession
  refine Triple.bind backs_current fun k => ?_
  refine Triple.bind (triple_lift _) fun _ => ?_
  refine Triple.bind (backs_records (Storage.spec_quiet (Storage.keeps_quiet_storeSession r))) fun _ => ?_
  exact Triple.bind (backs_change _ fun _ => by rfl) fun _ => Triple.pure _ fun _ done => done

/-- A relayed key replays its one-time key's row and releases it; a middle hop cuts a fresh
one-time key for the next hop. -/
theorem backs_relayForward (ksid : Ksid) (keyId otkId : KeyId) (cipher : String) (size : Nat) :
    Triple Backed (relayForward ksid keyId otkId cipher size) (fun _ => Backed) Backed := by
  unfold relayForward
  refine Triple.bind backs_current fun k => ?_
  dsimp only
  split
  · refine Triple.bind (triple_lift _) fun role => ?_
    split
    · rename_i prev next
      refine Triple.bind (backs_engine (Engine.spec_reconstruct ksid otkId)) fun otk => ?_
      refine Triple.bind (triple_lift _) fun key => ?_
      dsimp only
      refine Triple.bind (backs_linkTo next) fun ℓ => ?_
      refine Triple.bind (backs_generate ksid ℓ size 1 0) fun batch => ?_
      split
      · refine Triple.bind (triple_lift _) fun _ => ?_
        exact Triple.bind triple_wallSecs fun now => Triple.pure _ fun _ done => done
      · exact triple_fail _ fun _ start => start
    · refine Triple.bind (backs_engine (Engine.spec_reconstruct ksid otkId)) fun otk => ?_
      refine Triple.bind (triple_lift _) fun key => ?_
      dsimp only
      refine Triple.bind (backs_engine (Engine.spec_quiet (Engine.keeps_quiet_storeLocal ksid _))) fun _ => ?_
      exact Triple.pure _ fun _ done => done
    · exact Triple.throw_bind _ fun _ start => start
  · exact triple_fail _ fun _ start => start

/-- A delivered block comes in with no reference taken. -/
theorem backs_deliverBlock (ℓ : LinkId) (X : BlockId) (timestamp : Nat) (bytes : List UInt8) :
    Triple Backed (deliverBlock ℓ X timestamp bytes) (fun _ => Backed) Backed := by
  unfold deliverBlock
  refine Triple.bind backs_current fun k => ?_
  refine Triple.bind (backs_records (Storage.spec_ingest k.pool ℓ X bytes timestamp).returns) fun ingested => ?_
  dsimp only
  refine Triple.bind (backs_change _ fun _ => by rfl) fun _ => ?_
  split
  · exact Triple.pure _ fun _ done => done
  refine Triple.bind backs_current fun k' => ?_
  refine Triple.bind (backs_change _ fun _ => by rfl) fun _ => ?_
  refine Triple.bind (backs_records (Storage.spec_quiet (Storage.keeps_quiet_storeLink _))) fun _ => ?_
  exact Triple.pure _ fun _ done => done

theorem backs_linkConfirmed (ℓ : LinkId) (c : KmeId) (address : String) :
    Triple Backed (linkConfirmed ℓ c address) (fun _ => Backed) Backed := by
  unfold linkConfirmed
  refine Triple.bind triple_wallSecs fun now => ?_
  refine Triple.bind backs_current fun k => ?_
  dsimp only
  refine Triple.bind (backs_change _ fun _ => by rfl) fun _ => ?_
  refine Triple.bind (backs_records (Storage.spec_quiet (Storage.keeps_quiet_storeLink _))) fun _ => ?_
  exact Triple.pure _ fun _ done => done

/-- Every request whose rows name each range once keeps the records backing their rows,
whether it is answered or fails. -/
theorem backs_handle {req : KmeRequest} (once : req.RangesOnce) :
    Triple Backed (handle req) (fun _ => Backed) Backed := by
  cases req with
  | deliverBlock ℓ X timestamp bytes => exact backs_deliverBlock ℓ X timestamp bytes
  | openSession src dst qos master => exact backs_openSession src dst qos master
  | encKeys src dst number size =>
    exact Triple.bind backs_sweepQuietly fun _ => backs_encKeys src dst number size
  | decKeys src dst keys => exact Triple.bind backs_sweepQuietly fun _ => backs_decKeys src dst keys
  | status src dst => exact backs_status src dst
  | closeSession ksid origin => exact backs_closeSession ksid origin
  | syncKeys ℓ rows consumed =>
    exact Triple.bind (backs_engine (Engine.spec_applySync ℓ rows consumed once)) fun _ =>
      Triple.pure _ fun _ done => done
  | relayForward ksid keyId otkId cipher size => exact backs_relayForward ksid keyId otkId cipher size
  | assignSession r => exact backs_assignSession r
  | linkConfirmed ℓ c address => exact backs_linkConfirmed ℓ c address

end Backing

theorem respond_backs {k : Kme} (backs : k.storage.Backs []) {req : KmeRequest} (once : req.RangesOnce)
    {e : Env} {out : Option Plan} {k' : Kme} (ran : respond req e k = some (out, k')) : k'.storage.Backs [] := by
  have landed := backs_handle once (e, k) backs
  unfold respond at ran
  cases run : handle req (e, k) with
  | ok p t =>
    rw [run] at ran landed
    cases ran
    exact landed
  | error h t =>
    rw [run] at ran landed
    cases h with
    | fault f =>
      cases ran
      exact landed
    | abort a => cases ran

/-- The runs of a node that starts blank and follows only companions whose rows name each range
once: each request it handles to an end, answered or failed, without stopping the program. -/
inductive Reached : Kme → Prop
  | blank {k : Kme} : k.Blank → Reached k
  | step {k k' : Kme} {req : KmeRequest} {e : Env} {out : Option Plan} :
      Reached k → req.RangesOnce → respond req e k = some (out, k') → Reached k'

theorem Reached.backs {k : Kme} (run : k.Reached) : k.storage.Backs [] := by
  induction run with
  | blank blank =>
    rw [blank.storage]
    exact ⟨⟨rfl, Store.indexed_default⟩, Store.backs_default⟩
  | step _ once ran ih => exact respond_backs ih once ran

end Kme

end KeyRelay
