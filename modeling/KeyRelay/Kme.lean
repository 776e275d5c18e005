import KeyRelay.Engine
import KeyRelay.Message
import KeyRelay.Relay
import KeyRelay.Rate
import KeyRelay.Config
import KeyRelay.Session.Index

/-!
A key management node: the links it has seen, the sessions it serves, and its key engine.
Handling a request changes the node's state and records and gives a plan: the reply, the calls
to make to other nodes and to the controller, and the keys to drop should a required call
fail. The calls themselves are made elsewhere.

The master's node answers `enc_keys`. With one node for both applications it takes keys from
the best confirmed link and keeps them in the clear; with two nodes sharing a link it hands
out keys whose rows the companion must store; on a longer path it also masks each key with a
one-time key for the next hop, which unmasks and masks again, until the last hop keeps the key
in the clear for the slave's `dec_keys`.

A request fails with a fault, or stops the program when the keys it would generate, with the
node's prefetch allowance, overflow a machine word or the room a generation reserves.
-/
namespace KeyRelay

/-- What a node knows of a link: its record and the smoothing of its rate. -/
structure LinkState where
  record : LinkRecord
  estimator : RateEstimator
deriving Inhabited

/-- A call a node asks to be made. -/
inductive Action where
  | callKme (kme : KmeId) (request : KmeRequest) (required : Bool)
  | callController (request : ControllerRequest Float) (required : Bool)
  /-- The node at the other end of a link is reachable at an address. -/
  | learnAddress (kme : KmeId) (address : String)
deriving Repr, Inhabited

/-- A call whose failure fails the request. -/
def Action.required : Action → Bool
  | .callKme _ _ r | .callController _ r => r
  | .learnAddress .. => false

/-- The reply of a request: ready, or the controller's answer to the call the plan makes. -/
inductive Reply where
  | ready (r : KmeResponse)
  | fromController
deriving Repr, Inhabited

/-- What handling a request gives: the reply, the calls to make in order, and the clear keys
to drop should a required call fail. -/
structure Plan where
  reply : Reply
  actions : List Action := []
  discardOnFailure : List (Ksid × KeyId) := []
deriving Repr, Inhabited

namespace Plan

/-- A plain reply. -/
def answer (r : KmeResponse) : Plan := { reply := .ready r }

/-- A plain acknowledgement. -/
def ack : Plan := answer .ack

/-- Adds a call. -/
def andThen (p : Plan) (a : Action) : Plan := { p with actions := p.actions ++ [a] }

end Plan

/-- A node. -/
structure Kme where
  id : KmeId
  config : KmeConfig
  pool : Pool
  storage : Storage
  sessions : SessionIndex
  links : Table LinkId LinkState
deriving Inhabited

/-- Computations of a node over the shared environment: a fault fails the request, and a
stop of the program ends everything. -/
abbrev KmeM := EStateM Halt (Env × Kme)

/-- Keys as handed to applications. -/
def containers (keys : List (KeyId × Material)) : List KeyContainer :=
  keys.map fun (k, m) => ⟨k, m.encode⟩

namespace Kme

/-- Opens a node over records: the configuration must hold, and the sessions, links and pool
are read back from the records. -/
def load (id : KmeId) (config : KmeConfig) (st : Storage) : Except Fault Kme × Storage :=
  match config.validate with
  | .error e => (.error (.invalid (.config e)), st)
  | .ok () =>
    let reading : StoreM (SessionIndex × Table LinkId LinkState × Pool) := do
      let sessions := (← Storage.listSessions).foldl (fun ix r => (ix.insert r).1) {}
      let links := (← Storage.listLinks).foldl
        (fun t r => t.insert r.link ⟨r, RateEstimator.resume r.rate⟩) {}
      pure (sessions, links, ← Pool.load config.ttlMs)
    match EStateM.outcome reading st with
    | (.ok (sessions, links, pool), st) => (.ok { id, config, pool, storage := st, sessions, links }, st)
    | (.error e, st) => (.error e, st)

/-- Fails the request with a fault. -/
def fail {α : Type} (f : Fault) : KmeM α := throw (.fault f)

/-- Fails the request when a check has failed. -/
def lift {α : Type} (r : Except Fault α) : KmeM α := EStateM.ofExcept (Halt.ofFault r)

/-- Runs a computation of the key engine. -/
def engine {α : Type} (m : EngineM α) : KmeM α :=
  EStateM.mapError Halt.fault
    (EStateM.focus (fun s => (s.1, s.2.storage)) (fun t s => (t.1, { s.2 with storage := t.2 })) m)

/-- Runs a computation on the records. -/
def records {α : Type} (m : StoreM α) : KmeM α := engine (Engine.records m)

/-- The node. -/
def current : KmeM Kme := fun s => .ok s.2 s

/-- Changes the node. -/
def change (f : Kme → Kme) : KmeM Unit := fun s => .ok () (s.1, f s.2)

/-- The wall clock, seconds. -/
def wallSecs : KmeM Nat := fun s => .ok s.1.wallSecs s

/-- Generates keys from a link's pool. -/
def generate (ksid : Ksid) (link : LinkId) (sizeBits count keepLocal : Nat) : KmeM Batch := do
  EStateM.ofExcept (Engine.checkGeneration sizeBits count)
  engine (Engine.generate (← current).pool ksid link sizeBits count keepLocal)

/-- Drops clear keys one by one, ignoring failures. -/
def discardKeys (keys : List (Ksid × KeyId)) : KmeM Unit :=
  keys.forM fun (ksid, k) => engine (EStateM.attempt (Engine.discard ksid [k]))

/-- Deletes the blocks that can go, ignoring a failure. -/
def sweepQuietly : KmeM Unit := do
  let pool := (← current).pool
  engine (EStateM.attempt (do let _ ← Engine.sweep pool))

/-- The state of a link, new if the node has not seen it. -/
def linkState (k : Kme) (link : LinkId) (createdAt : Nat) : LinkState :=
  (k.links.get? link).getD
    ⟨{ link, companion := none, address := none, rate := 0.0, ttlSecs := k.pool.ttlSecs, createdAt }, {}⟩

/-- Takes in a delivered block and reports the link's rate to the controller: as a new link
until a companion is known. A block seen before is acknowledged and ignored. -/
def deliverBlock (link : LinkId) (block : BlockId) (timestamp : Nat) (bytes : List UInt8) :
    KmeM Plan := do
  let k ← current
  let (inserted, pool) ← records (k.pool.ingest link block bytes timestamp)
  change fun k => { k with pool }
  if !inserted then return Plan.ack
  let k ← current
  let st := k.linkState link timestamp
  let (estimator, rate) := st.estimator.observe bytes.length
  let st : LinkState := ⟨{ st.record with rate }, estimator⟩
  change fun k => { k with links := k.links.insert link st }
  records (Storage.storeLink st.record)
  let request := match st.record.companion with
    | none => .newLink link k.id rate st.record.ttlSecs
    | some _ => .updateLink link rate
  pure (Plan.ack.andThen (.callController request false))

/-- Records the node at the other end of a link and its address. -/
def linkConfirmed (link : LinkId) (companion : KmeId) (address : String) : KmeM Plan := do
  let now ← wallSecs
  let k ← current
  let st := k.linkState link now
  let st := { st with record := { st.record with companion := some companion, address := some address } }
  change fun k => { k with links := k.links.insert link st }
  records (Storage.storeLink st.record)
  pure (Plan.ack.andThen (.learnAddress companion address))

/-- Passes an application's registration to the controller, whose answer is the reply. -/
def openSession (src dst : AppId) (qos : Qos) (master : Bool) : KmeM Plan := do
  let k ← current
  pure { reply := .fromController,
         actions := [.callController (.registerApp src dst k.id qos master) true] }

/-- Takes up a session whose path holds the node. -/
def assignSession (r : SessionRecord) : KmeM Plan := do
  let k ← current
  let _ ← lift (r.role k.id)
  records (Storage.storeSession r)
  change fun k => { k with sessions := (k.sessions.insert r).1 }
  pure Plan.ack

/-- The session of a pair of applications. -/
def sessionByApps (src dst : AppId) : KmeM SessionRecord := do
  match (← current).sessions.byPair? src dst with
  | some r => pure r
  | none => fail (.noSession (.apps src dst))

/-- The link to a neighbour: of the links confirmed with it, the one of least id. -/
def linkTo (companion : KmeId) : KmeM LinkId := do
  let ids := ((← current).links.values.filter (·.record.companion = some companion)).map (·.record.link)
  match sortedBy (·.val) ids with
  | id :: _ => pure id
  | [] => fail (.noLink companion)

/-- A number of keys must be positive and within the node's limit. -/
def checkCount (n : Nat) : KmeM Unit := do
  let max := (← current).config.maxKeysPerRequest
  if n = 0 ∨ n > max then fail (.invalid (.keyCount n max))

/-- Keys of the default size are generated with extra ones kept for later requests. -/
def prefetchAllowance (c : KmeConfig) (sizeBits : Nat) : Nat :=
  if sizeBits = c.defaultKeySize then c.prefetchKeys else 0

/-- Takes up to `n` kept keys of the size, stopping at the first missing. -/
def takeKept (ksid : Ksid) (sizeBits : Nat) : Nat → List (KeyId × Material) → KmeM (List (KeyId × Material))
  | 0, keys => pure keys
  | n + 1, keys => do
    match ← engine (Engine.takePrefetched ksid sizeBits) with
    | some l => takeKept ksid sizeBits n (keys ++ [(l.keyId, l.material)])
    | none => pure keys

/-- Kept keys for a request, when the size is one that is prefetched. -/
def prefetched (ksid : Ksid) (number sizeBits : Nat) : KmeM (List (KeyId × Material)) := do
  if prefetchAllowance (← current).config sizeBits = 0 then pure []
  else takeKept ksid sizeBits number []

/-- Generates the keys a request still misses, with the extra ones to keep. -/
def topUp (ksid : Ksid) (link : LinkId) (missing sizeBits : Nat) : KmeM (Option Batch) := do
  if missing = 0 then return none
  let prefetch := prefetchAllowance (← current).config sizeBits
  if missing + prefetch > Env.wordMax then throw (.abort Abort.addOverflow)
  pure (some (← generate ksid link sizeBits (missing + prefetch) prefetch))

/-- The discard list of a batch's kept keys. -/
def keptOf (ksid : Ksid) (b : Batch) : List (Ksid × KeyId) := b.storedIds.map (ksid, ·)

/-- The keys handed out of a batch. -/
def handedOut (b : Batch) : List (KeyId × Material) := b.issued.map fun k => (k.keyId, k.material)

/-- Keys over one link to the slave's node, whose rows the companion stores. -/
def directKeys (r : SessionRecord) (companion : KmeId) (number sizeBits : Nat) : KmeM Plan := do
  let ksid := r.ksid
  let link ← linkTo companion
  let keys ← prefetched ksid number sizeBits
  match ← topUp ksid link (number - keys.length) sizeBits with
  | none => pure (Plan.answer (.keys (containers keys)))
  | some batch =>
    let rows := batch.rows ksid false (← wallSecs)
    pure { reply := .ready (.keys (containers (keys ++ handedOut batch))),
           actions := [.callKme companion (.syncKeys link rows batch.consumed) true],
           discardOnFailure := keptOf ksid batch }

/-- Keys for a relayed session: generated as for one link, and masked for the next hop with
one-time keys whose rows the next hop stores. -/
def relayFirst (r : SessionRecord) (next : KmeId) (number sizeBits : Nat) : KmeM Plan := do
  let ksid := r.ksid
  let link ← linkTo next
  let keys ← prefetched ksid number sizeBits
  let appBatch ← topUp ksid link (number - keys.length) sizeBits
  let otks ← tryCatch (generate ksid link sizeBits number 0) fun e => do
    if let .fault _ := e then
      if let some b := appBatch then engine (EStateM.attempt (Engine.undoBatch ksid b))
    throw e
  let keys := keys ++ (appBatch.map handedOut).getD []
  let consumed := (appBatch.map (·.consumed)).getD [] ++ otks.consumed
  let rows := otks.rows ksid true (← wallSecs)
  let forwards ← lift ((keys.zip otks.issued).mapM fun ((keyId, key), otk) => do
    let cipher ← Relay.wrap key otk.material
    pure (Action.callKme next (.relayForward ksid keyId otk.keyId cipher sizeBits) true))
  pure { reply := .ready (.keys (containers keys)),
         actions := .callKme next (.syncKeys link rows consumed) true :: forwards,
         discardOnFailure := (appBatch.map (keptOf ksid)).getD [] }

/-- Picks the link for keys served by one node: the first confirmed link, by id, that has the
bytes; failing that, the shortage of the richest one. -/
def pickLink (pool : Pool) (needed : Nat) :
    List (LinkId × KmeId) → Option (LinkId × Nat) → EngineM (Except Fault (LinkId × KmeId))
  | [], best => pure (.error (match best with
    | some (link, available) => .shortage link needed available
    | none => .invalid .noConfirmedLink))
  | (link, companion) :: rest, best => do
    let available ← Engine.available pool link
    if available ≥ needed then pure (.ok (link, companion))
    else
      let best := match best with
        | some (l, most) => if available > most then some (link, available) else some (l, most)
        | none => some (link, available)
      pickLink pool needed rest best

/-- Keys for two applications on one node, kept in the clear; the companion of the link used
only follows the consumption. -/
def localKeys (r : SessionRecord) (number sizeBits : Nat) : KmeM Plan := do
  let ksid := r.ksid
  let k ← current
  let confirmed := sortedBy (·.1.val)
    (k.links.values.filterMap fun s => s.record.companion.map (s.record.link, ·))
  let (link, companion) ← lift (← engine (pickLink k.pool (number * (sizeBits / 8)) confirmed none))
  let batch ← generate ksid link sizeBits number number
  pure { reply := .ready (.keys (containers (batch.stored.map fun k => (k.keyId, k.material)))),
         actions := [.callKme companion (.syncKeys link [] batch.consumed) true],
         discardOnFailure := keptOf ksid batch }

/-- Serves the master application's request for keys. -/
def encKeys (src dst : AppId) (number : Nat) (size : Option Nat) : KmeM Plan := do
  let r ← sessionByApps src dst
  let k ← current
  if r.kmeSrc ≠ k.id then fail (.invalid (.notMaster r.ksid r.kmeSrc))
  checkCount number
  let sizeBits ← lift (k.config.resolveKeySize size)
  match ← lift (r.role k.id) with
  | .direct none => localKeys r number sizeBits
  | .direct (some companion) => directKeys r companion number sizeBits
  | .first next => relayFirst r next number sizeBits
  | role => fail (.violation (.encryptAt r.ksid role))

/-- Serves the slave application's request for keys by id. -/
def decKeys (src dst : AppId) (keys : List KeyId) : KmeM Plan := do
  let r ← sessionByApps src dst
  let k ← current
  if r.kmeDst ≠ k.id then fail (.invalid (.notSlave r.ksid r.kmeDst))
  checkCount keys.length
  let replay ← match ← lift (r.role k.id) with
    | .direct (some _) => pure true
    | .direct none | .last _ => pure false
    | role => fail (.violation (.decryptAt r.ksid role))
  let materials ← engine (Engine.retrieve r.ksid keys replay)
  pure (Plan.answer (.keys (containers (keys.zip materials))))

/-- The state of a pair's session and the node's limits. -/
def status (src dst : AppId) : KmeM Plan := do
  let r ← sessionByApps src dst
  let stored ← engine (Engine.sessionKeyCount r.ksid)
  let c := (← current).config
  let report : StatusReport :=
    { ksid := r.ksid, src := src, dst := dst, keySize := c.defaultKeySize
      storedKeyCount := stored, maxKeyCount := c.maxKeyCount
      maxKeyPerRequest := c.maxKeysPerRequest, maxKeySize := c.maxKeySize
      minKeySize := c.minKeySize, maxSaeIdCount := c.maxSaeIdCount }
  pure (Plan.answer (.status report))

/-- Ends a session here and passes the close on to the neighbours other than the one it came
from; the master's node also tells the controller. -/
def closeSession (ksid : Ksid) (origin : Option KmeId) : KmeM Plan := do
  let k ← current
  let (sessions, removed) := k.sessions.remove ksid
  let some r := removed | fail (.noSession (.ksid ksid))
  change fun k => { k with sessions }
  records (Storage.deleteSession ksid)
  engine (Engine.purgeSession ksid)
  let toController : List Action :=
    if r.kmeSrc = k.id then [.callController (.closeConnection ksid) false] else []
  let toNeighbours : List Action := match r.role k.id with
    | .ok role => (role.neighbours.filter (some · ≠ origin)).map fun n =>
        .callKme n (.closeSession ksid (some k.id)) false
    | .error _ => []
  pure { Plan.ack with actions := toController ++ toNeighbours }

/-- Takes in a relayed key: a middle hop masks it again for the next one, the last hop keeps
it for the slave. -/
def relayForward (ksid : Ksid) (keyId otkId : KeyId) (cipher : String) (size : Nat) :
    KmeM Plan := do
  let k ← current
  let some r := k.sessions.get? ksid | fail (.noSession (.ksid ksid))
  let role ← lift (r.role k.id)
  match role with
  | .middle _ _ | .last _ => pure ()
  | _ => fail (.violation (.forwardAt ksid role))
  let otk ← engine (Engine.reconstruct ksid otkId)
  let key ← lift (Relay.unwrap cipher otk size)
  match role with
  | .middle _ next =>
    let link ← linkTo next
    let batch ← generate ksid link size 1 0
    let some fresh := batch.issued.head? | fail (.violation .emptyBatch)
    let masked ← lift (Relay.wrap key fresh.material)
    let rows := batch.rows ksid true (← wallSecs)
    pure ((Plan.ack.andThen (.callKme next (.syncKeys link rows batch.consumed) true)).andThen
      (.callKme next (.relayForward ksid keyId fresh.keyId masked size) true))
  | _ =>
    engine (Engine.storeLocal ksid [(keyId, key)])
    pure Plan.ack

/-- Handles a request. Requests for keys first delete the blocks that can go. -/
def handle : KmeRequest → KmeM Plan
  | .deliverBlock link block timestamp bytes => deliverBlock link block timestamp bytes
  | .openSession src dst qos master => openSession src dst qos master
  | .encKeys src dst number size => do
    sweepQuietly
    encKeys src dst number size
  | .decKeys src dst keys => do
    sweepQuietly
    decKeys src dst keys
  | .status src dst => status src dst
  | .closeSession ksid origin => closeSession ksid origin
  | .syncKeys link rows consumed => do
    engine (Engine.applySync link rows consumed)
    pure Plan.ack
  | .relayForward ksid keyId otkId cipher size => relayForward ksid keyId otkId cipher size
  | .assignSession r => assignSession r
  | .linkConfirmed link companion address => linkConfirmed link companion address

end Kme

end KeyRelay
