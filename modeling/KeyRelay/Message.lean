import KeyRelay.Key
import KeyRelay.Session

/-!
Messages. Every exchange is one request answered by one response; a failure travels as an
`ErrorReply`, so its kind survives every hop. Nodes serve applications, their link neighbours
and the controller; the controller serves nodes.
-/
namespace KeyRelay

/-- Session status as an application sees it. -/
structure StatusReport where
  ksid : Ksid
  src : AppId
  dst : AppId
  /-- Default key size, bits. -/
  keySize : Nat
  storedKeyCount : Nat
  maxKeyCount : Nat
  maxKeyPerRequest : Nat
  maxKeySize : Nat
  minKeySize : Nat
  maxSaeIdCount : Nat
deriving DecidableEq, Repr, Inhabited

/-- Requests a node serves. -/
inductive KmeRequest where
  /-- A new block of shared random bytes from the quantum channel. -/
  | deliverBlock (link : LinkId) (block : BlockId) (timestamp : Nat) (bytes : List UInt8)
  /-- An application registers one side of a connection. -/
  | openSession (src dst : AppId) (qos : Qos) (master : Bool)
  /-- The master fetches new keys, of the default size when none is named. -/
  | encKeys (src dst : AppId) (number : Nat) (size : Option Nat)
  /-- The slave fetches keys by id. -/
  | decKeys (src dst : AppId) (keys : List KeyId)
  | status (src dst : AppId)
  /-- Closes a session; `origin` is the neighbour that forwarded the close. -/
  | closeSession (ksid : Ksid) (origin : Option KmeId)
  /-- The companion's rows to keep and every span it consumed. -/
  | syncKeys (link : LinkId) (rows : List KeyRow) (consumed : List Span)
  /-- A relayed key masked by a one-time key synced before. -/
  | relayForward (ksid : Ksid) (keyId otkId : KeyId) (cipher : String) (size : Nat)
  /-- The controller puts this node on a new session's path. -/
  | assignSession (record : SessionRecord)
  /-- The controller saw both ends of a link register. -/
  | linkConfirmed (link : LinkId) (companion : KmeId) (address : String)
deriving Repr, Inhabited

/-- The short name of a request. -/
def KmeRequest.name : KmeRequest → String
  | .deliverBlock .. => "deliver_block"
  | .openSession .. => "open_session"
  | .encKeys .. => "enc_keys"
  | .decKeys .. => "dec_keys"
  | .status .. => "status"
  | .closeSession .. => "close_session"
  | .syncKeys .. => "sync_keys"
  | .relayForward .. => "relay_forward"
  | .assignSession .. => "assign_session"
  | .linkConfirmed .. => "link_confirmed"

/-- Replies of a node. -/
inductive KmeResponse where
  | ack
  | session (r : Registration)
  | keys (keys : List KeyContainer)
  | status (report : StatusReport)
  | error (reply : ErrorReply)
deriving Repr, Inhabited

/-- Requests the controller serves, with rates in `R`. -/
inductive ControllerRequest (R : Type) where
  | registerKme (address : String)
  /-- One end of a link saw its first block. -/
  | newLink (link : LinkId) (kme : KmeId) (rate : R) (ttlSecs : Nat)
  | updateLink (link : LinkId) (rate : R)
  | registerApp (src dst : AppId) (kme : KmeId) (qos : Qos) (master : Bool)
  /-- The first hop closed a session. -/
  | closeConnection (ksid : Ksid)
deriving Repr, Inhabited

/-- The short name of a request. -/
def ControllerRequest.name {R : Type} : ControllerRequest R → String
  | .registerKme .. => "register_kme"
  | .newLink .. => "new_link"
  | .updateLink .. => "update_link"
  | .registerApp .. => "register_app"
  | .closeConnection .. => "close_connection"

/-- Replies of the controller. -/
inductive ControllerResponse where
  | ack
  | kmeRegistered (id : KmeId)
  | session (r : Registration)
  | error (reply : ErrorReply)
deriving Repr, Inhabited

end KeyRelay
