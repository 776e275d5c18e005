import KeyRelay.Role
import KeyRelay.Text.Base64
import KeyRelay.Cbor.Head
import KeyRelay.Decimal.Text

/-!
Faults of the key network and their texts.

A `Fault` says why an operation failed. Its `kind` is the stable code that crosses the wire in
an `ErrorReply`, so a failure deep in a relay chain reaches the application with the kind it
was raised with; a reply received from a peer becomes a `remote` fault of the same kind.
Protocol violations (`Violation`) and refused requests (`Refusal`) are named by their cause;
each cause has one text. A fault is fatal when it shows a defect rather than a shortage or a
caller's mistake: an evicted block, a protocol violation, or a peer reporting one.

`Abort` is different: it stops the whole program, as an arithmetic overflow or a negative
duration does.
-/
namespace KeyRelay

/-- The stable code of a fault. -/
inductive FaultKind where
  | blockNotFound
  | sessionNotFound
  | pathRejected
  | peerUnreachable
  | protocolViolation
  | invalidRequest
  | storage
deriving DecidableEq, Repr, Inhabited

namespace FaultKind

/-- Every kind, in order. -/
def all : List FaultKind :=
  [.blockNotFound, .sessionNotFound, .pathRejected, .peerUnreachable, .protocolViolation,
    .invalidRequest, .storage]

/-- The wire code: `block_not_found`, ... -/
def code : FaultKind → String
  | .blockNotFound => "block_not_found"
  | .sessionNotFound => "session_not_found"
  | .pathRejected => "path_rejected"
  | .peerUnreachable => "peer_unreachable"
  | .protocolViolation => "protocol_violation"
  | .invalidRequest => "invalid_request"
  | .storage => "storage"

/-- The name of the kind in messages: `BlockNotFound`, ... -/
def name : FaultKind → String
  | .blockNotFound => "BlockNotFound"
  | .sessionNotFound => "SessionNotFound"
  | .pathRejected => "PathRejected"
  | .peerUnreachable => "PeerUnreachable"
  | .protocolViolation => "ProtocolViolation"
  | .invalidRequest => "InvalidRequest"
  | .storage => "Storage"

/-- The kind of a name. -/
def ofName? (s : String) : Option FaultKind := all.find? (·.name == s)

end FaultKind

/-- The far end of a failed call. -/
inductive Peer where
  | kme (id : KmeId)
  | controller
deriving DecidableEq, Repr

/-- `kme <id>` or `controller`. -/
def Peer.describe : Peer → String
  | .kme id => "kme " ++ toString id
  | .controller => "controller"

/-- How a session was looked up. -/
inductive SessionRef where
  | ksid (ksid : Ksid)
  | apps (src dst : AppId)
deriving DecidableEq, Repr

/-- `ksid <id>` or `apps <src> -> <dst>`. -/
def SessionRef.describe : SessionRef → String
  | .ksid k => "ksid " ++ toString k
  | .apps src dst => "apps " ++ toString src ++ " -> " ++ toString dst

/-- Why admission refused a path. -/
inductive RejectReason where
  /-- The endpoints are not connected. -/
  | noRoute
  /-- No path table exists yet. -/
  | topologyIncomplete
  /-- One edge cannot carry the requested rate (bits per second). -/
  | capacity (src dst : KmeId) (requested headroom : Float)
deriving Repr

/-- Rates in reasons are shown with one decimal place. -/
def rateText (rate : Float) : String := Decimal.fixed 1 rate.toBits

/-- The text of a reason. -/
def RejectReason.describe : RejectReason → String
  | .noRoute => "no route"
  | .topologyIncomplete => "topology incomplete"
  | .capacity src dst requested headroom =>
    "edge " ++ toString src ++ " - " ++ toString dst ++ " has " ++ rateText headroom ++
      " b/s headroom, " ++ rateText requested ++ " b/s requested"

/-- Why a configuration is inconsistent. -/
inductive ConfigError where
  /-- A key size that is not a positive multiple of eight bits. -/
  | notByteAligned (bits : Nat)
  | keySizeOrder (min default max : Nat)
  /-- A duration that must be positive, by its name. -/
  | zeroDuration (name : String)
deriving DecidableEq, Repr

/-- The name of a configuration fault: `NotByteAligned`, ... -/
def ConfigError.name : ConfigError → String
  | .notByteAligned _ => "NotByteAligned"
  | .keySizeOrder _ _ _ => "KeySizeOrder"
  | .zeroDuration _ => "ZeroDuration"

/-- The text of a configuration fault. -/
def ConfigError.message : ConfigError → String
  | .notByteAligned n => s!"key size {n} is not a multiple of 8 bits"
  | .keySizeOrder min default max =>
    s!"key size bounds out of order: min {min}, default {default}, max {max}"
  | .zeroDuration name => name ++ " must be non-zero"

/-- A malformed exchange between nodes, by its cause. -/
inductive Violation where
  | emptyRange (block : BlockId) (start stop : Nat)
  | outsideBlock (block : BlockId) (start stop len : Nat)
  | lengthMismatch (a b : Nat)
  | badEncoding (e : Base64.Error)
  | undecodable (e : Cbor.ReadError)
  | notOnPath (kme : KmeId) (ksid : Ksid)
  | cipherSize (bits announced : Nat)
  | encryptAt (ksid : Ksid) (role : Role)
  | decryptAt (ksid : Ksid) (role : Role)
  | forwardAt (ksid : Ksid) (role : Role)
  | emptyBatch
  | foreignRow (key link owner : Ident)
  | emptyRow (key : KeyId)
  | unconsumed (key : KeyId)
  | foreignBlock (block owner link : Ident)
  /-- The controller's answer to a registration, as shown. -/
  | registrationAnswer (shown : String)
  /-- The controller's answer to a node's registration, as shown. -/
  | enrolmentAnswer (shown : String)
  | stated (text : String)
deriving Repr

/-- The text of a violation. -/
def Violation.message : Violation → String
  | .emptyRange b s e => s!"instruction on block {b} has empty range [{s}, {e})"
  | .outsideBlock b s e n => s!"range [{s}, {e}) outside block {b} of {n} bytes"
  | .lengthMismatch a b => s!"xor operands differ in length: {a} vs {b} bytes"
  | .badEncoding e => "bad key encoding: " ++ e.message
  | .undecodable e => "decode failed: " ++ e.message
  | .notOnPath kme ksid => s!"kme {kme} is not on the path of {ksid}"
  | .cipherSize bits announced => s!"relayed cipher is {bits} bits, announced {announced}"
  | .encryptAt ksid role => s!"enc_keys on {ksid} at non-first hop " ++ role.describe
  | .decryptAt ksid role => s!"dec_keys on {ksid} at non-last hop " ++ role.describe
  | .forwardAt ksid role => s!"relay forward for {ksid} at " ++ role.describe
  | .emptyBatch => "empty one-time key batch"
  | .foreignRow key link owner => s!"key {key} synced on link {link} but belongs to {owner}"
  | .emptyRow key => s!"key {key} has no instructions"
  | .unconsumed key => s!"key {key} uses a range the companion did not consume"
  | .foreignBlock block owner link => s!"block {block} is on link {owner}, not {link}"
  | .registrationAnswer shown => "controller answered registration with " ++ shown
  | .enrolmentAnswer shown => "controller answered kme registration with " ++ shown
  | .stated text => text

/-- A request the service will not carry out, by its cause. -/
inductive Refusal where
  | partialBytes (bits : Nat)
  | sizeRange (bits min max : Nat)
  | config (e : ConfigError)
  | keyCount (n max : Nat)
  | notMaster (ksid : Ksid) (kme : KmeId)
  | notSlave (ksid : Ksid) (kme : KmeId)
  | noConfirmedLink
  | keyBits (bits : Nat)
  | repeated (key : KeyId)
  | zeroLength
  | unregistered (kme : KmeId)
  | loop (link : LinkId) (kme : KmeId)
  | linked (a b : KmeId) (link : LinkId)
  | unconfirmed (link : LinkId)
  | foreignLink (link : LinkId) (a b kme : KmeId)
  | stated (text : String)
deriving Repr

/-- The text of a refusal. -/
def Refusal.message : Refusal → String
  | .partialBytes n => s!"key size {n} is not whole bytes"
  | .sizeRange n min max => s!"key size {n} outside [{min}, {max}]"
  | .config e => e.message
  | .keyCount n max => s!"{n} keys requested, allowed 1..={max}"
  | .notMaster ksid kme => s!"master of {ksid} is attached to kme {kme}"
  | .notSlave ksid kme => s!"slave of {ksid} is attached to kme {kme}"
  | .noConfirmedLink => "kme has no confirmed link"
  | .keyBits n => s!"key size {n} bits"
  | .repeated key => s!"key {key} requested twice"
  | .zeroLength => "zero-length allocation"
  | .unregistered kme => s!"kme {kme} is not registered"
  | .loop link kme => s!"link {link} loops on kme {kme}"
  | .linked a b link => s!"kmes {a} and {b} are already linked by {link}"
  | .unconfirmed link => s!"link {link} is not confirmed"
  | .foreignLink link a b kme => s!"link {link} joins {a} and {b}, not {kme}"
  | .stated text => text

/-- Why an operation of the network failed. -/
inductive Fault where
  /-- The link's pool cannot supply the requested bytes. -/
  | shortage (link : LinkId) (requested available : Nat)
  /-- A block a key refers to is gone. -/
  | evicted (block : BlockId)
  /-- No link to the expected neighbour. -/
  | noLink (companion : KmeId)
  | noSession (ref : SessionRef)
  | noKey (ksid : Ksid) (key : KeyId)
  | rejected (src dst : KmeId) (reason : RejectReason)
  | unreachable (peer : Peer) (reason : String)
  | violation (v : Violation)
  | invalid (r : Refusal)
  | storage (text : String)
  /-- A peer answered with an error reply. -/
  | remote (kind : FaultKind) (message : String)
deriving Repr

namespace Fault

/-- The wire code of a fault. -/
def kind : Fault → FaultKind
  | .shortage .. | .evicted _ | .noLink _ => .blockNotFound
  | .noSession _ => .sessionNotFound
  | .noKey .. | .invalid _ => .invalidRequest
  | .rejected .. => .pathRejected
  | .unreachable .. => .peerUnreachable
  | .violation _ => .protocolViolation
  | .storage _ => .storage
  | .remote k _ => k

/-- A fault that shows a defect. -/
def fatal : Fault → Bool
  | .evicted _ | .violation _ => true
  | .remote k _ => k == .protocolViolation
  | _ => false

/-- The text of a fault. -/
def message : Fault → String
  | .shortage link requested available =>
    s!"insufficient inventory on link {link}: wanted {requested} bytes, {available} available"
  | .evicted block => s!"block {block} is no longer resident"
  | .noLink companion => s!"no link to companion {companion}"
  | .noSession ref => "unknown session (" ++ ref.describe ++ ")"
  | .noKey ksid key => s!"no key {key} on session {ksid}"
  | .rejected src dst reason => s!"path {src} -> {dst} rejected: " ++ reason.describe
  | .unreachable peer reason => peer.describe ++ " unreachable: " ++ reason
  | .violation v => "protocol violation: " ++ v.message
  | .invalid r => "invalid request: " ++ r.message
  | .storage text => "storage failure: " ++ text
  | .remote k text => k.code ++ " reported by peer: " ++ text

/-- The name of the cause class: `BlockNotFound`, `BlockEvicted`, ... -/
def name : Fault → String
  | .shortage .. => "BlockNotFound"
  | .evicted _ => "BlockEvicted"
  | .noLink _ => "LinkNotFound"
  | .noSession _ => "SessionNotFound"
  | .noKey .. => "KeyNotFound"
  | .rejected .. => "PathRejected"
  | .unreachable .. => "PeerUnreachable"
  | .violation _ => "ProtocolViolation"
  | .invalid _ => "InvalidRequest"
  | .storage _ => "Storage"
  | .remote .. => "Remote"

end Fault

/-- A fault as it travels to the caller. -/
structure ErrorReply where
  kind : FaultKind
  message : String
deriving DecidableEq, Repr

/-- The reply that reports a fault. -/
def Fault.reply (f : Fault) : ErrorReply := ⟨f.kind, f.message⟩

/-- The fault a received reply stands for. -/
def ErrorReply.fault (r : ErrorReply) : Fault := .remote r.kind r.message

/-- A stop of the whole program. -/
structure Abort where
  message : String
deriving Repr, DecidableEq

/-- An addition past the top of a machine word. -/
def Abort.addOverflow : Abort := ⟨"attempt to add with overflow"⟩

/-- A later instant subtracted from an earlier one. -/
def Abort.negativeDuration : Abort := ⟨"overflow when subtracting durations"⟩

/-- A buffer asked for more room than any single allocation may have. -/
def Abort.capacityOverflow : Abort := ⟨"capacity overflow"⟩

/-- How a computation stops short: with a fault it reports, or by stopping the program. -/
inductive Halt where
  | fault (f : Fault)
  | abort (a : Abort)
deriving Repr

/-- A stop of the program as a way to stop short. -/
def Halt.ofAbort {α : Type} : Except Abort α → Except Halt α
  | .ok a => .ok a
  | .error a => .error (.abort a)

/-- A fault as a way to stop short. -/
def Halt.ofFault {α : Type} : Except Fault α → Except Halt α
  | .ok a => .ok a
  | .error f => .error (.fault f)

end KeyRelay
