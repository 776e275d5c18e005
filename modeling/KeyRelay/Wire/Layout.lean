import KeyRelay.Wire.Value
import KeyRelay.Message

/-!
The layout of every message type in the data model: its shape, its value, and, for the types
that arrive from outside, the way back from a value of its shape. Identifiers are bare 128-bit
numbers, byte strings are sequences of bytes, and the field names are the wire's snake-case
names. `ofValue?` is total on values read against the type's shape.
-/
namespace KeyRelay

namespace Wire

/-- A 64-bit word: times, lengths and offsets. -/
def u64 : Shape := .word 64
/-- A 32-bit word: key sizes and counts. -/
def u32 : Shape := .word 32
/-- A byte string. -/
def byteSeq : Shape := .seq (.word 8)

namespace Value

/-- The number of a number value. -/
def nat? : Value → Option Nat
  | .nat n => some n
  | _ => none

/-- An identifier. -/
def ident? (v : Value) : Option Ident := v.nat?.map Ident.mk

def bool? : Value → Option Bool
  | .bool b => some b
  | _ => none

def text? : Value → Option String
  | .text s => some s
  | _ => none

/-- A float of a value, as a float. -/
def real? : Value → Option Float
  | .real bits => some (Float.ofBits bits)
  | _ => none

def seq? : Value → Option (List Value)
  | .seq items => some items
  | _ => none

/-- The fields of a record or of a struct variant. -/
def record? : Value → Option (List (String × Value))
  | .record fields => some fields
  | _ => none

/-- A byte string. -/
def bytes? (v : Value) : Option (List UInt8) := do
  (← v.seq?).mapM fun b => b.nat?.map Nat.toUInt8

/-- An optional value. -/
def opt? {α : Type} (f : Value → Option α) : Value → Option (Option α)
  | .null => some none
  | v => (f v).map some

end Value

/-- A field of a record, read by `f`. -/
def at? {α : Type} (fields : List (String × Value)) (name : String) (f : Value → Option α) :
    Option α :=
  field? fields name >>= f

/-- An identifier value. -/
def ident (i : Ident) : Value := .nat i.val

/-- A byte string value. -/
def bytes (b : List UInt8) : Value := .seq (b.map fun x => .nat x.toNat)

/-- An optional value. -/
def opt {α : Type} (f : α → Value) : Option α → Value
  | some a => f a
  | none => .null

/-- A float value. -/
def real (x : Float) : Value := .real x.toBits

namespace Layout

def span : Shape :=
  .record "Instruction" (.ofList [("block_id", .wide), ("start", .machineWord),
    ("end", .machineWord)])

def block : Shape :=
  .record "Block" (.ofList [("id", .wide), ("link_id", .wide), ("timestamp", u64),
    ("arrival", u64), ("bytes", byteSeq), ("offset", .machineWord), ("in_use", u32)])

def keyRow : Shape :=
  .record "KeyRow" (.ofList [("key_id", .wide), ("ksid", .wide), ("link_id", .wide),
    ("instructions", .seq span), ("relay", .bool), ("created_at", u64)])

def keyContainer : Shape :=
  .record "KeyContainer" (.ofList [("key_id", .wide), ("key", .text)])

def statusReport : Shape :=
  .record "StatusReport" (.ofList [("ksid", .wide), ("src", .wide), ("dst", .wide),
    ("key_size", u32), ("stored_key_count", .machineWord), ("max_key_count", .machineWord),
    ("max_key_per_request", u32), ("max_key_size", u32), ("min_key_size", u32),
    ("max_sae_id_count", u32)])

def qos : Shape :=
  .record "Qos" (.ofList [("key_chunk_size", u32), ("request_interval_ms", u64)])

def registration : Shape :=
  .enum "Registration" (.newtype "Registered" .wide (.unit "Pending" .nil))

def sessionRecord : Shape :=
  .record "SessionRecord" (.ofList [("ksid", .wide), ("src", .wide), ("dst", .wide),
    ("kme_src", .wide), ("kme_dst", .wide), ("qos", qos), ("path", .seq .wide),
    ("created_at", u64)])

def errorKind : Shape :=
  .enum "ErrorKind" (FaultKind.all.foldr (fun k rest => .unit k.name rest) .nil)

def errorReply : Shape :=
  .record "ErrorReply" (.ofList [("kind", errorKind), ("message", .text)])

def linkRecord : Shape :=
  .record "LinkRecord" (.ofList [("link_id", .wide), ("companion", .option .wide),
    ("address", .option .text), ("rate", .real), ("ttl_secs", u64), ("created_at", u64)])

def localKey : Shape :=
  .record "LocalKey" (.ofList [("ksid", .wide), ("key_id", .wide), ("material", byteSeq),
    ("created_at", u64)])

def peer : Shape := .enum "Peer" (.newtype "Kme" .wide (.unit "Controller" .nil))

def material : Shape := byteSeq

def kmeRequest : Shape :=
  .enum "KmeRequest"
    (.struct "DeliverBlock" (.ofList [("link_id", .wide), ("block_id", .wide),
      ("timestamp", u64), ("bytes", byteSeq)])
    (.struct "OpenSession" (.ofList [("src", .wide), ("dst", .wide), ("qos", qos),
      ("master", .bool)])
    (.struct "EncKeys" (.ofList [("src", .wide), ("dst", .wide), ("number", u32),
      ("size", .option u32)])
    (.struct "DecKeys" (.ofList [("src", .wide), ("dst", .wide), ("key_ids", .seq .wide)])
    (.struct "Status" (.ofList [("src", .wide), ("dst", .wide)])
    (.struct "CloseSession" (.ofList [("ksid", .wide), ("from", .option .wide)])
    (.struct "SyncKeys" (.ofList [("link_id", .wide), ("rows", .seq keyRow),
      ("consumed", .seq span)])
    (.struct "RelayForward" (.ofList [("ksid", .wide), ("key_id", .wide), ("otk_id", .wide),
      ("cipher", .text), ("size", u32)])
    (.struct "AssignSession" (.ofList [("record", sessionRecord)])
    (.struct "LinkConfirmed" (.ofList [("link_id", .wide), ("companion", .wide),
      ("address", .text)])
    .nil))))))))))

def kmeResponse : Shape :=
  .enum "KmeResponse"
    (.unit "Ack" (.newtype "Session" registration (.newtype "Keys" (.seq keyContainer)
    (.newtype "Status" statusReport (.newtype "Error" errorReply .nil)))))

def controllerRequest : Shape :=
  .enum "ControllerRequest"
    (.struct "RegisterKme" (.ofList [("address", .text)])
    (.struct "NewLink" (.ofList [("link_id", .wide), ("kme", .wide), ("rate", .real),
      ("ttl_secs", u64)])
    (.struct "UpdateLink" (.ofList [("link_id", .wide), ("rate", .real)])
    (.struct "RegisterApp" (.ofList [("src", .wide), ("dst", .wide), ("kme", .wide),
      ("qos", qos), ("master", .bool)])
    (.struct "CloseConnection" (.ofList [("ksid", .wide)])
    .nil)))))

def controllerResponse : Shape :=
  .enum "ControllerResponse"
    (.unit "Ack" (.newtype "KmeRegistered" .wide (.newtype "Session" registration
    (.newtype "Error" errorReply .nil))))

/-- The shape of a message type by its name. -/
def byName? : String → Option Shape
  | "KmeRequest" => some kmeRequest
  | "KmeResponse" => some kmeResponse
  | "ControllerRequest" => some controllerRequest
  | "ControllerResponse" => some controllerResponse
  | "KeyRow" => some keyRow
  | "SessionRecord" => some sessionRecord
  | "Instruction" => some span
  | "Block" => some block
  | "ErrorReply" => some errorReply
  | "ErrorKind" => some errorKind
  | "LinkRecord" => some linkRecord
  | "LocalKey" => some localKey
  | "KeyContainer" => some keyContainer
  | "StatusReport" => some statusReport
  | "Qos" => some qos
  | "Registration" => some registration
  | "KeyMaterial" => some material
  | "Peer" => some peer
  | _ => none

end Layout

end Wire

open Wire

namespace Span

def toValue (s : Span) : Value :=
  .record [("block_id", ident s.block), ("start", .nat s.start), ("end", .nat s.stop)]

def ofValue? (v : Value) : Option Span := do
  let fs ← v.record?
  pure ⟨← at? fs "block_id" Value.ident?, ← at? fs "start" Value.nat?, ← at? fs "end" Value.nat?⟩

end Span

def KeyRow.toValue (r : KeyRow) : Value :=
  .record [("key_id", ident r.keyId), ("ksid", ident r.ksid), ("link_id", ident r.link),
    ("instructions", .seq (r.spans.map Span.toValue)), ("relay", .bool r.relay),
    ("created_at", .nat r.createdAt)]

def KeyRow.ofValue? (v : Value) : Option KeyRow := do
  let fs ← v.record?
  pure {
    keyId := ← at? fs "key_id" Value.ident?
    ksid := ← at? fs "ksid" Value.ident?
    link := ← at? fs "link_id" Value.ident?
    spans := ← (← at? fs "instructions" Value.seq?).mapM Span.ofValue?
    relay := ← at? fs "relay" Value.bool?
    createdAt := ← at? fs "created_at" Value.nat? }

def KeyContainer.toValue (k : KeyContainer) : Value :=
  .record [("key_id", ident k.keyId), ("key", .text k.key)]

def StatusReport.toValue (s : StatusReport) : Value :=
  .record [("ksid", ident s.ksid), ("src", ident s.src), ("dst", ident s.dst),
    ("key_size", .nat s.keySize), ("stored_key_count", .nat s.storedKeyCount),
    ("max_key_count", .nat s.maxKeyCount), ("max_key_per_request", .nat s.maxKeyPerRequest),
    ("max_key_size", .nat s.maxKeySize), ("min_key_size", .nat s.minKeySize),
    ("max_sae_id_count", .nat s.maxSaeIdCount)]

def Qos.toValue (q : Qos) : Value :=
  .record [("key_chunk_size", .nat q.keyChunkSize),
    ("request_interval_ms", .nat q.requestIntervalMs)]

def Qos.ofValue? (v : Value) : Option Qos := do
  let fs ← v.record?
  pure ⟨← at? fs "key_chunk_size" Value.nat?, ← at? fs "request_interval_ms" Value.nat?⟩

def Registration.toValue : Registration → Value
  | .registered k => .newtypeVariant "Registered" (ident k)
  | .pending => .unitVariant "Pending"

def SessionRecord.toValue (r : SessionRecord) : Value :=
  .record [("ksid", ident r.ksid), ("src", ident r.src), ("dst", ident r.dst),
    ("kme_src", ident r.kmeSrc), ("kme_dst", ident r.kmeDst), ("qos", r.qos.toValue),
    ("path", .seq (r.path.map ident)), ("created_at", .nat r.createdAt)]

def SessionRecord.ofValue? (v : Value) : Option SessionRecord := do
  let fs ← v.record?
  pure {
    ksid := ← at? fs "ksid" Value.ident?
    src := ← at? fs "src" Value.ident?
    dst := ← at? fs "dst" Value.ident?
    kmeSrc := ← at? fs "kme_src" Value.ident?
    kmeDst := ← at? fs "kme_dst" Value.ident?
    qos := ← at? fs "qos" Qos.ofValue?
    path := ← (← at? fs "path" Value.seq?).mapM Value.ident?
    createdAt := ← at? fs "created_at" Value.nat? }

def ErrorReply.toValue (e : ErrorReply) : Value :=
  .record [("kind", .unitVariant e.kind.name), ("message", .text e.message)]

def Peer.toValue : Peer → Value
  | .kme id => .newtypeVariant "Kme" (ident id)
  | .controller => .unitVariant "Controller"

def KmeRequest.toValue : KmeRequest → Value
  | .deliverBlock link block timestamp b =>
    .structVariant "DeliverBlock" [("link_id", ident link), ("block_id", ident block),
      ("timestamp", .nat timestamp), ("bytes", bytes b)]
  | .openSession src dst qos master =>
    .structVariant "OpenSession" [("src", ident src), ("dst", ident dst),
      ("qos", qos.toValue), ("master", .bool master)]
  | .encKeys src dst number size =>
    .structVariant "EncKeys" [("src", ident src), ("dst", ident dst), ("number", .nat number),
      ("size", opt .nat size)]
  | .decKeys src dst keys =>
    .structVariant "DecKeys" [("src", ident src), ("dst", ident dst),
      ("key_ids", .seq (keys.map ident))]
  | .status src dst => .structVariant "Status" [("src", ident src), ("dst", ident dst)]
  | .closeSession ksid origin =>
    .structVariant "CloseSession" [("ksid", ident ksid), ("from", opt ident origin)]
  | .syncKeys link rows consumed =>
    .structVariant "SyncKeys" [("link_id", ident link),
      ("rows", .seq (rows.map KeyRow.toValue)), ("consumed", .seq (consumed.map Span.toValue))]
  | .relayForward ksid keyId otkId cipher size =>
    .structVariant "RelayForward" [("ksid", ident ksid), ("key_id", ident keyId),
      ("otk_id", ident otkId), ("cipher", .text cipher), ("size", .nat size)]
  | .assignSession record => .structVariant "AssignSession" [("record", record.toValue)]
  | .linkConfirmed link companion address =>
    .structVariant "LinkConfirmed" [("link_id", ident link), ("companion", ident companion),
      ("address", .text address)]

def KmeRequest.ofValue? : Value → Option KmeRequest
  | .structVariant name fs =>
    match name with
    | "DeliverBlock" => do
      pure (.deliverBlock (← at? fs "link_id" Value.ident?) (← at? fs "block_id" Value.ident?)
        (← at? fs "timestamp" Value.nat?) (← at? fs "bytes" Value.bytes?))
    | "OpenSession" => do
      pure (.openSession (← at? fs "src" Value.ident?) (← at? fs "dst" Value.ident?)
        (← at? fs "qos" Qos.ofValue?) (← at? fs "master" Value.bool?))
    | "EncKeys" => do
      pure (.encKeys (← at? fs "src" Value.ident?) (← at? fs "dst" Value.ident?)
        (← at? fs "number" Value.nat?) (← at? fs "size" (Value.opt? Value.nat?)))
    | "DecKeys" => do
      pure (.decKeys (← at? fs "src" Value.ident?) (← at? fs "dst" Value.ident?)
        (← (← at? fs "key_ids" Value.seq?).mapM Value.ident?))
    | "Status" => do
      pure (.status (← at? fs "src" Value.ident?) (← at? fs "dst" Value.ident?))
    | "CloseSession" => do
      pure (.closeSession (← at? fs "ksid" Value.ident?) (← at? fs "from" (Value.opt? Value.ident?)))
    | "SyncKeys" => do
      pure (.syncKeys (← at? fs "link_id" Value.ident?)
        (← (← at? fs "rows" Value.seq?).mapM KeyRow.ofValue?)
        (← (← at? fs "consumed" Value.seq?).mapM Span.ofValue?))
    | "RelayForward" => do
      pure (.relayForward (← at? fs "ksid" Value.ident?) (← at? fs "key_id" Value.ident?)
        (← at? fs "otk_id" Value.ident?) (← at? fs "cipher" Value.text?)
        (← at? fs "size" Value.nat?))
    | "AssignSession" => do pure (.assignSession (← at? fs "record" SessionRecord.ofValue?))
    | "LinkConfirmed" => do
      pure (.linkConfirmed (← at? fs "link_id" Value.ident?) (← at? fs "companion" Value.ident?)
        (← at? fs "address" Value.text?))
    | _ => none
  | _ => none

def KmeResponse.toValue : KmeResponse → Value
  | .ack => .unitVariant "Ack"
  | .session r => .newtypeVariant "Session" r.toValue
  | .keys ks => .newtypeVariant "Keys" (.seq (ks.map KeyContainer.toValue))
  | .status s => .newtypeVariant "Status" s.toValue
  | .error e => .newtypeVariant "Error" e.toValue

def ControllerRequest.toValue : ControllerRequest Float → Value
  | .registerKme address => .structVariant "RegisterKme" [("address", .text address)]
  | .newLink link kme rate ttl =>
    .structVariant "NewLink" [("link_id", ident link), ("kme", ident kme), ("rate", real rate),
      ("ttl_secs", .nat ttl)]
  | .updateLink link rate =>
    .structVariant "UpdateLink" [("link_id", ident link), ("rate", real rate)]
  | .registerApp src dst kme qos master =>
    .structVariant "RegisterApp" [("src", ident src), ("dst", ident dst), ("kme", ident kme),
      ("qos", qos.toValue), ("master", .bool master)]
  | .closeConnection ksid => .structVariant "CloseConnection" [("ksid", ident ksid)]

def ControllerResponse.toValue : ControllerResponse → Value
  | .ack => .unitVariant "Ack"
  | .kmeRegistered id => .newtypeVariant "KmeRegistered" (ident id)
  | .session r => .newtypeVariant "Session" r.toValue
  | .error e => .newtypeVariant "Error" e.toValue

end KeyRelay
