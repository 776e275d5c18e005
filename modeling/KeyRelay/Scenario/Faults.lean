import KeyRelay.Scenario.Steps
import KeyRelay.Transport
import KeyRelay.Store.Error
import KeyRelay.Wire.Layout

/-!
Scenarios of faults: a fault built from its parts, its code, text and fatality, the reply
that carries it, and the fault that the reply becomes at the receiving end.
-/
namespace KeyRelay.Scenario

/-- A fault kind in its wire layout: the name of a unit variant. -/
def faultKind : Json → Run FaultKind :=
  wire Wire.Layout.errorKind fun
    | .unitVariant n => FaultKind.ofName? n
    | _ => none

/-- A peer: `"controller"`, or anything else holding the id of a node under `kme`. -/
def peer (j : Json) : Run Peer :=
  match j with
  | .str "controller" => pure .controller
  | j => do pure (.kme (← field j "kme" ident))

/-- The single member of a tagged object. -/
def tagged (j : Json) : Run (String × Json) :=
  match j with
  | .str s => pure (s, .null)
  | .obj [(k, v)] => pure (k, v)
  | _ => bad "expected a one-key object"

/-- A reason for refusing a path: the texts `NoRoute` and `TopologyIncomplete`, or anything
else holding the edge's figures under `Capacity`. -/
def rejectReason (j : Json) : Run RejectReason :=
  match j with
  | .str "NoRoute" => pure .noRoute
  | .str "TopologyIncomplete" => pure .topologyIncomplete
  | j => do
    let c ← need j "Capacity"
    pure (.capacity (← field c "from" ident) (← field c "to" ident) (← field c "requested" real)
      (← field c "headroom" real))

/-- A fault given by its cause and arguments. -/
def fault (j : Json) : Run Fault := do
  let (name, a) ← tagged j
  match name with
  | "BlockNotFound" =>
    pure (.shortage (← field a "link_id" ident) (← field a "requested" u64)
      (← field a "available" u64))
  | "BlockEvicted" => pure (.evicted (← field a "block_id" ident))
  | "LinkNotFound" => pure (.noLink (← field a "companion" ident))
  | "SessionNotFound" =>
    match a.present? "ksid" with
    | some k => pure (.noSession (.ksid (← ident k)))
    | none => pure (.noSession (.apps (← field a "src" ident) (← field a "dst" ident)))
  | "KeyNotFound" => pure (.noKey (← field a "ksid" ident) (← field a "key_id" ident))
  | "PathRejected" =>
    pure (.rejected (← field a "src" ident) (← field a "dst" ident) (← field a "reason" rejectReason))
  | "PeerUnreachable" => pure (.unreachable (← field a "peer" peer) (← field a "reason" text))
  | "ProtocolViolation" => pure (.violation (.stated (← text a)))
  | "InvalidRequest" => pure (.invalid (.stated (← text a)))
  | "Storage" => pure (.storage (← text a))
  | "Remote" => pure (.remote (← field a "kind" faultKind) (← field a "message" text))
  | other => bad ("bad error " ++ other)

/-- A transport failure. -/
def transportError (j : Json) : Run TransportError := do
  let (name, a) ← tagged j
  match name with
  | "UnknownPeer" => pure (.unknownPeer (← peer a))
  | "Connect" => pure (.connect (← text a))
  | "Stream" => pure (.stream (← text a))
  | "Codec" => pure (.codec (← text a))
  | other => bad ("bad transport error " ++ other)

/-- A store failure. -/
def storeError (j : Json) : Run StoreError := do
  let (name, a) ← tagged j
  match name with
  | "NotFound" => pure (.notFound (← field a "entity" text) (← field a "id" text))
  | "Conflict" => pure (.conflict (← text a))
  | "Serialization" => pure (.serialization (← text a))
  | "Io" => pure (.io (← text a))
  | other => bad ("bad storage error " ++ other)

/-- A reply as an answer. -/
def replyJson (r : ErrorReply) : Json :=
  .obj [("kind", .str r.kind.name), ("message", .str r.message)]

/-- A fault described: cause, code, text, fatality, its reply and the fault the reply becomes. -/
def faultReport (f : Fault) : List (String × Json) :=
  let remote := f.reply.fault
  [("variant", .str f.name), ("kind", .str f.kind.code), ("message", .str f.message),
   ("is_fatal", .bool f.fatal), ("reply", replyJson f.reply),
   ("remote", .obj [("message", .str remote.message), ("kind", .str remote.kind.code),
     ("is_fatal", .bool remote.fatal)])]

/-- Builds a fault and describes it. The first of the forms `qkd`, `transport`, `storage`,
`reject`, `peer` and `kind` that is present and not null is the one used. -/
def faultScenario (j : Json) : Run Json := do
  if let some q := j.present? "qkd" then
    return .obj (faultReport (← fault q))
  if let some t := j.present? "transport" then
    let e ← transportError t
    let p ← field j "peer" peer
    return .obj (faultReport (e.unreachable p) ++ [("transport_display", .str e.describe)])
  if let some s := j.present? "storage" then
    let e ← storeError s
    return .obj (faultReport e.toFault ++ [("storage_display", .str e.describe)])
  if let some r := j.present? "reject" then
    return .single "display" (.str (← rejectReason r).describe)
  if let some p := j.present? "peer" then
    return .single "display" (.str (← peer p).describe)
  if let some k := j.present? "kind" then
    return .single "display" (.str (← faultKind k).code)
  bad "error needs qkd, transport, storage, reject, peer or kind"

end KeyRelay.Scenario
