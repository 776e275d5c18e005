import KeyRelay.Kme
import KeyRelay.Scenario.Engines

/-!
Nodes with no network between them, driven step by step. The calls to other nodes that a
handled request asks for wait in a queue, oldest first, until a `pump` step hands each one to
the node it names; calls to the controller are only shown. Each answer carries the length of
the queue.
-/
namespace KeyRelay.Scenario

open Wire

/-- A node of the scenario: how it is opened, and the node once open. -/
structure Slot where
  id : KmeId
  config : KmeConfig
  /-- The records while the node is not open. -/
  storage : Storage
  node : Option Kme := none
  /-- The keys the node's latest plan would drop on a failed call. -/
  lastDiscard : List (Ksid × KeyId) := []
deriving Inhabited

/-- The records of a slot. -/
def Slot.records (s : Slot) : Storage := match s.node with
  | some k => k.storage
  | none => s.storage

/-- Nodes, their environment, the queue of calls between them, and the identifiers answered
so far. -/
structure Desk where
  env : Env
  slots : List Slot
  pending : List (KmeId × KmeRequest) := []
  refs : Refs := {}
deriving Inhabited

/-- A reply as an answer. -/
def planReplyJson : Reply → Json
  | .ready r => r.toValue.toJson
  | .fromController => .str "FromController"

/-- A call as an answer. -/
def actionJson : Action → Json
  | .callKme kme request required => .single "CallKme" (.obj [("kme", identJson kme),
      ("request", request.toValue.toJson), ("required", .bool required)])
  | .callController request required => .single "CallController" (.obj [
      ("request", request.toValue.toJson), ("required", .bool required)])
  | .learnAddress kme address => .single "LearnAddress" (.obj [("kme", identJson kme),
      ("address", .str address)])

/-- A plan as an answer. -/
def planJson (p : Plan) : Json :=
  .obj [("reply", planReplyJson p.reply), ("actions", .arr (p.actions.map actionJson)),
    ("discard_on_failure", .arr (p.discardOnFailure.map fun (s, k) => .arr [identJson s, identJson k]))]

/-- The answer for a node that is not open. -/
def notOpen : Json := .obj [("error", .str "NotOpen"), ("message", .str "driver failed to open")]

/-- The calls to other nodes of a plan. -/
def nodeCalls (p : Plan) : List (KmeId × KmeRequest) :=
  p.actions.filterMap fun
    | .callKme kme request _ => some (kme, request)
    | _ => none

/-- A node's request as the input gives it. -/
def kmeRequest : Json → Run KmeRequest := wire Layout.kmeRequest KmeRequest.ofValue?

/-- A link record as an answer. -/
def linkRecordJson (r : LinkRecord) : Json :=
  .obj [("link_id", identJson r.link), ("companion", Json.opt identJson r.companion),
    ("address", Json.opt Json.str r.address), ("rate", realJson r.rate),
    ("ttl_secs", .nat r.ttlSecs), ("created_at", .nat r.createdAt)]

/-- A node's state as the `inspect` step shows it, read without fault injection. -/
def inspectJson (k : Kme) : Json :=
  let data := k.storage.data
  let count (n : Nat) : Json := if k.storage.backend = .file then .null else .nat n
  let sessions := k.sessions.sorted.map fun r =>
    Json.obj [("record", recordJson r), ("stored_keys", .nat (data.countSessionKeys r.ksid))]
  let links := data.listLinks.filterMap fun r => (k.links.get? r.link).map (linkRecordJson ·.record)
  let blocks := data.listBlocks.map fun b => Json.obj [("id", identJson b.id),
    ("link_id", identJson b.link), ("timestamp", .nat b.timestamp), ("arrival", .nat b.arrival),
    ("len", .nat b.bytes.length), ("offset", .nat b.offset), ("in_use", .nat b.inUse)]
  .obj [("id", identJson k.id), ("sessions", .arr sessions), ("links", .arr links),
    ("blocks", .arr blocks), ("rows", count data.rows.size), ("locals", count data.locals.size),
    ("ops", Json.opt (fun c => .nat c.operations) k.storage.chaos)]

namespace Desk

/-- A slot by its index. -/
def slot (d : Desk) (i : Nat) : Run Slot :=
  match d.slots[i]? with
  | some s => pure s
  | none => bad "kme index out of range"

/-- Handles a request on the node of a slot: the answer, and the plan when there is one. -/
def handleAt (d : Desk) (i : Nat) (request : KmeRequest) : Run (Json × Option Plan × Desk) :=
  match d.slots[i]? with
  | none => pure (notOpen, none, d)
  | some s =>
    match s.node with
    | none => pure (notOpen, none, d)
    | some k =>
      let (r, (env, k)) := EStateM.outcome (Kme.handle request) (d.env, k)
      let s := { s with node := some k }
      match r with
      | .ok plan =>
        pure (okJson (planJson plan), some plan,
          { d with env, slots := d.slots.set i { s with lastDiscard := plan.discardOnFailure },
                   pending := d.pending ++ nodeCalls plan })
      | .error (.fault f) => pure (faultJson f, none, { d with env, slots := d.slots.set i s })
      | .error (.abort a) => throw (.abort a)

/-- Handles one request on each listed slot in turn: the answers, the nodes after them, and
the refusal of the first index that names no slot, where handling stops. -/
def handleEach (request : KmeRequest) : List Nat → Desk → Run (List Json × Desk × Option String)
  | [], d => pure ([], d, none)
  | i :: rest, d =>
    if i < d.slots.length then do
      let (answer, _, d) ← d.handleAt i request
      let (more, d, stop) ← handleEach request rest d
      pure (answer :: more, d, stop)
    else pure ([], d, some "kme index out of range")

/-- The index of the first slot of a node id. -/
def indexOf? (d : Desk) (id : KmeId) : Option Nat := d.slots.findIdx? (·.id = id)

/-- Hands queued calls to their nodes, at most `n` of them, oldest first. -/
def pump : Nat → Desk → Run (List Json × Desk)
  | 0, d => pure ([], d)
  | n + 1, d =>
    match d.pending with
    | [] => pure ([], d)
    | (target, request) :: rest => do
      let d := { d with pending := rest }
      let (result, d) ← match d.indexOf? target with
        | none => pure (Json.str "unroutable", d)
        | some i => do let (answer, _, d) ← d.handleAt i request; pure (answer, d)
      let entry := Json.obj [("to", identJson target), ("request", .str request.name), ("result", result)]
      let (more, d) ← pump n d
      pure (entry :: more, d)

/-- Runs a computation on an open node. -/
def onNode {α : Type} (d : Desk) (i : Nat) (m : KmeM α) : Run (Option (Except Fault α) × Desk) := do
  let s ← d.slot i
  match s.node with
  | none => pure (none, d)
  | some k =>
    let (r, (env, k)) := EStateM.outcome m (d.env, k)
    let d := { d with env, slots := d.slots.set i { s with node := some k } }
    match r with
    | .ok a => pure (some (.ok a), d)
    | .error (.fault f) => pure (some (.error f), d)
    | .error (.abort a) => throw (.abort a)

end Desk

/-- The key ids of an `enc_keys` answer. -/
def issuedKeys (request : KmeRequest) (plan : Option Plan) : List KeyId :=
  match request, plan with
  | .encKeys .., some { reply := .ready (.keys keys), .. } => keys.map (·.keyId)
  | _, _ => []

/-- The answer of a step that went through, with the length of the queue. -/
def Desk.answer (d : Desk) (answer : Json) : Desk × Json :=
  (d, answer.push "pending" (.nat d.pending.length))

/-- The `deliver_block` step: a block handed to the listed nodes, all by default. An index that
names no node refuses the step, but the nodes before it keep the block. -/
def Desk.deliverStep (d : Desk) (arg : Json) : Run (Desk × Json) := do
  let link ← field arg "link_id" ident
  let block ← field arg "block_id" ident
  let data ← field arg "bytes" bytes
  let timestamp ← withDefault arg "timestamp" d.env.wallSecs u64
  let targets ← withDefault arg "kmes" (List.range d.slots.length) (list u64)
  let (answers, d, stop) ← Desk.handleEach (.deliverBlock link block timestamp data) targets d
  match stop with
  | some m => pure (d, badJson m)
  | none => pure (d.answer (okJson (.arr answers)))

/-- The `reopen` step: the node is closed, forgetting the keys its last plan would drop, and
opened again over the same records. The node stays closed when the rest of the step is bad
input or the opening fails; the records keep what the failed opening did to them. -/
def Desk.reopenStep (d : Desk) (arg : Json) : Run (Desk × Json) := do
  let i ← field arg "kme" u64
  let s ← d.slot i
  let s : Slot := { s with storage := s.records, node := none, lastDiscard := [] }
  let d := { d with slots := d.slots.set i s }
  match withDefault arg "fresh_handle" false boolean with
  | .error (.bad m) => pure (d, badJson m)
  | .error (.abort a) => throw (.abort a)
  | .ok _ =>
    match Kme.load s.id s.config s.records with
    | (.ok k, _) =>
      let d : Desk := { d with slots := d.slots.set i { s with node := some k } }
      pure (d.answer (okJson .null))
    | (.error f, st) =>
      let d : Desk := { d with slots := d.slots.set i { s with storage := st } }
      pure (d.answer (faultJson f))

/-- One step on the nodes. -/
def deskStep (d : Desk) (name : String) (arg : Json) : Run (Desk × Json) := do
  let arg ← d.refs.resolve arg
  if name = "deliver_block" then return ← d.deliverStep arg
  if name = "reopen" then return ← d.reopenStep arg
  let (d, answer) ← match name with
    | "request" => do
      let i ← field arg "kme" u64
      let _ ← d.slot i
      let request ← field arg "msg" kmeRequest
      let (answer, plan, d) ← d.handleAt i request
      let refs := { d.refs with keys := d.refs.keys ++ issuedKeys request plan }
      pure ({ d with refs }, answer)
    | "assign" => do
      let r ← field arg "record" sessionRecord
      let targets := (List.range d.slots.length).filter fun i =>
        match d.slots[i]? with
        | some s => r.path.contains s.id
        | none => false
      let (answers, d, _) ← Desk.handleEach (.assignSession r) targets d
      pure (d, okJson (.arr answers))
    | "pump" =>
      let (entries, d) ← Desk.pump 1000 d
      pure (d, okJson (.arr entries))
    | "clear_pending" => pure ({ d with pending := [] }, okJson (.nat d.pending.length))
    | "discard" => do
      let i ← field arg "kme" u64
      let s ← d.slot i
      let (_, d) ← d.onNode i (Kme.discardKeys s.lastDiscard)
      pure (d, okJson (.nat s.lastDiscard.length))
    | "inspect" => do
      let s ← d.slot (← field arg "kme" u64)
      match s.node with
      | none => pure (d, notOpen)
      | some k => pure (d, okJson (inspectJson k))
    | "advance_ms" => do
      let env := d.env.advance (← field arg "ms" u64)
      pure ({ d with env }, okJson .null)
    | "fail_on" => do
      let i ← field arg "kme" u64
      let k ← field arg "k" u64
      let s ← d.slot i
      if s.records.chaos.isNone then bad "fail_on needs chaotic storage"
      let s := match s.node with
        | some node => { s with node := some { node with storage := node.storage.failOn k } }
        | none => { s with storage := s.storage.failOn k }
      pure ({ d with slots := d.slots.set i s }, okJson .null)
    | other => bad ("unknown step " ++ other)
  pure (d.answer answer)

/-- A node of the input, opened over its records: its slot and the answer to the opening. -/
def openSlot (j : Json) : Run (Slot × Json) := do
  let id ← field j "id" ident
  let config ← withDefault j "config" {} kmeConfig
  let st ← withDefault j "storage" {} storage
  match Kme.load id config st with
  | (.ok k, _) => pure ({ id, config, storage := st, node := some k }, okJson .null)
  | (.error f, st) => pure ({ id, config, storage := st }, faultJson f)

/-- Steps on nodes without a network. -/
def kmeDriverScenario (j : Json) : Run Json := do
  let opened ← withDefault j "kmes" [] (list openSlot)
  let environment ← withDefault j "env" {} env
  let list ← steps j
  let desk : Desk := { env := environment, slots := opened.map (·.1) }
  pure (.obj [("open", .arr (opened.map (·.2))), ("steps", .arr (runSteps deskStep desk list))])

end KeyRelay.Scenario
