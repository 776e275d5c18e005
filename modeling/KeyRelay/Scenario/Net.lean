import KeyRelay.Invariants
import KeyRelay.Scenario.Control

/-!
A whole network driven step by step: the controller, then nodes that register with it in turn
and open over fresh records in memory. Links are pairs of nodes with a link id; delivering on a
link hands each block to both ends, one after the other. Each answer lists the calls completed
during the step.
-/
namespace KeyRelay.Scenario

open Wire

/-- The network, its links, and the identifiers answered so far. -/
structure Lab where
  net : Network
  /-- The links: the indices of their two ends and the link id. -/
  links : List (Nat × Nat × LinkId) := []
  refs : Refs := {}
deriving Inhabited

/-- The answer to a call from outside. -/
def callJson {α : Type} (f : α → Json) : Except TransportError α → Json
  | .ok r => .single "response" (f r)
  | .error t => .single "transport_error" (.str t.describe)

/-- A peer as a transcript shows it. -/
def peerJson : Peer → Json
  | .kme id => identJson id
  | .controller => .str "controller"

/-- A snapshot as an answer. -/
def snapshotJson (s : Snapshot) (violations : List Breach) : Json :=
  .obj [("edges", .arr (s.edges.map fun e => .obj [("a", identJson e.ends.1),
      ("b", identJson e.ends.2), ("capacity", realJson e.capacity), ("reserved", realJson e.reserved)])),
    ("sessions", .arr (s.sessions.map fun (r, res) => .obj [("ksid", identJson r.ksid),
      ("path", pathJson r.path), ("reservation", reservationJson res)])),
    ("kmes", .arr (s.kmes.map fun k => .obj [("id", identJson k.id),
      ("sessions", .arr (k.sessions.map fun (r, n) => .arr [identJson r.ksid, .nat n]))])),
    ("violations", .arr (violations.map fun v =>
      .obj [("invariant", .str v.invariant), ("message", .str v.message)]))]

/-- Runs a computation on the network; a stop of the program ends the scenario. -/
def Lab.run {α : Type} (l : Lab) (m : NetM α) : Run (α × Lab) :=
  match m l.net with
  | .ok a net => pure (a, { l with net })
  | .error a _ => throw (.abort a)

/-- The identifiers a node's reply names, for later references. -/
def Refs.noteKme (r : Refs) (request : KmeRequest) : KmeResponse → Refs
  | .session (.registered ksid) => { r with ksids := r.ksids ++ [ksid] }
  | .keys keys => match request with
    | .encKeys .. => { r with keys := r.keys ++ keys.map (·.keyId) }
    | _ => r
  | _ => r

namespace Lab

/-- The node at an index. -/
def kme (l : Lab) (i : Nat) : Run Kme :=
  match l.net.kmes[i]? with
  | some k => pure k
  | none => bad "kme index out of range"

/-- Calls the node at an index from outside. -/
def ask (l : Lab) (i : Nat) (request : KmeRequest) : Run (Lab × Json) := do
  let k ← l.kme i
  let (r, l) ← l.run (Network.callKme k.id request)
  let refs := match r with
    | .ok response => l.refs.noteKme request response
    | .error _ => l.refs
  pure ({ l with refs }, callJson (fun (x : KmeResponse) => x.toValue.toJson) r)

/-- A peer as the input names it: the controller, or a node by index. -/
def peer (l : Lab) : Json → Run Peer
  | .str "controller" => pure .controller
  | j => do pure (.kme (← l.kme (← field j "kme" u64)).id)

end Lab

/-- The bytes of the `k`-th block of a delivery: a fill starts `k` later, hex stays. -/
def shiftedBytes (spec : Json) (k : Nat) : Run (List UInt8) :=
  match spec with
  | .obj _ => do
    let len ← field spec "len" u64
    let start ← withDefault spec "start" 0 u64
    let step ← withDefault spec "step" 1 u64
    pure (fill len (start + k) step)
  | _ => bytes spec

/-- Sends a request to nodes in turn, stopping after the first that does not acknowledge: the
answers, and whether all acknowledged. -/
def sendEnds (request : KmeRequest) : List KmeId → Lab → Run (List Json × Bool × Lab)
  | [], l => pure ([], true, l)
  | e :: rest, l => do
    let (r, l) ← l.run (Network.callKme e request)
    let answer := callJson (fun (x : KmeResponse) => x.toValue.toJson) r
    match r with
    | .ok .ack =>
      let (more, fine, l) ← sendEnds request rest l
      pure (answer :: more, fine, l)
    | _ => pure ([answer], false, l)

/-- Delivers blocks on a link, both ends in turn, stopping at the first end that does not
acknowledge: the entries, the network after them, and the refusal of bytes that cannot be
read, which ends the delivery once the block's id is drawn. -/
def deliverBlocks (link : LinkId) (ends : List KmeId) (spec : Json) (first : Option Nat) :
    Nat → Nat → Lab → Run (List Json × Lab × Option String)
  | 0, _, l => pure ([], l, none)
  | n + 1, k, l => do
    let (block, l) := match first with
      | some b => ((⟨(b + k) % Ident.space⟩ : Ident), l)
      | none =>
        let (id, env) := l.net.env.draw
        (id, { l with net := { l.net with env } })
    match shiftedBytes spec k with
    | .error (.bad m) => pure ([], l, some m)
    | .error (.abort a) => throw (.abort a)
    | .ok data =>
      let request := KmeRequest.deliverBlock link block l.net.env.wallSecs data
      let (answers, fine, l) ← sendEnds request ends l
      let entry := Json.obj [("block_id", identJson block), ("ends", .arr answers)]
      if fine then
        let (more, l, stop) ← deliverBlocks link ends spec first n (k + 1) l
        pure (entry :: more, l, stop)
      else pure ([entry], l, none)

/-- The answer of a step that went through, with the calls made during it. -/
def Lab.answer (l : Lab) (value : Json) : Lab × Json :=
  let exchanges := l.net.transcript.map fun (p, n) => Json.arr [peerJson p, .str n]
  (l, .obj [("ok", value), ("exchanges", .arr exchanges)])

/-- The `deliver` step: `count` blocks on a link. Bytes that cannot be read refuse the step,
but the id drawn for the block stays drawn. -/
def Lab.deliverStep (l : Lab) (arg : Json) : Run (Lab × Json) := do
  let (a, b, link) ← itemAt l.links (← need arg "link")
  let ka ← l.kme a
  let kb ← l.kme b
  let spec ← need arg "bytes"
  let count ← withDefault arg "count" 1 u64
  let first ← optional arg "block_id" (word 128)
  let (entries, l, stop) ← deliverBlocks link [ka.id, kb.id] spec first count 0 l
  match stop with
  | some m => pure (l, badJson m)
  | none => pure (l.answer (.arr entries))

/-- One step on the network. -/
def labStep (l : Lab) (name : String) (arg : Json) : Run (Lab × Json) := do
  let arg ← l.refs.resolve arg
  let l := { l with net := { l.net with transcript := [] } }
  if name = "deliver" then return ← l.deliverStep arg
  let (l, value) ← match name with
    | "connect" => do
      let a ← field arg "a" u64
      let b ← field arg "b" u64
      let _ ← l.kme a
      let _ ← l.kme b
      let (link, l) ← match ← optional arg "link_id" ident with
        | some id => pure (id, l)
        | none =>
          let (id, env) := l.net.env.draw
          pure (id, { l with net := { l.net with env } })
      pure ({ l with links := l.links ++ [(a, b, link)] },
        Json.obj [("link", .nat l.links.length), ("link_id", identJson link)])
    | "register_app" => do
      let i ← field arg "kme" u64
      let r ← appRequest arg
      l.ask i (.openSession r.src r.dst r.qos r.master)
    | "enc_keys" => do
      let i ← field arg "kme" u64
      let src ← field arg "src" ident
      let dst ← field arg "dst" ident
      let number ← field arg "number" u32
      let size ← optional arg "size" u32
      l.ask i (.encKeys src dst number size)
    | "dec_keys" => do
      let i ← field arg "kme" u64
      l.ask i (.decKeys (← field arg "src" ident) (← field arg "dst" ident) (← field arg "key_ids" (list ident)))
    | "status" => do
      let i ← field arg "kme" u64
      l.ask i (.status (← field arg "src" ident) (← field arg "dst" ident))
    | "close" => do
      let i ← field arg "kme" u64
      l.ask i (.closeSession (← field arg "ksid" ident) none)
    | "raw" => do
      let i ← field arg "kme" u64
      l.ask i (← field arg "request" kmeRequest)
    | "controller" => do
      let (reqName, reqArg) ← field arg "request" stepOf
      let some request ← controllerRequest reqName reqArg | bad ("unknown controller request " ++ reqName)
      let (r, l) ← l.run (Network.callController request)
      let refs := match r with
        | .ok response => l.refs.noteController response
        | .error _ => l.refs
      pure ({ l with refs }, callJson (fun (x : ControllerResponse) => x.toValue.toJson) r)
    | "partition" => do
      let p ← l.peer arg
      pure ({ l with net := l.net.partition p }, Json.null)
    | "heal" => do
      let p ← l.peer arg
      pure ({ l with net := l.net.heal p }, Json.null)
    | "advance_ms" => do
      let env := l.net.env.advance (← field arg "ms" u64)
      pure ({ l with net := { l.net with env } }, Json.null)
    | "inspect" => do
      let k ← l.kme (← field arg "kme" u64)
      pure (l, inspectJson k)
    | "controller_inspect" => do
      match l.net.controller with
      | some c => pure (l, ← guard (controllerJson c l.net.env.now))
      | none => bad "no controller"
    | "snapshot" => do
      let s ← guard l.net.snapshot
      pure (l, snapshotJson s s.violations)
    | other => bad ("unknown step " ++ other)
  pure (l.answer value)

/-- Registers nodes `i, i + 1, ...` with the controller and opens each over fresh records. -/
def enrolAll (config : KmeConfig) : Nat → Nat → NetM (Except Fault Unit)
  | 0, _ => pure (.ok ())
  | n + 1, i => do
    match ← Network.enrol ("sim://kme-" ++ toString i) with
    | .error f => pure (.error f)
    | .ok id =>
      match Kme.load id config {} with
      | (.error f, _) => pure (.error f)
      | (.ok k, _) =>
        modify fun net => { net with kmes := net.kmes ++ [k] }
        enrolAll config n (i + 1)

/-- Steps on a whole network. -/
def networkScenario (j : Json) : Run Json := do
  let environment ← withDefault j "env" {} env
  let count ← withDefault j "kmes" 0 u64
  let kmeCfg ← withDefault j "kme_config" {} kmeConfig
  let controllerCfg ← withDefault j "controller_config" {} controllerConfig
  let list ← steps j
  match Controller.create controllerCfg with
  | .error f => pure (faultJson f)
  | .ok controller =>
    let lab : Lab := { net := { env := environment, controller := some controller } }
    let (r, lab) ← lab.run (enrolAll kmeCfg count 0)
    match r with
    | .error f => pure (faultJson f)
    | .ok () =>
      let lab := { lab with net := { lab.net with transcript := [] },
                            refs := { kmes := lab.net.kmes.map (·.id) } }
      let (answers, final) := runStepsFinal labStep lab list
      pure (.obj [("kme_ids", .arr (final.refs.kmes.map identJson)), ("steps", .arr answers)])

end KeyRelay.Scenario
