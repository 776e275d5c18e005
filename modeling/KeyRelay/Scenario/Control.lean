import KeyRelay.Controller
import KeyRelay.Scenario.Kmes

/-!
Scenarios of the controller: its capacity graph, its directory of registrations and sessions,
and the whole controller driven by requests.
-/
namespace KeyRelay.Scenario

open Wire

/-- A reservation as an answer. -/
def reservationJson (r : Reservation Float) : Json :=
  .obj [("path", .arr (r.path.map identJson)), ("demand", .arr (r.demand.map realJson))]

/-- A reservation as the input gives it. -/
def reservation (j : Json) : Run (Reservation Float) := do
  pure ⟨← field j "path" (list ident), ← field j "demand" (list real)⟩

/-- An edge as an answer, with its capacity at `now`. -/
def edgeJson (e : Edge Float) (now : Nat) : Except Abort (List (String × Json)) := do
  let capacity ← e.capacity now
  pure [("link_id", identJson e.link), ("capacity", realJson capacity),
    ("reserved", realJson e.reserved), ("headroom", realJson (capacity - e.reserved))]

/-- The graph as the dumps show it, capacities at `now`. -/
def graphJson (g : Graph Float) (now : Nat) : Except Abort (List (String × Json)) := do
  let edges ← g.sortedEdges.mapM fun ((a, b), e) => do
    pure (Json.obj ([("a", identJson a), ("b", identJson b)] ++ (← edgeJson e now)))
  pure [("node_count", .nat g.nodes.size), ("edge_count", .nat g.edges.size),
    ("has_paths", .bool g.hasPaths), ("edges", .arr edges)]

/-- A path as an answer. -/
def pathJson (p : List KmeId) : Json := .arr (p.map identJson)

/-- A reservation given by the index of a path found earlier, or spelled out. -/
def reservationArg (found : List (Reservation Float)) (j : Json) : Run (Reservation Float) := do
  match j.present? "found" with
  | some v => itemAt found v
  | none => reservation j

/-- One step on a graph; paths found are kept for later steps. -/
def graphStep (s : Graph Float × List (Reservation Float)) (name : String) (arg : Json) :
    Run ((Graph Float × List (Reservation Float)) × Json) := do
  let (g, found) := s
  match name with
  | "add_node" => do
    let (added, g) := g.addNode (← field arg "kme" ident) (← field arg "address" text)
    pure ((g, found), okJson (.bool added))
  | "add_edge" => do
    let link ← field arg "link_id" ident
    let a ← field arg "a" ident
    let b ← field arg "b" ident
    let t ← field arg "at" u64
    match g.addEdge link a b t (← field arg "rate" real) with
    | .ok g => pure ((g, found), okJson .null)
    | .error (.fault f) => pure ((g, found), faultJson f)
    | .error (.abort a) => throw (.abort a)
  | "record" => do
    let link ← field arg "link_id" ident
    let t ← field arg "at" u64
    match g.record link t (← field arg "rate" real) with
    | .ok g => pure ((g, found), okJson .null)
    | .error (.fault f) => pure ((g, found), faultJson f)
    | .error (.abort a) => throw (.abort a)
  | "find_path" => do
    let src ← field arg "src" ident
    let dst ← field arg "dst" ident
    let rate ← field arg "rate" real
    let overhead ← withDefault arg "overhead" 0.0 real
    match g.findPath src dst rate overhead (← field arg "now" u64) with
    | .ok r =>
      pure ((g, found ++ [r]), okJson (.obj [("path", pathJson r.path),
        ("demand", .arr (r.demand.map realJson)), ("found", .nat found.length)]))
    | .error (.fault f) => pure ((g, found), faultJson f)
    | .error (.abort a) => throw (.abort a)
  | "reserve" => do pure ((g.reserve (← reservationArg found arg), found), okJson .null)
  | "release" => do pure ((g.release (← reservationArg found arg), found), okJson .null)
  | "shortest_path" => do
    let p := g.shortestPath (← field arg "src" ident) (← field arg "dst" ident)
    pure ((g, found), okJson (Json.opt pathJson p))
  | "address" => do
    pure ((g, found), okJson (Json.opt Json.str (g.address (← field arg "kme" ident))))
  | "link_ends" => do
    let ends := g.linkEnds (← field arg "link_id" ident)
    pure ((g, found), okJson (Json.opt (fun (a, b) => .arr [identJson a, identJson b]) ends))
  | "edge" => do
    let a ← field arg "a" ident
    let b ← field arg "b" ident
    let now ← field arg "now" u64
    match g.edge a b with
    | none => pure ((g, found), okJson .null)
    | some e => pure ((g, found), okJson (.obj (← guard (edgeJson e now))))
  | "dump" => do
    pure ((g, found), okJson (.obj (← guard (graphJson g (← field arg "now" u64)))))
  | other => bad ("unknown step " ++ other)

/-- An optional count of the input. -/
def optionalCount (j : Json) (key : String) : Run (Option Nat) := optional j key u64

/-- Steps on a capacity graph. -/
def graphScenario (j : Json) : Run Json := do
  let g : Graph Float := { windowMs := ← withDefault j "window_ms" 15000 u64,
                           intervalMs := ← withDefault j "interval_ms" 1000 u64,
                           expectedNodes := ← optionalCount j "expected_nodes",
                           expectedLinks := ← optionalCount j "expected_links" }
  pure (.single "steps" (.arr (runSteps graphStep (g, []) (← steps j))))

/-- A registration as the input gives it. -/
def appRequest (j : Json) : Run AppRequest := do
  pure ⟨← field j "src" ident, ← field j "dst" ident, ← field j "kme" ident, ← field j "qos" qos,
    ← field j "master" boolean⟩

/-- A registration as an answer. -/
def appRequestJson (r : AppRequest) : Json :=
  .obj [("src", identJson r.src), ("dst", identJson r.dst), ("kme", identJson r.kme),
    ("qos", r.qos.toValue.toJson), ("master", .bool r.master)]

/-- What a registration led to, as an answer. -/
def matchedJson : Matched → Json
  | .pending => .str "Pending"
  | .pair master slave =>
    .single "Pair" (.obj [("master", appRequestJson master), ("slave", appRequestJson slave)])

/-- A session and its reservation as an answer. -/
def sessionJson (r : SessionRecord) (res : Reservation Float) : Json :=
  .obj [("record", recordJson r), ("reservation", reservationJson res)]

/-- One step on a directory. -/
def directoryStep (d : Directory Float) (name : String) (arg : Json) :
    Run (Directory Float × Json) := do
  let (d, value) ← match name with
    | "register" => do
      let (m, d) ← guard (d.register (← appRequest arg) (← field arg "now" u64))
      pure (d, matchedJson m)
    | "requeue" => do pure (d.requeue (← appRequest arg) (← field arg "at" u64), Json.null)
    | "purge" => do
      let (n, d) ← guard (d.purgeExpired (← u64 arg))
      pure (d, Json.nat n)
    | "open" => do
      pure (d.openSession (← field arg "record" sessionRecord) (← field arg "reservation" reservation),
        Json.null)
    | "close" => do
      let (closed, d) := d.close (← ident arg)
      pure (d, Json.opt (fun (r, res) => sessionJson r res) closed)
    | "get" => do pure (d, Json.opt recordJson (d.sessions.get? (← ident arg)))
    | "by_apps" => do
      match arg with
      | .arr [src, dst] => pure (d, Json.opt recordJson (d.sessions.byPair? (← ident src) (← ident dst)))
      | _ => bad "by_apps takes [src, dst]"
    | "reservation" => do pure (d, Json.opt reservationJson (d.reservation (← ident arg)))
    | "sessions" => pure (d, .arr (d.sessions.sorted.map recordJson))
    | other => bad ("unknown step " ++ other)
  pure (d, .obj [("ok", value), ("pending", .nat d.pendingLen)])

/-- Steps on a directory. -/
def directoryScenario (j : Json) : Run Json := do
  let d : Directory Float := { pendingTtlMs := ← withDefault j "pending_ttl_ms" 15000 u64 }
  pure (.single "steps" (.arr (runSteps directoryStep d (← steps j))))

/-- A controller's call as an answer. -/
def commandJson : Command → Json
  | .callKme kme request =>
    .single "CallKme" (.obj [("kme", identJson kme), ("request", request.toValue.toJson)])
  | .learnAddress kme address =>
    .single "LearnAddress" (.obj [("kme", identJson kme), ("address", .str address)])

/-- A decision as an answer. -/
def decisionJson (d : Decision) : Json :=
  .obj [("reply", d.reply.toValue.toJson), ("actions", .arr (d.actions.map commandJson)),
    ("abort_on_failure", Json.opt identJson d.abortOnFailure)]

/-- The controller's state as its dumps show it, capacities at the clock's `now`. -/
def controllerJson (c : Controller Float) (now : Nat) : Except Abort Json := do
  let sessions := c.directory.sessions.sorted.map fun r =>
    sessionJson r ((c.directory.reservation r.ksid).getD ⟨r.path, []⟩)
  pure (.obj ((← graphJson c.graph now) ++
    [("pending", .nat c.directory.pendingLen), ("sessions", .arr sessions)]))

/-- The identifiers a controller's reply names, for later references. -/
def Refs.noteController (r : Refs) : ControllerResponse → Refs
  | .kmeRegistered id => { r with kmes := r.kmes ++ [id] }
  | .session (.registered ksid) => { r with ksids := r.ksids ++ [ksid] }
  | _ => r

/-- A controller request of a step, by the step's name. -/
def controllerRequest (name : String) (arg : Json) : Run (Option (ControllerRequest Float)) := do
  match name with
  | "register_kme" => pure (some (.registerKme (← field arg "address" text)))
  | "new_link" => do
    pure (some (.newLink (← field arg "link_id" ident) (← field arg "kme" ident)
      (← field arg "rate" real) (← withDefault arg "ttl_secs" 15 u64)))
  | "update_link" => do pure (some (.updateLink (← field arg "link_id" ident) (← field arg "rate" real)))
  | "register_app" => do
    let r ← appRequest arg
    pure (some (.registerApp r.src r.dst r.kme r.qos r.master))
  | "close" => do pure (some (.closeConnection (← field arg "ksid" ident)))
  | _ => pure none

/-- The controller with the environment and the identifiers answered so far. -/
structure Office where
  env : Env
  controller : Controller Float
  refs : Refs := {}
deriving Inhabited

/-- One step on a controller. -/
def officeStep (o : Office) (name : String) (arg : Json) : Run (Office × Json) := do
  let arg ← o.refs.resolve arg
  match ← controllerRequest name arg with
  | some request =>
    let (r, (env, controller)) := EStateM.outcome (Controller.handle request) (o.env, o.controller)
    let o := { o with env, controller }
    match r with
    | .ok d => pure ({ o with refs := o.refs.noteController d.reply }, okJson (decisionJson d))
    | .error (.fault f) => pure (o, faultJson f)
    | .error (.abort a) => throw (.abort a)
  | none =>
    match name with
    | "abort" => do
      let ksid ← field arg "ksid" ident
      let (r, (env, controller)) :=
        EStateM.outcome (Controller.abortSession ksid) (o.env, o.controller)
      match r with
      | .error (.abort a) => throw (.abort a)
      | _ => pure ({ o with env, controller }, okJson .null)
    | "advance_ms" => do
      let env := o.env.advance (← field arg "ms" u64)
      pure ({ o with env }, okJson .null)
    | "path" => do
      let p := o.controller.graph.shortestPath (← field arg "src" ident) (← field arg "dst" ident)
      pure (o, okJson (Json.opt pathJson p))
    | "inspect" => do pure (o, okJson (← guard (controllerJson o.controller o.env.now)))
    | other => bad ("unknown step " ++ other)

/-- Steps on one controller. -/
def controllerDriverScenario (j : Json) : Run Json := do
  let config ← withDefault j "config" {} controllerConfig
  let environment ← withDefault j "env" {} env
  let list ← steps j
  match Controller.create config with
  | .error f => pure (faultJson f)
  | .ok controller =>
    pure (.single "steps" (.arr (runSteps officeStep { env := environment, controller } list)))

end KeyRelay.Scenario
