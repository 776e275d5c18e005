import KeyRelay.Directory
import KeyRelay.Message
import KeyRelay.Config
import KeyRelay.Env
import KeyRelay.Stateful

/-!
The controller: it registers nodes, confirms a link once both of its ends have reported it,
follows the links' rates, and pairs applications into sessions along the shortest path whose
edges have the headroom for the session's rate.

Handling a request changes the controller and gives a decision: the reply, the calls to make
to nodes, and the session to abort should one of those calls fail.
-/
namespace KeyRelay

/-- A link reported by one end only. -/
structure HalfLink (R : Type) where
  kme : KmeId
  rate : R
deriving Repr, Inhabited

/-- A call the controller asks to be made. -/
inductive Command where
  | callKme (kme : KmeId) (request : KmeRequest)
  /-- A node is reachable at an address. -/
  | learnAddress (kme : KmeId) (address : String)
deriving Repr, Inhabited

/-- What handling a request gives: the reply, the calls to make in order, and the session to
abort should one of them fail. -/
structure Decision where
  reply : ControllerResponse
  actions : List Command := []
  abortOnFailure : Option Ksid := none
deriving Repr, Inhabited

/-- The controller's state, with rates in `R`. -/
structure Controller (R : Type) where
  config : ControllerConfig
  graph : Graph R
  halfLinks : Table LinkId (HalfLink R) := {}
  directory : Directory R
deriving Inhabited

/-- Computations of the controller over the shared environment. -/
abbrev ControllerM (R : Type) := EStateM Halt (Env × Controller R)

namespace Controller

variable {R : Type}

/-- A controller with a checked configuration. -/
def create (config : ControllerConfig) : Except Fault (Controller R) :=
  match config.validate with
  | .error e => .error (.invalid (.config e))
  | .ok () => .ok {
      config
      graph := { windowMs := config.windowMs, intervalMs := config.sampleIntervalMs,
                 expectedNodes := config.expectedNodes, expectedLinks := config.expectedLinks }
      directory := { pendingTtlMs := config.pendingTtlMs } }

/-- The controller. -/
def current : ControllerM R (Controller R) := fun s => .ok s.2 s

/-- Changes the controller. -/
def change (f : Controller R → Controller R) : ControllerM R Unit := fun s => .ok () (s.1, f s.2)

/-- The environment. -/
def env : ControllerM R Env := fun s => .ok s.1 s

/-- Draws a fresh identifier. -/
def draw : ControllerM R Ident := fun s => let (i, e) := s.1.draw; .ok i (e, s.2)

/-- Fails with a fault. -/
def fail {α : Type} (f : Fault) : ControllerM R α := throw (.fault f)

/-- Lifts a computation that may stop short. -/
def lift {α : Type} (r : Except Halt α) : ControllerM R α := EStateM.ofExcept r

/-- A plain acknowledgement. -/
def ack : Decision := { reply := .ack }

/-- Registers a node at an address under a fresh id. -/
def registerKme (address : String) : ControllerM R Decision := do
  let id ← draw
  change fun c => { c with graph := (c.graph.addNode id address).2 }
  pure { reply := .kmeRegistered id, actions := [.learnAddress id address] }

/-- Tells both ends of a confirmed link who is at the other end. -/
def confirm (c : Controller R) (link : LinkId) (a b : KmeId) : Decision :=
  let tell (k other : KmeId) : Command :=
    .callKme k (.linkConfirmed link other ((c.graph.address other).getD ""))
  { ack with actions := [tell a b, tell b a] }

/-- One end reports a link: the second end to report it confirms it, at the lesser of the two
rates; a confirmed link's report is a rate sample and confirms it again. -/
def newLink [RateArith R] (link : LinkId) (kme : KmeId) (rate : R) : ControllerM R Decision := do
  let c ← current
  if (c.graph.address kme).isNone then fail (.invalid (.unregistered kme))
  let now := (← env).now
  match c.graph.linkEnds link with
  | some (a, b) =>
    if kme ≠ a ∧ kme ≠ b then fail (.invalid (.foreignLink link a b kme))
    let graph ← lift (c.graph.record link now rate)
    change fun c => { c with graph }
    pure (confirm c link a b)
  | none =>
    match c.halfLinks.get? link with
    | some half =>
      if half.kme ≠ kme then
        let graph ← lift (c.graph.addEdge link half.kme kme now (RateArith.least rate half.rate))
        change fun c => { c with graph, halfLinks := c.halfLinks.erase link }
        pure (confirm (← current) link half.kme kme)
      else
        change fun c => { c with halfLinks := c.halfLinks.insert link ⟨kme, rate⟩ }
        pure ack
    | none =>
      change fun c => { c with halfLinks := c.halfLinks.insert link ⟨kme, rate⟩ }
      pure ack

/-- A rate report: it replaces the rate of a half link, and is a sample of a confirmed one. -/
def updateLink (link : LinkId) (rate : R) : ControllerM R Decision := do
  let c ← current
  if let some half := c.halfLinks.get? link then
    change fun c => { c with halfLinks := c.halfLinks.insert link { half with rate } }
    return ack
  let graph ← lift (c.graph.record link (← env).now rate)
  change fun c => { c with graph }
  pure ack

/-- Registers one side of a connection. When both sides are there, the session takes the
shortest path with headroom, reserves its rate on it, and every node of the path is told;
without such a path the other side waits again and the registration fails. -/
def registerApp [RateArith R] (r : AppRequest) : ControllerM R Decision := do
  let c ← current
  if (c.graph.address r.kme).isNone then fail (.invalid (.unregistered r.kme))
  let e ← env
  let now := e.now
  let (matched, directory) ← lift (Halt.ofAbort (c.directory.register r now))
  change fun c => { c with directory }
  match matched with
  | .pending => pure { reply := .session .pending }
  | .pair master slave =>
    let rate := r.qos.rate
    let overhead := c.config.policy.overhead rate c.config.prefetchKeys
    let res ← match c.graph.findPath master.kme slave.kme rate overhead now with
      | .ok res => pure res
      | .error (.abort a) => throw (.abort a)
      | .error (.fault f) => do
        let counterpart := if r.master then slave else master
        change fun c => { c with directory := c.directory.requeue counterpart now }
        fail f
    change fun c => { c with graph := c.graph.reserve res }
    let ksid ← draw
    let createdAt := (← env).wallSecs
    let record : SessionRecord :=
      { ksid, src := r.src, dst := r.dst, kmeSrc := master.kme, kmeDst := slave.kme, qos := r.qos,
        path := res.path, createdAt }
    change fun c => { c with directory := c.directory.openSession record res }
    pure { reply := .session (.registered ksid),
           actions := res.path.map fun k => .callKme k (.assignSession record),
           abortOnFailure := some ksid }

/-- Ends a session and gives back its rates. -/
def closeConnection [RateArith R] (ksid : Ksid) : ControllerM R Decision := do
  let (closed, directory) := (← current).directory.close ksid
  let some (_, res) := closed | fail (.noSession (.ksid ksid))
  change fun c => { c with directory, graph := c.graph.release res }
  pure ack

/-- Ends a session whose setup failed, giving back its rates. -/
def abortSession [RateArith R] (ksid : Ksid) : ControllerM R Unit := do
  let (closed, directory) := (← current).directory.close ksid
  if let some (_, res) := closed then
    change fun c => { c with directory, graph := c.graph.release res }

/-- Handles a request. -/
def handle [RateArith R] : ControllerRequest R → ControllerM R Decision
  | .registerKme address => registerKme address
  | .newLink link kme rate _ => newLink link kme rate
  | .updateLink link rate => updateLink link rate
  | .registerApp src dst kme qos master => registerApp ⟨src, dst, kme, qos, master⟩
  | .closeConnection ksid => closeConnection ksid

end Controller

end KeyRelay
