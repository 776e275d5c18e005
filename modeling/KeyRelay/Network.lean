import KeyRelay.Kme
import KeyRelay.Controller
import KeyRelay.Transport

/-!
A network of nodes and one controller that call each other directly. A call to a peer that is
partitioned off fails to connect, and a call to an unknown node finds no address. A call that
goes through is served at once, with every call the served request makes nested inside it;
the transcript lists the calls in the order they complete, so a nested call comes before the
call that made it.

A node carries out its plan in order: a required call that fails fails the request, after the
clear keys the plan names are dropped; other failures are passed over. The controller carries
out its calls to nodes in order too, and when one fails on a session being set up, the session
is aborted and the request fails.

Every call is bounded by a depth of nested calls, which a network of distinct nodes never
reaches: a relayed key passes each hop of a path once.
-/
namespace KeyRelay

/-- A call over the network. -/
inductive Call where
  | kme (id : KmeId) (request : KmeRequest)
  | controller (request : ControllerRequest Float)
deriving Repr, Inhabited

/-- The peer a call goes to. -/
def Call.peer : Call → Peer
  | .kme id _ => .kme id
  | .controller _ => .controller

/-- The reply to a call. -/
inductive Answer where
  | kme (r : KmeResponse)
  | controller (r : ControllerResponse)
deriving Repr, Inhabited

/-- The nodes, the controller, the peers cut off, and the calls completed. -/
structure Network where
  env : Env
  controller : Option (Controller Float) := none
  /-- The nodes in the order they joined. -/
  kmes : List Kme := []
  partitioned : List Peer := []
  transcript : List (Peer × String) := []
deriving Inhabited

/-- Computations over a network; only a stop of the program ends one early. -/
abbrev NetM := EStateM Abort Network

/-- A node id as diagnostics show it: `KmeId(5)`. -/
def ControllerResponse.describe : ControllerResponse → String
  | .ack => "Ack"
  | .kmeRegistered id => "KmeRegistered(" ++ Role.showNode id ++ ")"
  | .session .pending => "Session(Pending)"
  | .session (.registered ksid) => "Session(Registered(Ksid(" ++ toString ksid.val ++ ")))"
  | .error r => "Error(ErrorReply \x7b kind: " ++ r.kind.name ++ ", message: " ++ Escape.quote r.message ++ " \x7d)"

/-- An optional reply as diagnostics show it. -/
def describeReply : Option ControllerResponse → String
  | none => "None"
  | some r => "Some(" ++ r.describe ++ ")"

namespace Network

/-- The index of the node that serves an id: the last to join under it. -/
def route? (n : Network) (id : KmeId) : Option Nat :=
  (List.range n.kmes.length).foldl (fun found i =>
    if (n.kmes[i]?.map (·.id)) = some id then some i else found) none

/-- Runs a computation on the node at an index; a stop of the program stops the network. -/
def onKme {α : Type} (i : Nat) (m : KmeM α) : NetM (Option (Except Fault α)) := fun n =>
  match n.kmes[i]? with
  | none => .ok none n
  | some k =>
    match EStateM.outcome m (n.env, k) with
    | (.ok a, (env, k)) => .ok (some (.ok a)) { n with env, kmes := n.kmes.set i k }
    | (.error (.fault f), (env, k)) => .ok (some (.error f)) { n with env, kmes := n.kmes.set i k }
    | (.error (.abort a), _) => .error a n

/-- Runs a computation on the controller; a stop of the program stops the network. -/
def onController {α : Type} (m : ControllerM Float α) : NetM (Option (Except Fault α)) := fun n =>
  match n.controller with
  | none => .ok none n
  | some c =>
    match EStateM.outcome m (n.env, c) with
    | (.ok a, (env, c)) => .ok (some (.ok a)) { n with env, controller := some c }
    | (.error (.fault f), (env, c)) => .ok (some (.error f)) { n with env, controller := some c }
    | (.error (.abort a), _) => .error a n

/-- Notes a completed call. -/
def record (peer : Peer) (name : String) : NetM Unit :=
  modify fun n => { n with transcript := n.transcript ++ [(peer, name)] }

/-- Makes one call of a node's plan: the controller's reply when it is one. -/
def perform (send : Call → NetM (Except TransportError Answer)) :
    Action → NetM (Except Fault (Option ControllerResponse))
  | .callKme kme request _ => do
    match ← send (.kme kme request) with
    | .error t => pure (.error (t.unreachable (.kme kme)))
    | .ok (.kme (.error reply)) => pure (.error reply.fault)
    | .ok _ => pure (.ok none)
  | .callController request _ => do
    match ← send (.controller request) with
    | .error t => pure (.error (t.unreachable .controller))
    | .ok (.controller (.error reply)) => pure (.error reply.fault)
    | .ok (.controller r) => pure (.ok (some r))
    | .ok (.kme _) => pure (.ok none)
  | .learnAddress .. => pure (.ok none)

/-- Makes a plan's calls in order: the last reply of the controller, or the failure of the
first required call that failed. -/
def performAll (send : Call → NetM (Except TransportError Answer)) :
    List Action → Option ControllerResponse → NetM (Except Fault (Option ControllerResponse))
  | [], reply => pure (.ok reply)
  | a :: rest, reply => do
    match ← perform send a with
    | .ok (some r) => performAll send rest (some r)
    | .ok none => performAll send rest reply
    | .error e => if a.required then pure (.error e) else performAll send rest reply

/-- A node serves a request: it handles it, carries out its plan, and replies; nothing when
there is no node at the index. -/
def serveKme (send : Call → NetM (Except TransportError Answer)) (i : Nat) (request : KmeRequest) :
    NetM (Option KmeResponse) := do
  match ← onKme i (Kme.handle request) with
  | none => pure none
  | some (.error f) => pure (some (.error f.reply))
  | some (.ok plan) =>
    match ← performAll send plan.actions none with
    | .error e =>
      if !plan.discardOnFailure.isEmpty then
        let _ ← onKme i (Kme.discardKeys plan.discardOnFailure)
      pure (some (.error e.reply))
    | .ok controllerReply =>
      match plan.reply, controllerReply with
      | .ready r, _ => pure (some r)
      | .fromController, some (.session reg) => pure (some (.session reg))
      | .fromController, other =>
        pure (some (.error (Fault.violation (.registrationAnswer (describeReply other))).reply))

/-- Makes the controller's calls in order; a failed call aborts the session being set up, if
any, and is then the failure. -/
def notifyAll (send : Call → NetM (Except TransportError Answer)) (abortOnFailure : Option Ksid) :
    List Command → NetM (Option Fault)
  | [] => pure none
  | .learnAddress .. :: rest => notifyAll send abortOnFailure rest
  | .callKme kme request :: rest => do
    let failure : Option Fault := match ← send (.kme kme request) with
      | .error t => some (t.unreachable (.kme kme))
      | .ok (.kme (.error reply)) => some reply.fault
      | .ok _ => none
    match failure, abortOnFailure with
    | some e, some ksid =>
      let _ ← onController (Controller.abortSession ksid)
      pure (some e)
    | _, _ => notifyAll send abortOnFailure rest

/-- The controller serves a request; nothing when there is no controller. -/
def serveController (send : Call → NetM (Except TransportError Answer))
    (request : ControllerRequest Float) :
    NetM (Option ControllerResponse) := do
  match ← onController (Controller.handle request) with
  | none => pure none
  | some (.error f) => pure (some (.error f.reply))
  | some (.ok d) =>
    match ← notifyAll send d.abortOnFailure d.actions with
    | some e => pure (some (.error e.reply))
    | none => pure (some d.reply)

/-- Makes a call with at most `depth` levels of calls nested in it. -/
def call : Nat → Call → NetM (Except TransportError Answer)
  | 0, _ => pure (.error (.stream "call depth exhausted"))
  | depth + 1, c => do
    let n ← get
    if n.partitioned.contains c.peer then
      return .error (.connect (c.peer.describe ++ " is partitioned"))
    match c with
    | .kme id request =>
      let some i := n.route? id | return .error (.unknownPeer c.peer)
      let some response ← serveKme (call depth) i request | return .error (.unknownPeer c.peer)
      record c.peer request.name
      pure (.ok (.kme response))
    | .controller request =>
      let some response ← serveController (call depth) request | return .error (.unknownPeer c.peer)
      record c.peer request.name
      pure (.ok (.controller response))

/-- The nesting allowed to a call from outside. -/
def depth : Nat := 1000

/-- Calls a node from outside. -/
def callKme (id : KmeId) (request : KmeRequest) : NetM (Except TransportError KmeResponse) := do
  match ← call depth (.kme id request) with
  | .ok (.kme r) => pure (.ok r)
  | .ok (.controller _) => pure (.error (.codec "reply of the wrong kind"))
  | .error t => pure (.error t)

/-- Calls the controller from outside. -/
def callController (request : ControllerRequest Float) :
    NetM (Except TransportError ControllerResponse) := do
  match ← call depth (.controller request) with
  | .ok (.controller r) => pure (.ok r)
  | .ok (.kme _) => pure (.error (.codec "reply of the wrong kind"))
  | .error t => pure (.error t)

/-- A node registers with the controller at an address and gets its id. -/
def enrol (address : String) : NetM (Except Fault KmeId) := do
  match ← callController (.registerKme address) with
  | .error t => pure (.error (t.unreachable .controller))
  | .ok (.error reply) => pure (.error reply.fault)
  | .ok (.kmeRegistered id) => pure (.ok id)
  | .ok other => pure (.error (.violation (.enrolmentAnswer other.describe)))

/-- Cuts a peer off. -/
def partition (n : Network) (p : Peer) : Network :=
  { n with partitioned := if n.partitioned.contains p then n.partitioned else n.partitioned ++ [p] }

/-- Reconnects a peer. -/
def heal (n : Network) (p : Peer) : Network := { n with partitioned := n.partitioned.filter (· ≠ p) }

end Network

end KeyRelay
