import KeyRelay.Proofs.Handover
import KeyRelay.Proofs.RelayOrder
import KeyRelay.Proofs.Bookkeeping

/-! Agreement on keys across a network. A book (`Book`) follows every key from its generation to
its redemption. A network is as a book has it when each node is (`Network.Booked`), and a call
made anywhere in it, with every call nested in it, leaves the network as a later book has it,
moving on only the keys the call may move (`Network.call_settles`). Over a run of applications'
requests, a key is taken by an application at most once, and with the bytes it was given to the
other (`Network.Runs.agree`).

Every call completed may draw two generations' identifiers; the identifiers a run draws are
assumed not to wrap around. -/

namespace KeyRelay

/-- The identifiers one request's handling at a node may draw: two generations' worth. -/
def Kme.drawLimit : Nat := Engine.batchLimit + Engine.batchLimit

namespace Controller

variable {R : Type} [RateArith R] (s₀ : Env × Controller R)

/-- A registration draws at most the new session's id, and asks only that the nodes of the new
session's path be told of the session. -/
theorem registerApp_tells (r : AppRequest) :
    Lands (fun d s => (s.1 = s₀.1 ∧ d.actions = []) ∨ ∃ record : SessionRecord, record.ksid = s₀.1.draw.1 ∧
        s.1 = s₀.1.draw.2 ∧ d.actions = record.path.map fun k => .callKme k (.assignSession record))
      (fun s => s.1 = s₀.1) (registerApp r s₀) := by
  simp only [registerApp, current_bind]
  split
  · exact rfl
  simp only [env_bind]
  cases registered : s₀.2.directory.register r s₀.1.now with
  | error a => exact lands_error _ (.abort a) rfl
  | ok md =>
    obtain ⟨matched, d⟩ := md
    simp only [Halt.ofAbort, lift_ok_bind, change_bind]
    cases matched with
    | pending =>
      simp only [pure_run, Lands]
      exact .inl ⟨trivial, trivial⟩
    | pair master slave =>
      simp only
      cases found : s₀.2.graph.findPath master.kme slave.kme r.qos.rate
          (s₀.2.config.policy.overhead r.qos.rate s₀.2.config.prefetchKeys) s₀.1.now with
      | error x =>
        cases x with
        | abort a => simp only [throw_bind, Lands]
        | fault f =>
          simp only [change_bind, fail_bind, Lands]
      | ok res =>
        simp only [pure_bind, change_bind, draw_bind, env_bind, pure_run, Lands]
        refine .inr ⟨_, ?_, trivial, rfl⟩
        rfl

/-- Closing a connection draws nothing and asks for no call. -/
theorem closeConnection_tells (ksid : Ksid) :
    Lands (fun d s => s.1 = s₀.1 ∧ d.actions = []) (fun s => s.1 = s₀.1) (closeConnection ksid s₀) := by
  simp only [closeConnection, current_bind]
  cases found : s₀.2.directory.sessions.byKsid.get? ksid with
  | none =>
    rw [Directory.close_of_none found]
    exact rfl
  | some record =>
    obtain ⟨d', closed, -, -⟩ := Directory.close_of_some found
    simp only [closed, change_bind, pure_run, Lands]
    exact ⟨trivial, rfl⟩

/-- Aborting a session draws nothing. -/
theorem abortSession_stays (ksid : Ksid) :
    Lands (fun _ s => s.1 = s₀.1) (fun _ => False) (abortSession ksid s₀) := by
  simp only [abortSession, current_bind]
  cases found : s₀.2.directory.sessions.byKsid.get? ksid with
  | none => simp only [Directory.close_of_none found, pure_run, Lands]
  | some record =>
    obtain ⟨d', closed, -, -⟩ := Directory.close_of_some found
    simp only [closed, change_run, Lands]

end Controller

namespace Network

/-- A network as book `β` has it: each node as the book has it, under ids no two nodes share,
with nothing the book knows past the environment's counter. -/
structure Booked (β : Book) (N : Network) : Prop where
  nodes : ∀ k ∈ N.kmes, k.Booked β
  distinct : (N.kmes.map (·.id)).Nodup
  below : β.Below N.env

variable {β β' : Book} {N N₀ N₁ N' : Network}

/-- Nodes at two places of a network as a book has it answer to two ids. -/
theorem Booked.id_ne (booked : N.Booked β) {i j : Nat} {k k' : Kme} (at_ : N.kmes[i]? = some k)
    (at' : N.kmes[j]? = some k') (apart : i ≠ j) : k'.id ≠ k.id := by
  intro named
  have lifted : (N.kmes.map (·.id))[j]? = (N.kmes.map (·.id))[i]? := by simp [at_, at', named]
  have fits : ∀ {m : Nat} {k : Kme}, N.kmes[m]? = some k → m < (N.kmes.map (·.id)).length := fun found => by
    simpa using (List.getElem?_eq_some_iff.mp found).1
  have distinct := List.nodup_iff_getElem?_ne_getElem?.mp booked.distinct
  rcases Nat.lt_or_gt_of_ne apart with before | after
  · exact distinct i j before (fits at') lifted.symm
  · exact distinct j i after (fits at_) lifted

/-- A node's computation, run from the network as `β` has it, leaves the network as the book the
computation reached has it. -/
theorem Booked.set (booked : N.Booked β) {i : Nat} {k k' : Kme} {e e' : Env} {M : KeyId → Prop} {n : Nat}
    (at_ : N.kmes[i]? = some k) (moved : Kme.Moved β e k.id M n β' (e', k')) :
    ({ N with env := e', kmes := N.kmes.set i k' } : Network).Booked β' := by
  have same : k'.id = k.id := moved.id
  obtain ⟨bound, placed⟩ := List.getElem?_eq_some_iff.mp at_
  have ids : (N.kmes.set i k').map (·.id) = N.kmes.map (·.id) := by
    apply List.ext_getElem?
    intro j
    rw [List.map_set, List.getElem?_set]
    split
    · rename_i here
      subst here
      simp [same, bound, placed]
    · rfl
  refine ⟨fun k'' member => ?_, ids ▸ booked.distinct, moved.below⟩
  obtain ⟨j, found⟩ := List.mem_iff_getElem?.mp member
  rw [List.getElem?_set] at found
  split at found
  · -- the node that ran is as the book it reached has it
    cases found
    exact moved.booked
  · -- another node has another id, so no key it holds to its stage moved
    rename_i apart
    exact (booked.nodes k'' (List.mem_of_getElem? found)).confined moved.confined (booked.id_ne at_ found apart)

/-- A network with the nodes of one as `β` has it, over an environment `β` is below, is as `β` has it. -/
theorem Booked.same_nodes (booked : N.Booked β) (kmes : N'.kmes = N.kmes) (below : β.Below N'.env) : N'.Booked β :=
  ⟨kmes ▸ booked.nodes, kmes ▸ booked.distinct, below⟩

/-- A node of a network as `β` has it starts a computation as `β` has it. -/
theorem Booked.start (booked : N.Booked β) {i : Nat} {k : Kme} {M : KeyId → Prop} (at_ : N.kmes[i]? = some k) :
    Kme.Moved β N.env k.id M 0 β (N.env, k) :=
  Kme.Moved.start (booked.nodes k (List.mem_of_getElem? at_)) booked.below

/-! ### Draws -/

/-- From `N` to `N'`, at most `n` identifiers were drawn and then `Kme.drawLimit` for each call
completed. -/
def Drawn (n : Nat) (N N' : Network) : Prop :=
  ∃ j, N'.transcript.length = N.transcript.length + j ∧ Env.Drew (n + Kme.drawLimit * j) N.env N'.env

/-- Room among the identifiers for `n` draws and then `Kme.drawLimit` for each call completed
until the transcript has `t` entries. -/
def Room (n t : Nat) (N : Network) : Prop :=
  N.env.counter + N.env.step * (n + Kme.drawLimit * (t - N.transcript.length)) < Ident.space

theorem Drawn.refl (N : Network) : Drawn 0 N N := ⟨0, rfl, Env.Drew.refl _ _⟩

theorem Drawn.trans {n m : Nat} (first : Drawn n N N₁) (second : Drawn m N₁ N') : Drawn (n + m) N N' := by
  obtain ⟨j, grown, drew⟩ := first
  obtain ⟨j', grown', drew'⟩ := second
  refine ⟨j + j', by omega, (drew.trans drew').mono (le_of_eq ?_)⟩
  rw [Nat.mul_add]
  omega

/-- The draws of one request's handling, before any call completes. -/
theorem Drawn.handled {e : Env} {ks : List Kme} (drew : Env.Drew (0 + Engine.batchLimit + Engine.batchLimit) N.env e) :
    Drawn Kme.drawLimit N { N with env := e, kmes := ks } :=
  ⟨0, rfl, drew.mono (by simp [Kme.drawLimit])⟩

/-- A call completes after the draws of its handling. -/
theorem Drawn.record (drawn : Drawn Kme.drawLimit N N₁) (entry : Peer × String) :
    Drawn 0 N { N₁ with transcript := N₁.transcript ++ [entry] } := by
  obtain ⟨j, grown, drew⟩ := drawn
  refine ⟨j + 1, by simp [grown]; omega, drew.mono (le_of_eq ?_)⟩
  rw [Nat.mul_add]
  omega

/-- Draws made, the room left for the rest, by the same step. -/
theorem Drawn.room {n m t : Nat} (drawn : Drawn n N N₁) (room : Room (n + m) t N) (within : N₁.transcript.length ≤ t) :
    Room m t N₁ ∧ N₁.env.step = N.env.step := by
  obtain ⟨j, grown, drew⟩ := drawn
  have parts : n + m + Kme.drawLimit * (t - N.transcript.length) =
      n + Kme.drawLimit * j + (m + Kme.drawLimit * (t - N₁.transcript.length)) := by
    rw [show t - N.transcript.length = j + (t - N₁.transcript.length) by omega, Nat.mul_add]
    omega
  unfold Room at room
  rw [parts] at room
  exact drew.room room

theorem Room.mono {n m t t' : Nat} (room : Room n t N) (fewer : m ≤ n) (earlier : t' ≤ t) : Room m t' N :=
  lt_of_le_of_lt (Nat.add_le_add_left (Nat.mul_le_mul_left _
    (Nat.add_le_add fewer (Nat.mul_le_mul_left _ (Nat.sub_le_sub_right earlier _)))) _) room

/-- The room a call recorded at the end leaves for its handling and the calls nested in it. -/
theorem Room.record {t : Nat} (room : Room 0 (t + 1) N) (within : N.transcript.length ≤ t) : Room Kme.drawLimit t N := by
  have parts : 0 + Kme.drawLimit * (t + 1 - N.transcript.length) = Kme.drawLimit + Kme.drawLimit * (t - N.transcript.length) := by
    rw [show t + 1 - N.transcript.length = (t - N.transcript.length) + 1 by omega, Nat.mul_add]
    omega
  unfold Room at room ⊢
  rwa [parts] at room

/-- The room a request's handling needs. -/
theorem Room.handle {t : Nat} (room : Room Kme.drawLimit t N) :
    N.env.counter + N.env.step * (0 + Engine.batchLimit + Engine.batchLimit) < Ident.space :=
  lt_of_le_of_lt (Nat.add_le_add_left (Nat.mul_le_mul_left _ (by unfold Kme.drawLimit; omega)) _) room

/-! ### Running on a node or the controller -/

/-- A computation run on the node at an index: nothing when there is none, and otherwise the
network with the node and the environment it ended in, and its result as it came. -/
theorem onKme_lands {α : Type} {i : Nat} {m : KmeM α} {x : Option (Except Fault α)} (ran : onKme i m N = .ok x N') :
    (N.kmes[i]? = none ∧ x = none ∧ N' = N) ∨ ∃ k e k', N.kmes[i]? = some k ∧
      N' = { N with env := e, kmes := N.kmes.set i k' } ∧
      ((∃ a, x = some (.ok a) ∧ m (N.env, k) = .ok a (e, k')) ∨
        (∃ f, x = some (.error f) ∧ m (N.env, k) = .error (.fault f) (e, k'))) := by
  unfold onKme at ran
  split at ran
  · rename_i absent
    cases ran
    exact .inl ⟨absent, rfl, rfl⟩
  · rename_i k found
    unfold EStateM.outcome at ran
    cases run : m (N.env, k) with
    | ok a s =>
      obtain ⟨e, k'⟩ := s
      rw [run] at ran
      cases ran
      exact .inr ⟨k, e, k', found, rfl, .inl ⟨a, rfl, run⟩⟩
    | error h s =>
      obtain ⟨e, k'⟩ := s
      rw [run] at ran
      cases h with
      | fault f =>
        cases ran
        exact .inr ⟨k, e, k', found, rfl, .inr ⟨f, rfl, run⟩⟩
      | abort a => cases ran

/-- A computation run on the controller: nothing when there is none, and otherwise the network
with the controller and the environment it ended in, and its result as it came. -/
theorem onController_lands {α : Type} {m : ControllerM Float α} {x : Option (Except Fault α)}
    (ran : onController m N = .ok x N') :
    (N.controller = none ∧ x = none ∧ N' = N) ∨ ∃ c e c', N.controller = some c ∧
      N' = { N with env := e, controller := some c' } ∧
      ((∃ a, x = some (.ok a) ∧ m (N.env, c) = .ok a (e, c')) ∨
        (∃ f, x = some (.error f) ∧ m (N.env, c) = .error (.fault f) (e, c'))) := by
  unfold onController at ran
  split at ran
  · rename_i absent
    cases ran
    exact .inl ⟨absent, rfl, rfl⟩
  · rename_i c found
    unfold EStateM.outcome at ran
    cases run : m (N.env, c) with
    | ok a s =>
      obtain ⟨e, c'⟩ := s
      rw [run] at ran
      cases ran
      exact .inr ⟨c, e, c', found, rfl, .inl ⟨a, rfl, run⟩⟩
    | error h s =>
      obtain ⟨e, c'⟩ := s
      rw [run] at ran
      cases h with
      | fault f =>
        cases ran
        exact .inr ⟨c, e, c', found, rfl, .inr ⟨f, rfl, run⟩⟩
      | abort a => cases ran

/-! ### What answers say -/

theorem answers_error (c : Call) (t : TransportError) : c.Answers β β' (.error t) := by
  cases c with
  | kme q req => cases req <;> trivial
  | controller req => trivial

/-- An answer that hands out no keys says nothing of the books. -/
theorem answers_other {q : KmeId} {req : KmeRequest} {resp : KmeResponse} (other : ∀ cs, resp ≠ .keys cs) :
    (Call.kme q req).Answers β β' (.ok (.kme resp)) := by
  cases resp with
  | keys cs => exact absurd rfl (other cs)
  | _ => cases req <;> trivial

/-- A refusal hands out no keys. -/
theorem answers_refusal {q : KmeId} {req : KmeRequest} (reply : ErrorReply) :
    (Call.kme q req).Answers β β' (.ok (.kme (.error reply))) :=
  answers_other (by intro _ no; cases no)

/-- A node's reply still says what it should of every later book. -/
theorem Replies.answers {q : KmeId} {req : KmeRequest} {resp : KmeResponse} {β₁ β₂ : Book}
    (replies : Kme.Replies β β₁ req (.ready resp)) (grows : β₁.Grows β₂) :
    (Call.kme q req).Answers β β₂ (.ok (.kme resp)) := by
  cases resp with
  | keys cs =>
    cases req with
    | encKeys => exact fun c member => (replies c member).grow grows
    | decKeys =>
      obtain ⟨distinct, each⟩ := replies
      refine ⟨distinct, fun c member => ?_⟩
      obtain ⟨ready, spent, issued⟩ := each c member
      exact ⟨ready, grows.spent spent, issued.grow grows⟩
    | _ => trivial
  | _ => exact answers_other fun _ no => by cases no

/-! ### Calls that settle -/

/-- A call answered from `N` to `N'`, made in `N` as book `β` has it: a later book has `N'`, grown
from `β` by moving on only keys the call may move, and the answer says of the two books what it
should; the calls completed drew at most `Kme.drawLimit` identifiers each. -/
def Settles (β : Book) (c : Call) (N N' : Network) (ans : Except TransportError Answer) : Prop :=
  ∃ β', N'.Booked β' ∧ β.MovesOnly c.Movable β' ∧ c.Answers β β' ans ∧ Drawn 0 N N'

/-- Calls that only add to the transcript, and that settle whenever they are made in a network as
a book has it, asking what the book has, with room for what they draw. -/
def Settling (send : Call → NetM (Except TransportError Answer)) : Prop :=
  ∀ c N N' ans, send c N = .ok ans N' → N.transcript.length ≤ N'.transcript.length ∧
    ∀ β, N.Booked β → c.Asks β → 0 < N.env.step → Room 0 N'.transcript.length N → Settles β c N N' ans

variable {send : Call → NetM (Except TransportError Answer)}

/-- A call of a plan is its call sent, the answer read with no change to the network. -/
theorem perform_sends {a : Action} {x : Except Fault (Option ControllerResponse)} (ran : perform send a N = .ok x N') :
    (a.call? = none ∧ N' = N) ∨ ∃ c ans, a.call? = some c ∧ send c N = .ok ans N' := by
  cases a with
  | callKme q req required =>
    rw [perform] at ran
    obtain ⟨ans, N₁, sending, ran⟩ := run_bind_eq_ok ran
    have read : N' = N₁ := by split at ran <;> cases ran <;> rfl
    exact .inr ⟨_, ans, rfl, read ▸ sending⟩
  | callController req required =>
    rw [perform] at ran
    obtain ⟨ans, N₁, sending, ran⟩ := run_bind_eq_ok ran
    have read : N' = N₁ := by split at ran <;> cases ran <;> rfl
    exact .inr ⟨_, ans, rfl, read ▸ sending⟩
  | learnAddress =>
    cases ran
    exact .inl ⟨rfl, rfl⟩

theorem perform_settles (sends : Settling send) (a : Action) {x : Except Fault (Option ControllerResponse)}
    (ran : perform send a N = .ok x N') :
    N.transcript.length ≤ N'.transcript.length ∧ ∀ β, N.Booked β → (∀ c, a.call? = some c → c.Asks β) →
      0 < N.env.step → Room 0 N'.transcript.length N → ∃ β', N'.Booked β' ∧ β.MovesOnly a.Movable β' ∧ Drawn 0 N N' := by
  rcases perform_sends ran with ⟨-, rfl⟩ | ⟨c, ans, made, sending⟩
  · exact ⟨le_rfl, fun β booked _ _ _ => ⟨β, booked, .refl _ _, .refl _⟩⟩
  obtain ⟨grown, settles⟩ := sends c N N' ans sending
  refine ⟨grown, fun β booked asks pos room => ?_⟩
  obtain ⟨β', booked', moves, -, drawn⟩ := settles β booked (asks c made) pos room
  exact ⟨β', booked', moves.mono fun i movable => ⟨c, made, movable⟩, drawn⟩

/-- A plan's calls made in order, each finding the book as it asks, move the book on only by
what some call may move. -/
theorem performAll_settles (sends : Settling send) (actions : List Action) :
    ∀ (reply : Option ControllerResponse) {N N' : Network} {x : Except Fault (Option ControllerResponse)},
      performAll send actions reply N = .ok x N' →
      N.transcript.length ≤ N'.transcript.length ∧ ∀ β, N.Booked β → β.Planned actions → 0 < N.env.step →
        Room 0 N'.transcript.length N →
        ∃ β', N'.Booked β' ∧ β.MovesOnly (fun i => ∃ a ∈ actions, a.Movable i) β' ∧ Drawn 0 N N' := by
  induction actions with
  | nil =>
    intro reply N N' x ran
    cases ran
    exact ⟨le_rfl, fun β booked _ _ _ => ⟨β, booked, .refl _ _, .refl _⟩⟩
  | cons a rest ih =>
    intro reply N N' x ran
    rw [performAll] at ran
    obtain ⟨y, N₁, performing, ran⟩ := run_bind_eq_ok ran
    obtain ⟨grown, first⟩ := perform_settles sends a performing
    have head : ∀ i, a.Movable i → ∃ b ∈ a :: rest, b.Movable i := fun i movable => ⟨a, List.mem_cons_self, movable⟩
    -- the rest of the plan goes on from where the first call left the network
    have onward : ∀ r, performAll send rest r N₁ = .ok x N' →
        N.transcript.length ≤ N'.transcript.length ∧ ∀ β, N.Booked β → β.Planned (a :: rest) → 0 < N.env.step →
          Room 0 N'.transcript.length N →
          ∃ β', N'.Booked β' ∧ β.MovesOnly (fun i => ∃ b ∈ a :: rest, b.Movable i) β' ∧ Drawn 0 N N' := by
      intro r ran
      obtain ⟨grown', after⟩ := ih r ran
      refine ⟨grown.trans grown', fun β booked planned pos room => ?_⟩
      obtain ⟨β₁, booked₁, moves₁, drawn₁⟩ := first β booked planned.1 pos (room.mono le_rfl grown')
      obtain ⟨room₁, step⟩ := drawn₁.room (m := 0) room grown'
      obtain ⟨β', booked', moves', drawn'⟩ := after β₁ booked₁ (planned.2 β₁ moves₁) (step ▸ pos) room₁
      have tail : ∀ i, (∃ b ∈ rest, b.Movable i) → ∃ b ∈ a :: rest, b.Movable i := by
        rintro i ⟨b, member, movable⟩
        exact ⟨b, List.mem_cons_of_mem a member, movable⟩
      exact ⟨β', booked', (moves₁.mono head).trans (moves'.mono tail), drawn₁.trans drawn'⟩
    split at ran
    · exact onward _ ran
    · exact onward _ ran
    · split at ran
      · -- a required call failed: the plan stops there
        cases ran
        refine ⟨grown, fun β booked planned pos room => ?_⟩
        obtain ⟨β₁, booked₁, moves₁, drawn₁⟩ := first β booked planned.1 pos room
        exact ⟨β₁, booked₁, moves₁.mono head, drawn₁⟩
      · exact onward _ ran

/-- Dropping clear keys at a node draws nothing and moves nothing in the book. -/
theorem discard_settles {i : Nat} {keys : List (Ksid × KeyId)} {y : Option (Except Fault Unit)}
    (ran : onKme i (Kme.discardKeys keys) N = .ok y N') :
    N'.transcript = N.transcript ∧ ∀ β, N.Booked β → ∃ β', N'.Booked β' ∧ β.MovesOnly (fun _ => False) β' ∧ Drawn 0 N N' := by
  rcases onKme_lands ran with ⟨-, -, rfl⟩ | ⟨k, e, k', found, rfl, ⟨a, -, run⟩ | ⟨f, -, run⟩⟩
  · exact ⟨rfl, fun β booked => ⟨β, booked, .refl _ _, .refl _⟩⟩
  all_goals
    refine ⟨rfl, fun β booked => ?_⟩
    have landed := Kme.discardKeys_moved keys (N.env, k) (booked.start (M := fun _ => False) found)
    rw [run] at landed
  · exact ⟨β, booked.set found landed, landed.movesOnly, 0, rfl, landed.drew.mono (Nat.zero_le _)⟩
  · obtain ⟨β', moved⟩ := landed
    exact ⟨β', booked.set found moved, moved.movesOnly, 0, rfl, moved.drew.mono (Nat.zero_le _)⟩

/-- A node serving a request found as it asks, with every call of its plan settling: it replies,
and leaves the network as a later book has it. -/
theorem serveKme_settles (sends : Settling send) {i : Nat} {k : Kme} {req : KmeRequest} {x : Option KmeResponse}
    (at_ : N.kmes[i]? = some k) (ran : serveKme send i req N = .ok x N') :
    N.transcript.length ≤ N'.transcript.length ∧ (x = none → N' = N) ∧
      ∀ β, N.Booked β → (Call.kme k.id req).Asks β → 0 < N.env.step → Room Kme.drawLimit N'.transcript.length N →
        ∃ β', N'.Booked β' ∧ β.MovesOnly (Call.kme k.id req).Movable β' ∧
          (∀ resp, x = some resp → (Call.kme k.id req).Answers β β' (.ok (.kme resp))) ∧ Drawn Kme.drawLimit N N' := by
  unfold serveKme at ran
  obtain ⟨handled, N₀, handling, ran⟩ := run_bind_eq_ok ran
  rcases onKme_lands handling with ⟨absent, -, -⟩ | ⟨k₀, e, k', found, rfl, ⟨plan, rfl, run⟩ | ⟨f, rfl, run⟩⟩
  · rw [at_] at absent
    cases absent
  all_goals
    rw [at_] at found
    cases found
  · obtain ⟨performed, N₂, performing, ran⟩ := run_bind_eq_ok ran
    obtain ⟨grown, carried⟩ := performAll_settles sends plan.actions none performing
    -- the handler reached a book in which the plan's calls find what they ask
    have core : ∀ β, N.Booked β → (Call.kme k.id req).Asks β → 0 < N.env.step →
        Room Kme.drawLimit N₂.transcript.length N → ∃ β₁ β₂, N₂.Booked β₂ ∧
          β.MovesOnly (Call.kme k.id req).Movable β₂ ∧ Kme.Replies β β₁ req plan.reply ∧ β₁.Grows β₂ ∧
          Drawn Kme.drawLimit N N₂ := by
      intro β booked asks pos room
      have landed := Kme.handle_moves req asks room.handle pos (N.env, k) (booked.start at_)
      rw [run] at landed
      obtain ⟨β₁, moved, planned, replies, within⟩ := landed
      have drawn₀ : Drawn Kme.drawLimit N { N with env := e, kmes := N.kmes.set i k' } := Drawn.handled moved.drew
      obtain ⟨room₀, step⟩ := drawn₀.room (m := 0) room grown
      obtain ⟨β₂, booked₂, moves₂, drawn₂⟩ := carried β₁ (booked.set at_ moved) planned (step ▸ pos) room₀
      have inside : ∀ j, (∃ a ∈ plan.actions, a.Movable j) → (Call.kme k.id req).Movable j :=
        fun j moves => moves.elim fun a held => within a held.1 j held.2
      exact ⟨β₁, β₂, booked₂, moved.movesOnly.trans (moves₂.mono inside), replies, moves₂.1, drawn₀.trans drawn₂⟩
    -- each way the request ends, the reply read off the books reached
    have finish : ∀ resp, (∀ β β₁ β₂, Kme.Replies β β₁ req plan.reply → β₁.Grows β₂ →
        (Call.kme k.id req).Answers β β₂ (.ok (.kme resp))) →
        N.transcript.length ≤ N₂.transcript.length ∧ (some resp = none → N₂ = N) ∧
          ∀ β, N.Booked β → (Call.kme k.id req).Asks β → 0 < N.env.step → Room Kme.drawLimit N₂.transcript.length N →
            ∃ β', N₂.Booked β' ∧ β.MovesOnly (Call.kme k.id req).Movable β' ∧
              (∀ r, some resp = some r → (Call.kme k.id req).Answers β β' (.ok (.kme r))) ∧ Drawn Kme.drawLimit N N₂ := by
      intro resp answers
      refine ⟨grown, fun nothing => (by cases nothing), fun β booked asks pos room => ?_⟩
      obtain ⟨β₁, β₂, booked₂, moves₂, replies, grows, drawn₂⟩ := core β booked asks pos room
      exact ⟨β₂, booked₂, moves₂, fun r same => (by cases same; exact answers β β₁ β₂ replies grows), drawn₂⟩
    have failed : ∀ r, (∀ cs, r ≠ .keys cs) → ∀ β β₁ β₂, Kme.Replies β β₁ req plan.reply → β₁.Grows β₂ →
        (Call.kme k.id req).Answers β β₂ (.ok (.kme r)) := fun r other _ _ _ _ _ => answers_other other
    cases performed with
    | error failure =>
      dsimp only at ran
      split at ran
      · -- a required call failed: the clear keys the plan names are dropped
        obtain ⟨dropped, N₃, dropping, ran⟩ := run_bind_eq_ok ran
        cases ran
        obtain ⟨same, kept⟩ := discard_settles dropping
        refine ⟨grown.trans (le_of_eq (congrArg List.length same.symm)), fun nothing => (by cases nothing),
          fun β booked asks pos room => ?_⟩
        obtain ⟨β₁, β₂, booked₂, moves₂, -, -, drawn₂⟩ := core β booked asks pos (by rwa [same] at room)
        obtain ⟨β₃, booked₃, moves₃, drawn₃⟩ := kept β₂ booked₂
        exact ⟨β₃, booked₃, moves₂.trans (moves₃.mono fun _ no => no.elim),
          fun r same => (by cases same; exact answers_refusal _), drawn₂.trans drawn₃⟩
      · cases ran
        exact finish _ (failed _ (by intro _ no; cases no))
    | ok reply =>
      dsimp only at ran
      cases reach : plan.reply with
      | ready r =>
        rw [reach] at ran
        cases ran
        exact finish r fun β β₁ β₂ replies grows => Replies.answers (reach ▸ replies) grows
      | fromController =>
        rw [reach] at ran
        -- the reply is read off the controller's answer, whatever it is
        rcases reply with _ | (_ | _ | reg | _) <;> cases ran <;> exact finish _ (failed _ (by intro _ no; cases no))
  · -- the handler failed: its fault is the reply
    cases ran
    refine ⟨le_rfl, fun nothing => (by cases nothing), fun β booked asks pos room => ?_⟩
    have landed := Kme.handle_moves req asks room.handle pos (N.env, k) (booked.start at_)
    rw [run] at landed
    obtain ⟨β₁, moved⟩ := landed
    exact ⟨β₁, booked.set at_ moved, moved.movesOnly,
      fun r same => (by cases same; exact answers_refusal _), Drawn.handled moved.drew⟩

/-! ### The controller -/

theorem one_le_drawLimit : 1 ≤ Kme.drawLimit := by
  unfold Kme.drawLimit Engine.batchLimit
  decide

/-- Commands whose calls to nodes each find, in every book grown from `β`, what they ask, and move
no key. -/
def Quiet (β : Book) (cmds : List Command) : Prop :=
  ∀ cmd ∈ cmds, ∀ q r, cmd = .callKme q r → (∀ β', β.Grows β' → (Call.kme q r).Asks β') ∧ ∀ i, ¬ (Call.kme q r).Movable i

theorem Quiet.tail {cmd : Command} {cmds : List Command} (quiet : Quiet β (cmd :: cmds)) : Quiet β cmds :=
  fun c member => quiet c (List.mem_cons_of_mem _ member)

theorem Quiet.grow {cmds : List Command} (quiet : Quiet β cmds) (grows : β.Grows β') : Quiet β' cmds := by
  intro c member q r made
  obtain ⟨asks, still⟩ := quiet c member q r made
  exact ⟨fun β'' later => asks β'' (grows.trans later), still⟩

/-- The controller's handling of a request a node may make, from the network as `β` has it: it
leaves the network as a book with at most one session more has it, and every call it asks for
finds in every later book what it asks, and moves no key. -/
theorem controller_decides {req : ControllerRequest Float} {c c' : Controller Float} {d : Decision} {e : Env}
    (booked : N.Booked β) (asks : (Call.controller req).Asks β) (pos : 0 < N.env.step)
    (room : N.env.counter + N.env.step < Ident.space) (run : Controller.handle req (N.env, c) = .ok d (e, c')) :
    ∃ β₁, ({ N with env := e, controller := some c' } : Network).Booked β₁ ∧ β.MovesOnly (fun _ => False) β₁ ∧
      Env.Drew 1 N.env e ∧ Quiet β₁ d.actions := by
  -- a decision that files no session and asks for no call
  have idle : e = N.env → d.actions = [] → ∃ β₁, ({ N with env := e, controller := some c' } : Network).Booked β₁ ∧
      β.MovesOnly (fun _ => False) β₁ ∧ Env.Drew 1 N.env e ∧ Quiet β₁ d.actions := by
    rintro rfl none
    refine ⟨β, booked.same_nodes rfl booked.below, .refl _ _, .refl 1 _, fun cmd member => ?_⟩
    rw [none] at member
    cases member
  cases req with
  | registerApp src dst kme qos master =>
    have landed : Lands _ _ (Controller.handle (.registerApp src dst kme qos master) (N.env, c)) :=
      Controller.registerApp_tells (N.env, c) ⟨src, dst, kme, qos, master⟩
    rw [run] at landed
    rcases landed with ⟨same, none⟩ | ⟨record, drawn, rfl, told⟩
    · exact idle same none
    -- a session is filed under the id just drawn, which the book did not know
    have counted : record.ksid.val = N.env.counter + N.env.step := by
      rw [drawn]
      exact Nat.mod_eq_of_lt room
    have fresh : β.sessions record.ksid = none := (booked.below record.ksid (by omega)).2.2
    have grows : β.Grows (β.enter record) := Book.enter_grows fresh
    have still : ∀ i, (β.enter record).stage i = β.stage i := fun _ => rfl
    have after : (N.env.after 1).counter = N.env.counter + N.env.step := Nat.mod_eq_of_lt room
    refine ⟨β.enter record, ⟨fun k member => (booked.nodes k member).grow grows fun i moved => absurd (still i) moved,
      booked.distinct, ((booked.below.drew (Env.Drew.exact N.env 1) (by omega)).enter (by omega))⟩,
      ⟨grows, fun i _ => still i⟩, Env.Drew.exact N.env 1, fun cmd member q r made => ?_⟩
    rw [told] at member
    obtain ⟨k, -, rfl⟩ := List.mem_map.mp member
    cases made
    refine ⟨fun β' later => later.sessions _ _ ?_, fun _ no => no⟩
    show (if record.ksid = record.ksid then some record else β.sessions record.ksid) = some record
    rw [if_pos rfl]
  | closeConnection ksid =>
    have landed : Lands _ _ (Controller.handle (.closeConnection ksid) (N.env, c)) :=
      Controller.closeConnection_tells (N.env, c) ksid
    rw [run] at landed
    exact idle landed.1 landed.2
  | _ => exact asks.elim

/-- The controller's handling that fails draws nothing. -/
theorem controller_fails {req : ControllerRequest Float} {c c' : Controller Float} {f : Fault} {e : Env}
    (asks : (Call.controller req).Asks β) (run : Controller.handle req (N.env, c) = .error (.fault f) (e, c')) :
    e = N.env := by
  cases req with
  | registerApp src dst kme qos master =>
    have landed : Lands _ _ (Controller.handle (.registerApp src dst kme qos master) (N.env, c)) :=
      Controller.registerApp_tells (N.env, c) ⟨src, dst, kme, qos, master⟩
    rw [run] at landed
    exact landed
  | closeConnection ksid =>
    have landed : Lands _ _ (Controller.handle (.closeConnection ksid) (N.env, c)) :=
      Controller.closeConnection_tells (N.env, c) ksid
    rw [run] at landed
    exact landed
  | _ => exact asks.elim

/-- Aborting a session changes the controller only. -/
theorem abort_stays {ksid : Ksid} {y : Option (Except Fault Unit)}
    (ran : onController (Controller.abortSession ksid) N = .ok y N') :
    N'.transcript = N.transcript ∧ N'.kmes = N.kmes ∧ N'.env = N.env := by
  rcases onController_lands ran with ⟨-, -, rfl⟩ | ⟨c, e, c', -, rfl, ⟨a, -, run⟩ | ⟨f, -, run⟩⟩
  · exact ⟨rfl, rfl, rfl⟩
  · have landed := Controller.abortSession_stays (N.env, c) ksid
    rw [run] at landed
    exact ⟨rfl, rfl, landed⟩
  · have landed := Controller.abortSession_stays (N.env, c) ksid
    rw [run] at landed
    exact landed.elim

/-- The controller's calls to nodes, made in order, each finding in every later book what it asks
and moving no key, move no key. -/
theorem notifyAll_settles (sends : Settling send) (abort : Option Ksid) (cmds : List Command) :
    ∀ {N N' : Network} {x : Option Fault}, notifyAll send abort cmds N = .ok x N' →
      N.transcript.length ≤ N'.transcript.length ∧ ∀ β, N.Booked β → Quiet β cmds → 0 < N.env.step →
        Room 0 N'.transcript.length N →
        ∃ β', N'.Booked β' ∧ β.MovesOnly (fun _ => False) β' ∧ Drawn 0 N N' := by
  induction cmds with
  | nil =>
    intro N N' x ran
    cases ran
    exact ⟨le_rfl, fun β booked _ _ _ => ⟨β, booked, .refl _ _, .refl _⟩⟩
  | cons cmd rest ih =>
    intro N N' x ran
    cases cmd with
    | learnAddress q address =>
      rw [notifyAll] at ran
      obtain ⟨grown, after⟩ := ih ran
      exact ⟨grown, fun β booked quiet => after β booked quiet.tail⟩
    | callKme q r =>
      rw [notifyAll] at ran
      obtain ⟨ans, N₁, sending, ran⟩ := run_bind_eq_ok ran
      obtain ⟨grown, settles⟩ := sends _ _ _ _ sending
      -- the call settles in a book grown from `β` with no key moved
      have first : ∀ β, N.Booked β → Quiet β (.callKme q r :: rest) → 0 < N.env.step → Room 0 N₁.transcript.length N →
          ∃ β₁, N₁.Booked β₁ ∧ β.MovesOnly (fun _ => False) β₁ ∧ Drawn 0 N N₁ := by
        intro β booked quiet pos room
        obtain ⟨asks, still⟩ := quiet _ List.mem_cons_self q r rfl
        obtain ⟨β₁, booked₁, moves₁, -, drawn₁⟩ := settles β booked (asks β (.refl β)) pos room
        exact ⟨β₁, booked₁, moves₁.mono fun i movable => still i movable, drawn₁⟩
      have goal_of : N.transcript.length ≤ N₁.transcript.length → (N₁.transcript.length ≤ N'.transcript.length) →
          (∀ β₁, N₁.Booked β₁ → Quiet β₁ rest → 0 < N₁.env.step → Room 0 N'.transcript.length N₁ →
            ∃ β', N'.Booked β' ∧ β₁.MovesOnly (fun _ => False) β' ∧ Drawn 0 N₁ N') →
          N.transcript.length ≤ N'.transcript.length ∧ ∀ β, N.Booked β → Quiet β (.callKme q r :: rest) →
            0 < N.env.step → Room 0 N'.transcript.length N →
            ∃ β', N'.Booked β' ∧ β.MovesOnly (fun _ => False) β' ∧ Drawn 0 N N' := by
        intro grown grown' after
        refine ⟨grown.trans grown', fun β booked quiet pos room => ?_⟩
        obtain ⟨β₁, booked₁, moves₁, drawn₁⟩ := first β booked quiet pos (room.mono le_rfl grown')
        obtain ⟨room₁, step⟩ := drawn₁.room (m := 0) room grown'
        obtain ⟨β', booked', moves', drawn'⟩ := after β₁ booked₁ (quiet.tail.grow moves₁.1) (step ▸ pos) room₁
        exact ⟨β', booked', moves₁.trans moves', drawn₁.trans drawn'⟩
      -- a failed call aborts the session being set up and ends the calls; otherwise they go on
      have stopped : ∀ (ksid : Ksid) (failure : Fault),
          (do let _ ← onController (Controller.abortSession ksid); pure (some failure) : NetM (Option Fault)) N₁ =
            .ok x N' → N'.transcript = N₁.transcript ∧ N'.kmes = N₁.kmes ∧ N'.env = N₁.env := by
        intro ksid failure ran
        obtain ⟨_, N₂, aborting, ran⟩ := run_bind_eq_ok ran
        cases ran
        exact abort_stays aborting
      suffices next : notifyAll send abort rest N₁ = .ok x N' ∨
          N'.transcript = N₁.transcript ∧ N'.kmes = N₁.kmes ∧ N'.env = N₁.env by
        rcases next with ran | ⟨same, kmes, env⟩
        · exact goal_of grown (ih ran).1 (ih ran).2
        · refine goal_of grown (le_of_eq (congrArg List.length same.symm)) fun β₁ booked₁ _ _ _ =>
            ⟨β₁, booked₁.same_nodes kmes (env ▸ booked₁.below), .refl _ _, 0, by simp [same], ?_⟩
          rw [env]
          exact Env.Drew.refl _ _
      cases abort with
      | none => rcases ans with t | ((_ | _ | _ | _ | reply) | answer) <;> exact .inl ran
      | some ksid =>
        rcases ans with t | (resp | answer)
        · exact .inr (stopped ksid _ ran)
        · cases resp with
          | error reply => exact .inr (stopped ksid _ ran)
          | _ => exact .inl ran
        · exact .inl ran

/-- The controller serving a request a node may make, with every call it asks for settling: the
network is left as a later book has it, with no key moved. -/
theorem serveController_settles (sends : Settling send) {req : ControllerRequest Float} {x : Option ControllerResponse}
    (ran : serveController send req N = .ok x N') :
    N.transcript.length ≤ N'.transcript.length ∧ (x = none → N' = N) ∧
      ∀ β, N.Booked β → (Call.controller req).Asks β → 0 < N.env.step → Room Kme.drawLimit N'.transcript.length N →
        ∃ β', N'.Booked β' ∧ β.MovesOnly (fun _ => False) β' ∧ Drawn Kme.drawLimit N N' := by
  unfold serveController at ran
  obtain ⟨handled, N₀, handling, served⟩ := run_bind_eq_ok ran
  clear ran
  rcases onController_lands handling with ⟨-, rfl, rfl⟩ | ⟨c, e, c', -, rfl, ⟨d, rfl, run⟩ | ⟨f, rfl, run⟩⟩
  · cases served
    exact ⟨le_rfl, fun _ => rfl, fun β booked _ _ _ => ⟨β, booked, .refl _ _, 0, rfl, Env.Drew.refl _ _⟩⟩
  · obtain ⟨failure, N₂, notifying, ran⟩ := run_bind_eq_ok served
    clear served
    obtain ⟨grown, told⟩ := notifyAll_settles sends _ _ notifying
    have core : ∀ β, N.Booked β → (Call.controller req).Asks β → 0 < N.env.step →
        Room Kme.drawLimit N₂.transcript.length N →
        ∃ β', N₂.Booked β' ∧ β.MovesOnly (fun _ => False) β' ∧ Drawn Kme.drawLimit N N₂ := by
      intro β booked asks pos room
      have fits : N.env.counter + N.env.step < Ident.space := by
        have more : N.env.step * 1 ≤
            N.env.step * (Kme.drawLimit + Kme.drawLimit * (N₂.transcript.length - N.transcript.length)) :=
          Nat.mul_le_mul_left _ (le_add_right one_le_drawLimit)
        unfold Room at room
        omega
      obtain ⟨β₁, booked₁, moves₁, drew, quiet⟩ := controller_decides booked asks pos fits run
      have drawn₀ : Drawn Kme.drawLimit N { N with env := e, controller := some c' } :=
        ⟨0, rfl, drew.mono one_le_drawLimit⟩
      obtain ⟨room₀, step⟩ := drawn₀.room (m := 0) room grown
      obtain ⟨β₂, booked₂, moves₂, drawn₂⟩ := told β₁ booked₁ quiet (step ▸ pos) room₀
      exact ⟨β₂, booked₂, moves₁.trans moves₂, drawn₀.trans drawn₂⟩
    rcases failure with _ | failure <;> cases ran <;> exact ⟨grown, fun nothing => (by cases nothing), core⟩
  · -- a failure draws nothing
    cases served
    refine ⟨le_rfl, fun nothing => (by cases nothing), fun β booked asks _ _ => ?_⟩
    have same := controller_fails asks run
    subst same
    exact ⟨β, booked.same_nodes rfl booked.below, .refl _ _, 0, rfl, Env.Drew.refl _ _⟩

/-! ### Every call -/

/-- A call that does not go through changes nothing. -/
theorem settles_refused {c : Call} {t : TransportError} :
    N.transcript.length ≤ N.transcript.length ∧ ∀ β, N.Booked β → c.Asks β → 0 < N.env.step →
      Room 0 N.transcript.length N → Settles β c N N (.error t) :=
  ⟨le_rfl, fun β booked _ _ _ => ⟨β, booked, .refl _ _, answers_error c t, .refl _⟩⟩

/-- A call served and then recorded settles as its serving did: the one transcript entry the record
adds is the room the serving's draws were given. -/
theorem recorded_settles {c : Call} {ans : Except TransportError Answer} (entry : Peer × String)
    (grown : N.transcript.length ≤ N₁.transcript.length)
    (settles : ∀ β, N.Booked β → c.Asks β → 0 < N.env.step → Room Kme.drawLimit N₁.transcript.length N →
      ∃ β', N₁.Booked β' ∧ β.MovesOnly c.Movable β' ∧ c.Answers β β' ans ∧ Drawn Kme.drawLimit N N₁) :
    N.transcript.length ≤ (N₁.transcript ++ [entry]).length ∧ ∀ β, N.Booked β → c.Asks β → 0 < N.env.step →
      Room 0 (N₁.transcript ++ [entry]).length N → Settles β c N { N₁ with transcript := N₁.transcript ++ [entry] } ans := by
  rw [List.length_append, List.length_singleton]
  refine ⟨by omega, fun β booked asks pos room => ?_⟩
  obtain ⟨β', booked', moves, answers, drawn⟩ := settles β booked asks pos (room.record grown)
  exact ⟨β', booked'.same_nodes rfl booked'.below, moves, answers, drawn.record entry⟩

/-- Every call, with the calls nested in it to any depth, settles: made in a network as a book
has it, asking what the book has, it leaves the network as a later book has it, moving on only
the keys it may move, and its answer says of the two books what it should. -/
theorem call_settles (d : Nat) : Settling (call d) := by
  induction d with
  | zero =>
    intro c N N' ans ran
    cases ran
    exact settles_refused
  | succ d ih =>
    intro c N N' ans ran
    rw [call] at ran
    obtain ⟨m, N₀, got, ran⟩ := run_bind_eq_ok ran
    cases got
    split at ran
    · cases ran
      exact settles_refused
    cases c with
    | kme id request =>
      dsimp only at ran
      cases found : N.route? id with
      | none =>
        rw [found] at ran
        cases ran
        exact settles_refused
      | some i =>
        rw [found] at ran
        obtain ⟨k, at_, named⟩ := route?_eq_some found
        subst named
        obtain ⟨served, N₁, serving, ran⟩ := run_bind_eq_ok ran
        obtain ⟨grown, nothing, settles⟩ := serveKme_settles ih at_ serving
        cases served with
        | none =>
          cases nothing rfl
          cases ran
          exact settles_refused
        | some resp =>
          obtain ⟨_, N₂, recorded, ran⟩ := run_bind_eq_ok ran
          cases recorded
          cases ran
          -- the call is recorded once every call nested in it has completed
          refine recorded_settles _ grown fun β booked asks pos room => ?_
          obtain ⟨β', booked', moves, answers, drawn⟩ := settles β booked asks pos room
          exact ⟨β', booked', moves, answers resp rfl, drawn⟩
    | controller request =>
      dsimp only at ran
      obtain ⟨served, N₁, serving, ran⟩ := run_bind_eq_ok ran
      obtain ⟨grown, nothing, settles⟩ := serveController_settles ih serving
      cases served with
      | none =>
        cases nothing rfl
        cases ran
        exact settles_refused
      | some resp =>
        obtain ⟨_, N₂, recorded, ran⟩ := run_bind_eq_ok ran
        cases recorded
        cases ran
        refine recorded_settles _ grown fun β booked asks pos room => ?_
        obtain ⟨β', booked', moves, drawn⟩ := settles β booked asks pos room
        exact ⟨β', booked', moves, trivial, drawn⟩

/-- A call from outside answered by a node settles, and a key it hands out is one the call's
answer hands out. -/
theorem callKme_settles {id : KmeId} {req : KmeRequest} {ans : Except TransportError KmeResponse}
    (ran : callKme id req N = .ok ans N') :
    N.transcript.length ≤ N'.transcript.length ∧ ∀ β, N.Booked β → (Call.kme id req).Asks β → 0 < N.env.step →
      Room 0 N'.transcript.length N → ∃ β', N'.Booked β' ∧ β.Grows β' ∧
        (∀ cs, ans = .ok (.keys cs) → (Call.kme id req).Answers β β' (.ok (.kme (.keys cs)))) ∧ Drawn 0 N N' := by
  unfold callKme at ran
  obtain ⟨a, N₁, calling, read⟩ := run_bind_eq_ok ran
  clear ran
  obtain ⟨grown, settles⟩ := call_settles depth _ _ _ _ calling
  -- the answer is read off the call's, with no change to the network
  have same : N' = N₁ ∧ ∀ cs, ans = .ok (.keys cs) → a = .ok (.kme (.keys cs)) := by
    rcases a with t | (r | r) <;> cases read <;> exact ⟨rfl, fun cs same => by cases same <;> rfl⟩
  obtain ⟨rfl, keyed⟩ := same
  refine ⟨grown, fun β booked asks pos room => ?_⟩
  obtain ⟨β', booked', moves, answers, drawn⟩ := settles β booked asks pos room
  exact ⟨β', booked', moves.1, fun cs same => keyed cs same ▸ answers, drawn⟩

/-! ### Runs of applications' requests -/

/-- The requests applications make of their nodes. -/
def fromApplication : KmeRequest → Bool
  | .openSession .. | .encKeys .. | .decKeys .. | .status .. | .closeSession .. => true
  | _ => false

theorem asks_of_fromApplication {q : KmeId} {req : KmeRequest} (applied : fromApplication req = true) :
    (Call.kme q req).Asks β := by
  cases req with
  | openSession => trivial
  | encKeys => trivial
  | decKeys => trivial
  | status => trivial
  | closeSession => trivial
  | _ => cases applied

/-- A request from outside to a node, with the answer it got. -/
structure Exchange where
  node : KmeId
  request : KmeRequest
  answer : Except TransportError KmeResponse

/-- The keys an answer hands out. -/
def handed : Except TransportError KmeResponse → List KeyContainer
  | .ok (.keys cs) => cs
  | _ => []

theorem mem_handed {ans : Except TransportError KmeResponse} {c : KeyContainer} (member : c ∈ handed ans) :
    ∃ cs, ans = .ok (.keys cs) ∧ c ∈ cs := by
  cases ans with
  | error t => cases member
  | ok r =>
    cases r with
    | keys cs => exact ⟨cs, rfl, member⟩
    | _ => cases member

/-- The keys an exchange gave the master's application. -/
def Exchange.given (x : Exchange) : List KeyContainer :=
  match x.request with
  | .encKeys .. => handed x.answer
  | _ => []

/-- The keys an exchange gave the slave's application. -/
def Exchange.taken (x : Exchange) : List KeyContainer :=
  match x.request with
  | .decKeys .. => handed x.answer
  | _ => []

/-- Runs of applications' requests to their nodes, one at a time, with time passing between them:
the exchanges in order, from one network to another. -/
inductive Runs : Network → List Exchange → Network → Prop
  | done (N : Network) : Runs N [] N
  | ask {N N₁ N' : Network} {id : KmeId} {req : KmeRequest} {ans : Except TransportError KmeResponse}
      {rest : List Exchange} (applied : fromApplication req = true) (ran : callKme id req N = .ok ans N₁)
      (next : Runs N₁ rest N') : Runs N (⟨id, req, ans⟩ :: rest) N'
  | wait {N N' : Network} {rest : List Exchange} (ms : Nat)
      (next : Runs { N with env := N.env.advance ms } rest N') : Runs N rest N'

/-- What the exchanges so far leave in book `β`: every key given or taken is filed with its bytes,
every key taken was redeemed, and none was taken twice. -/
structure Agrees (β : Book) (xs : List Exchange) : Prop where
  given : ∀ c ∈ xs.flatMap Exchange.given, β.Issued c
  taken : ∀ c ∈ xs.flatMap Exchange.taken, β.Issued c ∧ β.stage c.keyId = .spent
  once : ((xs.flatMap Exchange.taken).map (·.keyId)).Nodup

/-- The keys one exchange hands out, read off what its answer says of the books. -/
theorem Exchange.answered {x : Exchange}
    (answers : ∀ cs, x.answer = .ok (.keys cs) → (Call.kme x.node x.request).Answers β β' (.ok (.kme (.keys cs)))) :
    (∀ c ∈ x.given, β'.Issued c) ∧ (x.taken.map (·.keyId)).Nodup ∧
      ∀ c ∈ x.taken, β.stage c.keyId = .ready ∧ β'.stage c.keyId = .spent ∧ β'.Issued c := by
  obtain ⟨id, req, ans⟩ := x
  cases req with
  | encKeys a b n size =>
    refine ⟨fun c member => ?_, List.nodup_nil, fun c member => (by cases member)⟩
    obtain ⟨cs, rfl, listed⟩ := mem_handed member
    exact answers cs rfl c listed
  | decKeys a b keys =>
    refine ⟨fun c member => (by cases member), ?_⟩
    cases ans with
    | error t => exact ⟨List.nodup_nil, fun c member => (by cases member)⟩
    | ok r =>
      cases r with
      | keys cs => exact answers cs rfl
      | _ => exact ⟨List.nodup_nil, fun c member => (by cases member)⟩
  | _ => exact ⟨fun c member => (by cases member), List.nodup_nil, fun c member => (by cases member)⟩

/-- One more exchange, answered as it should be from book `β` to a later book `β'`. -/
theorem Agrees.step {prior : List Exchange} (agrees : Agrees β prior) (grows : β.Grows β') {x : Exchange}
    (answers : ∀ cs, x.answer = .ok (.keys cs) → (Call.kme x.node x.request).Answers β β' (.ok (.kme (.keys cs)))) :
    Agrees β' (prior ++ [x]) := by
  obtain ⟨given, distinct, taken⟩ := Exchange.answered answers
  refine ⟨fun c member => ?_, fun c member => ?_, ?_⟩
  · simp only [List.flatMap_append, List.flatMap_cons, List.flatMap_nil, List.append_nil, List.mem_append] at member
    rcases member with old | new
    · exact (agrees.given c old).grow grows
    · exact given c new
  · simp only [List.flatMap_append, List.flatMap_cons, List.flatMap_nil, List.append_nil, List.mem_append] at member
    rcases member with old | new
    · exact ⟨(agrees.taken c old).1.grow grows, grows.spent (agrees.taken c old).2⟩
    · exact ⟨(taken c new).2.2, (taken c new).2.1⟩
  · -- a key taken before is redeemed, and one taken now was still waiting
    simp only [List.flatMap_append, List.flatMap_cons, List.flatMap_nil, List.append_nil, List.map_append]
    refine List.nodup_append.mpr ⟨agrees.once, distinct, fun i old j new same => ?_⟩
    obtain ⟨c, listed, rfl⟩ := List.mem_map.mp old
    obtain ⟨c', listed', rfl⟩ := List.mem_map.mp new
    have spent := (agrees.taken c listed).2
    rw [same, (taken c' listed').1] at spent
    cases spent

/-- Along a run, the network stays as a book has it, and the exchanges agree in that book. -/
theorem Runs.settle {xs : List Exchange} (run : N.Runs xs N') :
    N.transcript.length ≤ N'.transcript.length ∧ ∀ β prior, N.Booked β → Agrees β prior → 0 < N.env.step →
      Room 0 N'.transcript.length N → ∃ β', N'.Booked β' ∧ Agrees β' (prior ++ xs) := by
  induction run with
  | done N => exact ⟨le_rfl, fun β prior booked agrees _ _ => ⟨β, booked, by simpa using agrees⟩⟩
  | ask applied ran next ih =>
    obtain ⟨grown, settles⟩ := callKme_settles ran
    obtain ⟨grown', after⟩ := ih
    refine ⟨grown.trans grown', fun β prior booked agrees pos room => ?_⟩
    obtain ⟨β₁, booked₁, grows, answers, drawn⟩ :=
      settles β booked (asks_of_fromApplication applied) pos (room.mono le_rfl grown')
    obtain ⟨room₁, step⟩ := drawn.room (m := 0) room grown'
    obtain ⟨β', booked', agrees'⟩ := after β₁ _ booked₁ (agrees.step (x := ⟨_, _, _⟩) grows answers) (step ▸ pos) room₁
    exact ⟨β', booked', by simpa using agrees'⟩
  | wait ms next ih =>
    obtain ⟨grown, after⟩ := ih
    exact ⟨grown, fun β prior booked agrees pos room =>
      after β prior (booked.same_nodes rfl booked.below) agrees pos room⟩

end Network

end KeyRelay
