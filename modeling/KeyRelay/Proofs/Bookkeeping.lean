import KeyRelay.Controller
import KeyRelay.Proofs.Node

/-! What each step of the controller does to the rates it has reserved and to its open sessions,
for rates in any `RateArith`. A step either only reshapes the graph (its nodes, links and rate
samples) and the waiting registrations, or opens a session whose path passed the headroom check
and reserves its demands, or closes a session and gives its rates back (`Controller.Moves`). -/

namespace KeyRelay

variable {R : Type}

/-- The rates a reservation takes from the edge with ends `key`, in path order. -/
def Reservation.ratesOn (r : Reservation R) (key : KmeId × KmeId) : List R :=
  ((r.edges.zip r.demand).filter fun p => edgeKey p.1.1 p.1.2 = key).map (·.2)

namespace Reservation

/-- A bare path holds nothing. -/
@[simp] theorem ratesOn_bare (path : List KmeId) (key : KmeId × KmeId) :
    (⟨path, []⟩ : Reservation R).ratesOn key = [] := by
  simp [ratesOn]

theorem mem_ratesOn {r : Reservation R} {key : KmeId × KmeId} {x : R} (held : x ∈ r.ratesOn key) :
    ∃ p ∈ r.edges.zip r.demand, edgeKey p.1.1 p.1.2 = key ∧ p.2 = x := by
  simpa [ratesOn] using held

end Reservation

namespace Graph

/-- The reserved rate of the edge with ends `key`, when there is one. -/
def reservedAt (g : Graph R) (key : KmeId × KmeId) : Option R := (g.edges.get? key).map (·.reserved)

/-- The path table was built from the graph at some point. -/
def Tabled (g : Graph R) : Prop := ∀ t, g.paths = some t → ∃ g' : Graph R, t = g'.allPairs

theorem topologyChanged_edges (g : Graph R) : g.topologyChanged.edges = g.edges := by
  unfold topologyChanged
  split
  · rfl
  · dsimp only
    split <;> rfl

theorem tabled_topologyChanged {g : Graph R} (built : g.Tabled) : g.topologyChanged.Tabled := by
  intro t paths
  unfold topologyChanged at paths
  split at paths
  · exact ⟨g, (Option.some.inj paths).symm⟩
  · dsimp only at paths
    split at paths
    · exact ⟨g, (Option.some.inj paths).symm⟩
    · exact built t paths

theorem addNode_edges (g : Graph R) (k : KmeId) (address : String) : (g.addNode k address).2.edges = g.edges := by
  unfold addNode
  split
  · rfl
  · exact topologyChanged_edges _

theorem tabled_addNode {g : Graph R} (built : g.Tabled) (k : KmeId) (address : String) :
    (g.addNode k address).2.Tabled := by
  unfold addNode
  split
  · exact built
  · exact tabled_topologyChanged built

/-- A rate sample changes the samples of an edge and nothing of what it reserved. -/
theorem record_ok {g g' : Graph R} {link : LinkId} {t : Nat} {rate : R} (ok : g.record link t rate = .ok g') :
    g'.paths = g.paths ∧ ∀ key, g'.reservedAt key = g.reservedAt key := by
  unfold record at ok
  cases linked : g.links.get? link with
  | none => simp [linked] at ok
  | some key =>
    cases found : g.edges.get? key with
    | none =>
      simp only [linked, found] at ok
      cases ok
      exact ⟨rfl, fun _ => rfl⟩
    | some e =>
      cases window : Halt.ofAbort (e.window.record t rate) with
      | error h => simp [linked, found, window] at ok
      | ok w =>
        simp only [linked, found, window] at ok
        cases ok
        refine ⟨rfl, fun j => ?_⟩
        simp only [reservedAt, Table.get?_insert]
        split
        · subst_vars
          simp [found]
        · rfl

/-- A new link passed every check of `addEdge`: both ends are registered, they differ, and no edge
joins them yet. The graph then holds the link's edge under its ends, with a window started for
its samples and nothing reserved, the link's entry, and each end in the other's list. -/
theorem addEdge_eq [RateArith R] {g g' : Graph R} {link : LinkId} {a b : KmeId} {t : Nat} {rate : R}
    (ok : g.addEdge link a b t rate = .ok g') :
    (g.nodes.get? a).isSome ∧ (g.nodes.get? b).isSome ∧ a ≠ b ∧ g.edges.get? (edgeKey a b) = none ∧
      ∃ w : CapacityWindow R, g' =
        { g with edges := g.edges.insert (edgeKey a b) ⟨link, w, 0⟩
                 links := g.links.insert link (edgeKey a b)
                 adjacency := Graph.link (Graph.link g.adjacency a b) b a }.topologyChanged := by
  unfold addEdge at ok
  simp only [bind, Except.bind, throw, throwThe, MonadExceptOf.throw, pure, Except.pure] at ok
  -- the checks in order: both ends registered, no loop, no edge yet, a window for the samples
  split at ok
  · cases ok
  rename_i registered
  split at ok
  · cases ok
  rename_i distinct
  split at ok
  · cases ok
  rename_i absent
  split at ok
  · cases ok
  cases ok
  have both : g.nodes.contains a = true ∧ g.nodes.contains b = true := by
    by_cases ha : g.nodes.contains a = true <;> by_cases hb : g.nodes.contains b = true <;>
      simp [ha, hb, List.forIn_cons, bind, Except.bind, pure, Except.pure] at registered ⊢
  have none : g.edges.get? (edgeKey a b) = none := by
    cases found : g.edges.get? (edgeKey a b) with
    | none => rfl
    | some e => exact (absent e found).elim
  rw [← Table.contains_eq_isSome, ← Table.contains_eq_isSome]
  exact ⟨both.1, both.2, distinct, none, _, rfl⟩

/-- A new link adds an edge, under ends that had none, with nothing reserved. -/
theorem addEdge_ok [RateArith R] {g g' : Graph R} {link : LinkId} {a b : KmeId} {t : Nat} {rate : R}
    (ok : g.addEdge link a b t rate = .ok g') :
    g.edges.get? (edgeKey a b) = none ∧ (g.Tabled → g'.Tabled) ∧
      ∀ key, g'.reservedAt key = if edgeKey a b = key then some 0 else g.reservedAt key := by
  obtain ⟨-, -, -, absent, w, rfl⟩ := addEdge_eq ok
  refine ⟨absent, fun built => tabled_topologyChanged built, fun key => ?_⟩
  simp only [reservedAt, topologyChanged_edges, Table.get?_insert]
  split <;> rfl

/-- Changing what each edge of a reservation holds changes, for each pair of ends, the reserved
rate of its edge by the reservation's rates on it in path order, and nothing else. -/
theorem adjust_edges (g : Graph R) (r : Reservation R) (f : R → R → R) (key : KmeId × KmeId) :
    (g.adjust r f).edges.get? key =
      (g.edges.get? key).map fun e => { e with reserved := (r.ratesOn key).foldl f e.reserved } := by
  unfold adjust Reservation.ratesOn
  generalize r.edges.zip r.demand = pairs
  induction pairs generalizing g with
  | nil =>
    simp only [List.foldl_nil, List.filter_nil, List.map_nil]
    cases g.edges.get? key <;> rfl
  | cons p rest ih =>
    obtain ⟨⟨a, b⟩, rate⟩ := p
    rw [List.foldl_cons, ih]
    by_cases on : edgeKey a b = key
    · cases found : g.edges.get? key <;> simp [on, found]
    · simp [on]

theorem adjust_paths (g : Graph R) (r : Reservation R) (f : R → R → R) : (g.adjust r f).paths = g.paths := by
  unfold adjust
  generalize r.edges.zip r.demand = pairs
  induction pairs generalizing g with
  | nil => rfl
  | cons p rest ih => exact ih _

theorem reservedAt_adjust (g : Graph R) (r : Reservation R) (f : R → R → R) (key : KmeId × KmeId) :
    (g.adjust r f).reservedAt key = (g.reservedAt key).map fun x => (r.ratesOn key).foldl f x := by
  simp only [reservedAt, adjust_edges, Option.map_map]
  rfl

/-- What the headroom check asked of one edge at `now`: the edge exists, its capacity is known,
the rate asked does not exceed the headroom, and it is the session's rate, with the overhead on
the first edge of a relayed path. -/
def Admitted [RateArith R] (g : Graph R) (now : Nat) (rate overhead : R) (p : KmeId × KmeId) (d : R) :
    Prop :=
  ∃ e cap, g.edge p.1 p.2 = some e ∧ e.capacity now = .ok cap ∧ RateArith.lt (cap - e.reserved) d = false ∧
    (d = rate ∨ d = rate + overhead)

theorem demands_ok [RateArith R] {g : Graph R} {src dst : KmeId} {rate overhead : R} {now : Nat}
    {relay : Bool} : ∀ {i : Nat} {pairs : List (KmeId × KmeId)} {ds : List R},
    g.demands src dst rate overhead now relay i pairs = .ok ds →
      List.Forall₂ (g.Admitted now rate overhead) pairs ds
  | _, [], ds, ok => by
    simp only [demands, pure, Except.pure, Except.ok.injEq] at ok
    subst ok
    exact .nil
  | i, (a, b) :: rest, ds, ok => by
    simp only [demands, bind, Except.bind, throw, throwThe, MonadExceptOf.throw, pure, Except.pure] at ok
    cases found : g.edge a b with
    | none => simp [found] at ok
    | some e =>
    cases capacity : e.capacity now with
    | error x => simp [found, Edge.headroom, capacity, Halt.ofAbort, bind, Except.bind] at ok
    | ok cap =>
    have measured : Halt.ofAbort (e.headroom now) = .ok (cap - e.reserved) := by
      simp [Edge.headroom, capacity, Halt.ofAbort, bind, Except.bind, pure, Except.pure]
    simp only [found, measured] at ok
    generalize asked : (if (decide (i = 0) && relay) = true then rate + overhead else rate) = requested at ok
    -- the rest of the path is checked only once this edge has passed
    cases fits : RateArith.lt (cap - e.reserved) requested with
    | true => simp [fits] at ok
    | false =>
    cases later : g.demands src dst rate overhead now relay (i + 1) rest with
    | error x => simp [fits, later] at ok
    | ok ds' =>
    simp only [fits, later, Except.ok.injEq, Bool.false_eq_true, if_false] at ok
    subst ok
    refine .cons ⟨e, cap, found, capacity, fits, ?_⟩ (demands_ok later)
    rw [← asked]
    split
    · exact .inr rfl
    · exact .inl rfl

/-- A reservation found for a path is the path of the table from `src` to `dst`, every edge of
which passed the headroom check. -/
theorem findPath_ok [RateArith R] {g : Graph R} {src dst : KmeId} {rate overhead : R} {now : Nat}
    {res : Reservation R} (ok : g.findPath src dst rate overhead now = .ok res) :
    (∃ t, g.paths = some t ∧ t.get? (src, dst) = some res.path) ∧
      List.Forall₂ (g.Admitted now rate overhead) res.edges res.demand := by
  simp only [findPath, bind, Except.bind, throw, throwThe, MonadExceptOf.throw, pure, Except.pure] at ok
  cases tabled : g.paths with
  | none => simp [tabled] at ok
  | some t =>
  cases found : t.get? (src, dst) with
  | none => simp [tabled, found] at ok
  | some path =>
  cases demanded : g.demands src dst rate overhead now (decide (path.length > 2)) 0 (path.zip path.tail) with
  | error x => simp [tabled, found, demanded] at ok
  | ok demand =>
  simp only [tabled, found, demanded, Except.ok.injEq] at ok
  subst ok
  exact ⟨⟨t, rfl, found⟩, demands_ok demanded⟩

theorem tabled_record {g g' : Graph R} {link : LinkId} {t : Nat} {rate : R} (ok : g.record link t rate = .ok g')
    (built : g.Tabled) : g'.Tabled := by
  intro table paths
  rw [(record_ok ok).1] at paths
  exact built table paths

theorem tabled_adjust {g : Graph R} (built : g.Tabled) (r : Reservation R) (f : R → R → R) :
    (g.adjust r f).Tabled := by
  intro table paths
  rw [adjust_paths] at paths
  exact built table paths

end Graph

namespace Directory

theorem purgeExpired_ok {d d' : Directory R} {now n : Nat} (ok : d.purgeExpired now = .ok (n, d')) :
    d'.sessions = d.sessions ∧ d'.reservations = d.reservations := by
  simp only [purgeExpired, bind, Except.bind, pure, Except.pure] at ok
  split at ok
  · cases ok
  · cases ok
    exact ⟨rfl, rfl⟩

/-- Registering a side changes only the waiting registrations. -/
theorem register_ok {d d' : Directory R} {r : AppRequest} {now : Nat} {m : Matched}
    (ok : d.register r now = .ok (m, d')) : d'.sessions = d.sessions ∧ d'.reservations = d.reservations := by
  unfold register at ok
  cases purged : d.purgeExpired now with
  | error x => simp [purged, bind, Except.bind] at ok
  | ok nd =>
    obtain ⟨n, d₁⟩ := nd
    obtain ⟨sessions, reservations⟩ := purgeExpired_ok purged
    simp only [purged, bind, Except.bind, pure, Except.pure] at ok
    rw [← sessions, ← reservations]
    split at ok
    · split at ok <;> (cases ok; exact ⟨rfl, rfl⟩)
    · cases ok
      exact ⟨rfl, rfl⟩

theorem close_of_none {d : Directory R} {ksid : Ksid} (absent : d.sessions.byKsid.get? ksid = none) :
    d.close ksid = (none, d) := by
  simp [close, SessionIndex.remove, absent]

/-- Closing an open session removes it with its stored reservation, the bare path standing in
when none was stored. -/
theorem close_of_some {d : Directory R} {ksid : Ksid} {record : SessionRecord}
    (found : d.sessions.byKsid.get? ksid = some record) :
    ∃ d', d.close ksid = (some (record, (d.reservations.get? ksid).getD ⟨record.path, []⟩), d') ∧
      d'.sessions.byKsid = d.sessions.byKsid.erase ksid ∧ d'.reservations = d.reservations.erase ksid := by
  simp [close, SessionIndex.remove, found]

end Directory

namespace Controller

/-- A controller made from a valid configuration: no node, link, half link or registration yet,
with the configured window, sample interval, expected counts and time to live. -/
theorem create_eq {config : ControllerConfig} {c : Controller R} (created : create config = .ok c) :
    c = { config
          graph := { windowMs := config.windowMs, intervalMs := config.sampleIntervalMs,
                     expectedNodes := config.expectedNodes, expectedLinks := config.expectedLinks }
          directory := { pendingTtlMs := config.pendingTtlMs } } := by
  unfold create at created
  split at created
  · cases created
  · cases created
    rfl

section Runs

variable {α β : Type} (s : Env × Controller R)

/-! One equation per primitive of the controller's computations, so that a request's run is
computed by rewriting, never by unfolding the monad. -/

theorem current_bind (f : Controller R → ControllerM R α) : (current >>= f) s = f s.2 s := rfl

theorem env_bind (f : Env → ControllerM R α) : (env >>= f) s = f s.1 s := rfl

theorem change_bind (g : Controller R → Controller R) (f : Unit → ControllerM R α) :
    (change g >>= f) s = f () (s.1, g s.2) := rfl

theorem change_run (g : Controller R → Controller R) : (change g) s = .ok () (s.1, g s.2) := rfl

theorem draw_bind (f : Ident → ControllerM R α) : (draw >>= f) s = f s.1.draw.1 (s.1.draw.2, s.2) := rfl

theorem fail_run (x : Fault) : (fail x : ControllerM R α) s = .error (.fault x) s := rfl

theorem fail_bind (x : Fault) (f : α → ControllerM R β) : (fail x >>= f) s = .error (.fault x) s := rfl

theorem pure_bind (a : α) (f : α → ControllerM R β) : (pure a >>= f) s = f a s := rfl

theorem pure_run (a : α) : (pure a : ControllerM R α) s = .ok a s := rfl

theorem lift_ok_bind (a : α) (f : α → ControllerM R β) : (lift (.ok a) >>= f) s = f a s := rfl

theorem throw_bind (x : Halt) (f : α → ControllerM R β) : (throw x >>= f) s = .error x s := rfl

theorem lift_error_bind (x : Halt) (f : α → ControllerM R β) : (lift (.error x) >>= f) s = .error x s := rfl

theorem Lands.imp {σ : Type} {Q Q' : α → σ → Prop} {E : σ → Prop} {r : EStateM.Result Halt σ α}
    (landed : Lands Q E r) (weaken : ∀ a t, Q a t → Q' a t) : Lands Q' E r := by
  cases r with
  | ok a t => exact weaken a t landed
  | error x t => cases x <;> exact landed

theorem lands_error {Q : α → Env × Controller R → Prop} {E : Env × Controller R → Prop} (x : Halt)
    (holds : E s) : Lands Q E (.error x s) := by
  cases x <;> simp only [Lands, holds]

end Runs

variable [RateArith R]

/-- How a step can change the graph short of its reserved rates: not at all, by registering a
node, by recording a rate sample, or by adding a link. -/
inductive Reshapes (g : Graph R) : Graph R → Prop
  | same : Reshapes g g
  | node (k : KmeId) (address : String) : Reshapes g (g.addNode k address).2
  | sample {g' : Graph R} (link : LinkId) (t : Nat) (rate : R) : g.record link t rate = .ok g' → Reshapes g g'
  | link {g' : Graph R} (link : LinkId) (a b : KmeId) (t : Nat) (rate : R) :
      g.addEdge link a b t rate = .ok g' → Reshapes g g'

/-- A session admitted from `s₀` under `ksid`: its path passed the headroom check on the graph of
`s₀` at its clock, the graph reserves its demands, and the directory holds its record and
reservation under the next identifier drawn. -/
inductive Admits (s₀ s : Env × Controller R) : Ksid → Prop
  | intro (src dst : KmeId) (qos : Qos) (res : Reservation R) (record : SessionRecord)
      (found : s₀.2.graph.findPath src dst qos.rate
        (s₀.2.config.policy.overhead qos.rate s₀.2.config.prefetchKeys) s₀.1.now = .ok res)
      (drawn : record.ksid = s₀.1.draw.1)
      (graph : s.2.graph = s₀.2.graph.reserve res)
      (sessions : s.2.directory.sessions.byKsid = s₀.2.directory.sessions.byKsid.insert record.ksid record)
      (reservations : s.2.directory.reservations = s₀.2.directory.reservations.insert record.ksid res) :
      Admits s₀ s record.ksid

/-- A session of `s₀` closed: it is gone from the directory and its reservation, or its bare path
when none was stored, is released. -/
inductive Closes (s₀ s : Env × Controller R) : Prop
  | intro (ksid : Ksid) (record : SessionRecord)
      (found : s₀.2.directory.sessions.byKsid.get? ksid = some record)
      (graph : s.2.graph = s₀.2.graph.release ((s₀.2.directory.reservations.get? ksid).getD ⟨record.path, []⟩))
      (sessions : s.2.directory.sessions.byKsid = s₀.2.directory.sessions.byKsid.erase ksid)
      (reservations : s.2.directory.reservations = s₀.2.directory.reservations.erase ksid)

/-- What one step does to the graph and the open sessions: it reshapes the graph and leaves the
sessions, or admits a session, or closes one. -/
inductive Moves (s₀ s : Env × Controller R) : Prop
  | reshape (graph : Reshapes s₀.2.graph s.2.graph)
      (sessions : s.2.directory.sessions.byKsid = s₀.2.directory.sessions.byKsid)
      (reservations : s.2.directory.reservations = s₀.2.directory.reservations)
  | admission {ksid : Ksid} (admits : Admits s₀ s ksid)
  | close (closes : Closes s₀ s)

theorem Moves.keep {s₀ s : Env × Controller R} (graph : s.2.graph = s₀.2.graph)
    (directory : s.2.directory = s₀.2.directory) : Moves s₀ s :=
  .reshape (graph ▸ .same) (by rw [directory]) (by rw [directory])

section Requests

variable (s₀ : Env × Controller R)

theorem registerKme_lands (address : String) :
    Lands (fun _ => Moves s₀) (Moves s₀) (registerKme address s₀) := by
  simp only [registerKme, draw_bind, change_bind, pure_run, Lands]
  exact .reshape (.node _ _) rfl rfl

theorem newLink_lands (link : LinkId) (kme : KmeId) (rate : R) :
    Lands (fun _ => Moves s₀) (Moves s₀) (newLink link kme rate s₀) := by
  simp only [newLink, current_bind]
  split
  · exact Moves.keep rfl rfl
  simp only [env_bind]
  cases ends : s₀.2.graph.linkEnds link with
  | some ab =>
    -- a confirmed link: the report is a rate sample
    obtain ⟨a, b⟩ := ab
    simp only
    by_cases foreign : kme ≠ a ∧ kme ≠ b
    · rw [if_pos foreign, fail_bind]
      exact Moves.keep rfl rfl
    rw [if_neg foreign]
    cases sampled : s₀.2.graph.record link s₀.1.now rate with
    | error x => rw [lift_error_bind]; exact lands_error _ x (Moves.keep rfl rfl)
    | ok g =>
      simp only [lift_ok_bind, change_bind, pure_run, Lands]
      exact .reshape (.sample _ _ _ sampled) rfl rfl
  | none =>
    simp only
    cases halves : s₀.2.halfLinks.get? link with
    | some half =>
      simp only
      by_cases other : half.kme ≠ kme
      · -- the second end to report a link confirms it
        rw [if_pos other]
        cases added : s₀.2.graph.addEdge link half.kme kme s₀.1.now (RateArith.least rate half.rate) with
        | error x => rw [lift_error_bind]; exact lands_error _ x (Moves.keep rfl rfl)
        | ok g =>
          simp only [lift_ok_bind, change_bind, current_bind, pure_run, Lands]
          exact .reshape (.link _ _ _ _ _ added) rfl rfl
      · rw [if_neg other]
        simp only [change_bind, pure_run, Lands]
        exact .reshape .same rfl rfl
    | none =>
      simp only [change_bind, pure_run, Lands]
      exact .reshape .same rfl rfl

theorem updateLink_lands (link : LinkId) (rate : R) :
    Lands (fun _ => Moves s₀) (Moves s₀) (updateLink link rate s₀) := by
  simp only [updateLink, current_bind]
  cases halves : s₀.2.halfLinks.get? link with
  | some half =>
    simp only [change_bind, pure_run, Lands]
    exact .reshape .same rfl rfl
  | none =>
    simp only [env_bind]
    cases sampled : s₀.2.graph.record link s₀.1.now rate with
    | error x => rw [lift_error_bind]; exact lands_error _ x (Moves.keep rfl rfl)
    | ok g =>
      simp only [lift_ok_bind, change_bind, pure_run, Lands]
      exact .reshape (.sample _ _ _ sampled) rfl rfl

/-- A registration moves the controller, and when it replies with a session that session was
admitted. -/
theorem registerApp_lands (r : AppRequest) :
    Lands (fun d s => Moves s₀ s ∧ ∀ ksid, d.reply = .session (.registered ksid) → Admits s₀ s ksid)
      (Moves s₀) (registerApp r s₀) := by
  simp only [registerApp, current_bind]
  split
  · exact Moves.keep rfl rfl
  simp only [env_bind]
  cases registered : s₀.2.directory.register r s₀.1.now with
  | error a => exact lands_error _ (.abort a) (Moves.keep rfl rfl)
  | ok md =>
    obtain ⟨matched, d⟩ := md
    obtain ⟨sessions, reservations⟩ := Directory.register_ok registered
    simp only [Halt.ofAbort, lift_ok_bind, change_bind]
    cases matched with
    | pending =>
      simp only [pure_run, Lands]
      exact ⟨.reshape .same (congrArg _ sessions) reservations, fun _ replied => nomatch replied⟩
    | pair master slave =>
      simp only
      cases found : s₀.2.graph.findPath master.kme slave.kme r.qos.rate
          (s₀.2.config.policy.overhead r.qos.rate s₀.2.config.prefetchKeys) s₀.1.now with
      | error x =>
        cases x with
        | abort a => simp only [throw_bind, Lands]
        | fault f =>
          -- the other side waits again
          simp only [change_bind, fail_bind, Lands]
          exact .reshape .same (congrArg _ sessions) reservations
      | ok res =>
        simp only [pure_bind, change_bind, draw_bind, env_bind, pure_run, Lands]
        let record : SessionRecord :=
          { ksid := s₀.1.draw.1, src := r.src, dst := r.dst, kmeSrc := master.kme, kmeDst := slave.kme,
            qos := r.qos, path := res.path, createdAt := s₀.1.draw.2.wallSecs }
        have admits : Admits s₀
            (s₀.1.draw.2, { s₀.2 with graph := s₀.2.graph.reserve res, directory := d.openSession record res })
            record.ksid := .intro master.kme slave.kme r.qos res record found rfl rfl
          (by simp only [Directory.openSession, SessionIndex.insert, sessions])
          (by simp only [Directory.openSession, reservations])
        refine ⟨.admission admits, fun ksid replied => ?_⟩
        cases replied
        exact admits

/-- A registration from a registered node whose other side waits is admitted, under the next
identifier drawn, as soon as a path with headroom is found. -/
theorem registerApp_of_found {r master slave : AppRequest} {d : Directory R} {res : Reservation R}
    (known : (s₀.2.graph.address r.kme).isNone = false)
    (paired : s₀.2.directory.register r s₀.1.now = .ok (.pair master slave, d))
    (found : s₀.2.graph.findPath master.kme slave.kme r.qos.rate
      (s₀.2.config.policy.overhead r.qos.rate s₀.2.config.prefetchKeys) s₀.1.now = .ok res) :
    ∃ decision s, registerApp r s₀ = .ok decision s ∧ decision.reply = .session (.registered s₀.1.draw.1) := by
  simp only [registerApp, current_bind, known, Bool.false_eq_true, if_false, env_bind, paired, Halt.ofAbort,
    lift_ok_bind, change_bind, found, pure_bind, draw_bind, pure_run]
  exact ⟨_, _, rfl, rfl⟩

theorem closeConnection_lands (ksid : Ksid) :
    Lands (fun _ => Moves s₀) (Moves s₀) (closeConnection ksid s₀) := by
  simp only [closeConnection, current_bind]
  cases found : s₀.2.directory.sessions.byKsid.get? ksid with
  | none =>
    rw [Directory.close_of_none found]
    exact Moves.keep rfl rfl
  | some record =>
    obtain ⟨d', closed, sessions, reservations⟩ := Directory.close_of_some found
    simp only [closed, change_bind, pure_run, Lands]
    exact .close (.intro ksid record found rfl sessions reservations)

/-- Aborting a session closes it, or does nothing when it is not open; it never admits one. -/
theorem abortSession_lands (ksid : Ksid) :
    Lands (fun _ s => s = s₀ ∨ Closes s₀ s) (fun _ => False) (abortSession ksid s₀) := by
  simp only [abortSession, current_bind]
  cases found : s₀.2.directory.sessions.byKsid.get? ksid with
  | none => simp only [Directory.close_of_none found, pure_run, Lands, true_or]
  | some record =>
    obtain ⟨d', closed, sessions, reservations⟩ := Directory.close_of_some found
    simp only [closed, change_run, Lands]
    exact .inr (.intro ksid record found rfl sessions reservations)

theorem handle_lands (request : ControllerRequest R) :
    Lands (fun _ => Moves s₀) (Moves s₀) (handle request s₀) := by
  cases request with
  | registerKme address => exact registerKme_lands s₀ address
  | newLink link kme rate _ => exact newLink_lands s₀ link kme rate
  | updateLink link rate => exact updateLink_lands s₀ link rate
  | registerApp src dst kme qos master =>
    exact Lands.imp (registerApp_lands s₀ ⟨src, dst, kme, qos, master⟩) fun _ _ moved => moved.1
  | closeConnection ksid => exact closeConnection_lands s₀ ksid

end Requests

/-- The state a run ends in, when it returns or fails with a fault; a stop ends the program. -/
def Ends {σ α : Type} : EStateM.Result Halt σ α → σ → Prop
  | .ok _ t, s => s = t
  | .error (.fault _) t, s => s = t
  | .error (.abort _) _, _ => False

theorem Lands.ends {σ α : Type} {P : σ → Prop} {r : EStateM.Result Halt σ α} {s : σ}
    (landed : Lands (fun _ => P) P r) (ended : Ends r s) : P s := by
  match r, landed, ended with
  | .ok _ _, landed, rfl => exact landed
  | .error (.fault _) _, landed, rfl => exact landed

/-- The identifier the environment draws next is no open session's. -/
def Fresh (s : Env × Controller R) : Prop := s.2.directory.sessions.byKsid.get? s.1.draw.1 = none

/-- Runs of the controller from `start`: requests handled, failed session setups aborted and the
clock advanced, in any order, each request handled from a state that satisfies `guard`. -/
inductive Run (guard : Env × Controller R → Prop) (start : Env × Controller R) :
    Env × Controller R → Prop
  | start : Run guard start start
  | handle {s₀ s : Env × Controller R} (request : ControllerRequest R) (before : Run guard start s₀)
      (guarded : guard s₀) (ended : Ends (handle request s₀) s) : Run guard start s
  | abort {s₀ s : Env × Controller R} (ksid : Ksid) (before : Run guard start s₀)
      (ended : Ends (abortSession ksid s₀) s) : Run guard start s
  | advance {s₀ : Env × Controller R} (ms : Nat) (before : Run guard start s₀) :
      Run guard start (s₀.1.advance ms, s₀.2)

/-- A property of the controller that every move from a guarded state and every close keeps
holds all along a run. -/
theorem Run.invariant {guard : Env × Controller R → Prop} {start s : Env × Controller R}
    {I : Controller R → Prop} (run : Run guard start s) (holds : I start.2)
    (moves : ∀ s₀ s, guard s₀ → I s₀.2 → Moves s₀ s → I s.2)
    (closes : ∀ s₀ s, I s₀.2 → Closes s₀ s → I s.2) : I s.2 := by
  induction run with
  | start => exact holds
  | handle request _ guarded ended before =>
    exact moves _ _ guarded before (Lands.ends (handle_lands _ request) ended)
  | @abort s₀ s ksid _ ended before =>
    have landed := abortSession_lands s₀ ksid
    generalize abortSession ksid s₀ = r at landed ended
    rcases r with ⟨_, t⟩ | ⟨_ | _, t⟩
    · obtain rfl : s = t := ended
      rcases landed with same | closed
      · exact same ▸ before
      · exact closes _ _ before closed
    · exact landed.elim
    · exact ended.elim
  | advance _ _ before => exact before

/-- Reshaping keeps every edge with its reserved rate, and a new edge holds nothing. -/
theorem Reshapes.reservedAt {g g' : Graph R} (reshapes : Reshapes g g') (key : KmeId × KmeId) :
    g'.reservedAt key = g.reservedAt key ∨ (g.reservedAt key = none ∧ g'.reservedAt key = some 0) := by
  cases reshapes with
  | same => exact .inl rfl
  | node k address => exact .inl (by simp only [Graph.reservedAt, Graph.addNode_edges])
  | sample link t rate ok => exact .inl ((Graph.record_ok ok).2 key)
  | link link a b t rate ok =>
    obtain ⟨absent, _, reserved⟩ := Graph.addEdge_ok ok
    rw [reserved key]
    split
    · rename_i new
      subst new
      exact .inr ⟨by simp [Graph.reservedAt, absent], rfl⟩
    · exact .inl rfl

theorem Reshapes.tabled {g g' : Graph R} (reshapes : Reshapes g g') (built : g.Tabled) : g'.Tabled := by
  cases reshapes with
  | same => exact built
  | node k address => exact Graph.tabled_addNode built k address
  | sample link t rate ok => exact Graph.tabled_record ok built
  | link link a b t rate ok => exact (Graph.addEdge_ok ok).2.1 built

theorem Moves.tabled {s₀ s : Env × Controller R} (moves : Moves s₀ s) (built : s₀.2.graph.Tabled) :
    s.2.graph.Tabled := by
  cases moves with
  | reshape graph _ _ => exact graph.tabled built
  | admission admits =>
    obtain ⟨_, _, _, res, _, _, _, graph, _, _⟩ := admits
    exact graph ▸ Graph.tabled_adjust built res _
  | close closes =>
    obtain ⟨ksid, record, _, graph, _, _⟩ := closes
    exact graph ▸ Graph.tabled_adjust built _ _

/-- Along every run from a fresh controller, the path table is one built from a graph. -/
theorem Run.tabled {guard : Env × Controller R → Prop} {config : ControllerConfig} {c : Controller R}
    {e : Env} {s : Env × Controller R} (created : create config = .ok c) (run : Run guard (e, c) s) :
    s.2.graph.Tabled := by
  have fresh : c.graph.Tabled := by
    rw [create_eq created]
    intro t absent
    cases absent
  exact run.invariant (I := fun c => c.graph.Tabled) fresh
    (fun _ _ _ built moves => moves.tabled built) (fun _ _ built closes => (Moves.close closes).tabled built)

end Controller

end KeyRelay
