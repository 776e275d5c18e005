import KeyRelay.Proofs.PathTable
import KeyRelay.Proofs.Exact

/-! The controller's topology along its runs. A link reported by one end waits as a half link; the
report of a second, different end confirms it, adds its edge and tells both ends. Every answered
request either leaves the links alone (`Graph.KeepsLinks`), records or re-rates a half link,
confirms a confirmed link again, or confirms a half link (`Controller.Relinks`).

From that, along every run from a fresh controller (`Controller.Answers`, which keeps the
requests answered): the adjacency lists are the edges, in both directions; the link table and
the links of the edges are inverse to each other; every edge joins two registered nodes under
the key of its ends, so a pair of nodes has one edge at most; no link is both half and
confirmed (`Controller.Topology`). A decision that tells a node of a confirmed link, or a request
that adds a link, answers a report of that link from one end after the other end reported it
(`Controller.topology_consistent`). -/

namespace KeyRelay

variable {R : Type}

theorem edgeKey_cases (a b : KmeId) : edgeKey a b = (a, b) ∨ edgeKey a b = (b, a) := by
  unfold edgeKey
  split
  · exact .inl rfl
  · exact .inr rfl

/-- What holds of two ends both ways round holds of them in the order of their key. -/
theorem edgeKey_sides (P : KmeId → KmeId → Prop) {a b : KmeId} (forward : P a b) (backward : P b a) :
    P (edgeKey a b).1 (edgeKey a b).2 := by
  rcases edgeKey_cases a b with same | swapped
  · rw [same]
    exact forward
  · rw [swapped]
    exact backward

/-- The key of the ends of an edge key is the key itself. -/
theorem edgeKey_edgeKey (a b : KmeId) : edgeKey (edgeKey a b).1 (edgeKey a b).2 = edgeKey a b :=
  edgeKey_sides (fun x y => edgeKey x y = edgeKey a b) rfl (edgeKey_comm b a)

namespace Graph

/-- `g'` has the nodes of `g` and perhaps more, its link table, and an edge under the keys of `g`'s
edges, each for the same link: only what the edges carry may differ. -/
structure KeepsLinks (g g' : Graph R) : Prop where
  nodes : ∀ k, (g.nodes.get? k).isSome → (g'.nodes.get? k).isSome
  links : g'.links = g.links
  edges : ∀ key, (g'.edges.get? key).map (·.link) = (g.edges.get? key).map (·.link)

theorem KeepsLinks.refl (g : Graph R) : g.KeepsLinks g := ⟨fun _ known => known, rfl, fun _ => rfl⟩

theorem addNode_keepsLinks (g : Graph R) (k : KmeId) (address : String) : g.KeepsLinks (g.addNode k address).2 := by
  -- a node is entered, or its address replaced; the table of links is as it was
  have ⟨nodes, links⟩ : (g.addNode k address).2.nodes = g.nodes.insert k address ∧
      (g.addNode k address).2.links = g.links := by
    unfold addNode
    split
    · exact ⟨rfl, rfl⟩
    · dsimp only
      rw [topologyChanged_eq]
      exact ⟨rfl, rfl⟩
  refine ⟨fun x known => ?_, links, fun key => by rw [addNode_edges]⟩
  rw [nodes]
  exact Table.isSome_get?_insert known k address

theorem record_keepsLinks {g g' : Graph R} {link : LinkId} {t : Nat} {rate : R} (ok : g.record link t rate = .ok g') :
    g.KeepsLinks g' := by
  unfold record at ok
  cases linked : g.links.get? link with
  | none => simp [linked] at ok
  | some key =>
    cases found : g.edges.get? key with
    | none =>
      simp only [linked, found] at ok
      cases ok
      exact .refl g
    | some e =>
      cases window : Halt.ofAbort (e.window.record t rate) with
      | error h => simp [linked, found, window] at ok
      | ok w =>
        simp only [linked, found, window] at ok
        cases ok
        -- only the window of the sampled edge changes
        refine ⟨fun _ known => known, rfl, fun j => ?_⟩
        rw [Table.get?_insert]
        split
        · rename_i same
          subst same
          simp [found]
        · rfl

theorem adjust_keepsLinks (g : Graph R) (r : Reservation R) (f : R → R → R) : g.KeepsLinks (g.adjust r f) := by
  refine ⟨fun k known => by rwa [adjust_eq], by rw [adjust_eq], fun key => ?_⟩
  rw [adjust_edges, Option.map_map]
  rfl

theorem reserve_keepsLinks [RateArith R] (g : Graph R) (r : Reservation R) : g.KeepsLinks (g.reserve r) :=
  adjust_keepsLinks g r _

theorem release_keepsLinks [RateArith R] (g : Graph R) (r : Reservation R) : g.KeepsLinks (g.release r) :=
  adjust_keepsLinks g r _

/-- A new link's edge: both ends registered and apart, no edge between them before, the nodes as
they were, and the link entered under the key of its ends, which its edge carries. -/
theorem addEdge_links [RateArith R] {g g' : Graph R} {link : LinkId} {a b : KmeId} {t : Nat} {rate : R}
    (ok : g.addEdge link a b t rate = .ok g') :
    (g.nodes.get? a).isSome ∧ (g.nodes.get? b).isSome ∧ a ≠ b ∧ g.edges.get? (edgeKey a b) = none ∧
      g'.nodes = g.nodes ∧ g'.links = g.links.insert link (edgeKey a b) ∧
      ∀ key, (g'.edges.get? key).map (·.link) =
        if edgeKey a b = key then some link else (g.edges.get? key).map (·.link) := by
  obtain ⟨left, right, distinct, absent, w, rfl⟩ := addEdge_eq ok
  refine ⟨left, right, distinct, absent, by rw [topologyChanged_eq], by rw [topologyChanged_eq], fun key => ?_⟩
  rw [topologyChanged_edges, Table.get?_insert]
  split <;> rfl

end Graph

/-- The decision tells some node that link `l` is confirmed. -/
def Decision.Confirms (d : Decision) (l : LinkId) : Prop :=
  ∃ k other address, Command.callKme k (.linkConfirmed l other address) ∈ d.actions

namespace Controller

theorem mem_confirm {c : Controller R} {link l : LinkId} {a b k other : KmeId} {address : String}
    (member : Command.callKme k (.linkConfirmed l other address) ∈ (confirm c link a b).actions) :
    l = link ∧ ((k = a ∧ other = b) ∨ (k = b ∧ other = a)) := by
  simp only [confirm, ack, List.mem_cons, List.not_mem_nil, or_false, Command.callKme.injEq,
    KmeRequest.linkConfirmed.injEq] at member
  rcases member with ⟨rfl, rfl, rfl, -⟩ | ⟨rfl, rfl, rfl, -⟩
  · exact ⟨rfl, .inl ⟨rfl, rfl⟩⟩
  · exact ⟨rfl, .inr ⟨rfl, rfl⟩⟩

theorem ack_silent (l : LinkId) : ¬ack.Confirms l := by
  simp [Decision.Confirms, ack]

/-- Both ends of a confirmed link are told of the other. -/
theorem confirm_tells (c : Controller R) (link : LinkId) (a b : KmeId) :
    (∃ address, Command.callKme a (.linkConfirmed link b address) ∈ (confirm c link a b).actions) ∧
      ∃ address, Command.callKme b (.linkConfirmed link a address) ∈ (confirm c link a b).actions := by
  simp [confirm, ack]

/-- Link `l` was reported by node `k` in a request the controller answered. -/
def Announced (hs : List (ControllerRequest R)) (l : LinkId) (k : KmeId) : Prop :=
  ∃ rate ttl, ControllerRequest.newLink l k rate ttl ∈ hs

theorem Announced.mono {hs : List (ControllerRequest R)} {l : LinkId} {k : KmeId} (announced : Announced hs l k)
    (more : List (ControllerRequest R)) : Announced (hs ++ more) l k := by
  obtain ⟨rate, ttl, member⟩ := announced
  exact ⟨rate, ttl, List.mem_append_left more member⟩

theorem announced_last (hs : List (ControllerRequest R)) (l : LinkId) (k : KmeId) (rate : R) (ttl : Nat) :
    Announced (hs ++ [.newLink l k rate ttl]) l k :=
  ⟨rate, ttl, by simp⟩

/-! ### The invariant -/

/-- What the controller keeps of its links, given the requests `hs` it answered: every edge sits
under the key of its two ends, registered and apart; the link table and the links of the edges
are inverse; a half link is not confirmed and was reported by its node; both ends of a confirmed
link reported it. -/
structure Wired (hs : List (ControllerRequest R)) (c : Controller R) : Prop where
  ends : ∀ key, (c.graph.edges.get? key).isSome →
    key = edgeKey key.1 key.2 ∧ key.1 ≠ key.2 ∧ (c.graph.nodes.get? key.1).isSome ∧ (c.graph.nodes.get? key.2).isSome
  linked : ∀ l key, c.graph.links.get? l = some key ↔ (c.graph.edges.get? key).map (·.link) = some l
  pending : ∀ l half, c.halfLinks.get? l = some half → c.graph.links.get? l = none ∧ Announced hs l half.kme
  reported : ∀ l key, c.graph.links.get? l = some key → Announced hs l key.1 ∧ Announced hs l key.2

namespace Wired

variable {hs : List (ControllerRequest R)} {c c' : Controller R}

theorem mono (wired : Wired hs c) (more : List (ControllerRequest R)) : Wired (hs ++ more) c where
  ends := wired.ends
  linked := wired.linked
  pending l half held := ⟨(wired.pending l half held).1, (wired.pending l half held).2.mono more⟩
  reported l key found := ⟨(wired.reported l key found).1.mono more, (wired.reported l key found).2.mono more⟩

theorem keeps (wired : Wired hs c) (keeps : c.graph.KeepsLinks c'.graph) (halves : c'.halfLinks = c.halfLinks) :
    Wired hs c' where
  ends key present := by
    have was : (c.graph.edges.get? key).isSome := by
      have same := congrArg Option.isSome (keeps.edges key)
      simp only [Option.isSome_map] at same
      rwa [← same]
    obtain ⟨keyed, apart, left, right⟩ := wired.ends key was
    exact ⟨keyed, apart, keeps.nodes _ left, keeps.nodes _ right⟩
  linked l key := by rw [keeps.links, keeps.edges]; exact wired.linked l key
  pending l half held := by rw [keeps.links]; exact wired.pending l half (halves ▸ held)
  reported l key found := wired.reported l key (keeps.links ▸ found)

/-- A fresh controller has no edge, link or half link. -/
theorem fresh {config : ControllerConfig} {c : Controller R} (created : create config = .ok c) : Wired [] c := by
  rw [create_eq created]
  exact ⟨fun _ present => by simp at present, fun _ _ => by simp, fun _ _ held => by simp at held,
    fun _ _ found => by simp at found⟩

/-- A new half link, or a re-rated one, keeps the invariant: its link is not confirmed and its
node reported it. -/
theorem halve (wired : Wired hs c) {link : LinkId} {half : HalfLink R} (graph : c'.graph = c.graph)
    (halves : c'.halfLinks = c.halfLinks.insert link half) (open_ : c.graph.links.get? link = none)
    (reported : Announced hs link half.kme) : Wired hs c' where
  ends key present := by
    rw [graph] at present ⊢
    exact wired.ends key present
  linked l key := by rw [graph]; exact wired.linked l key
  pending l half' held := by
    rw [halves, Table.get?_insert] at held
    rw [graph]
    split at held
    · rename_i same
      subst same
      cases held
      exact ⟨open_, reported⟩
    · exact wired.pending l half' held
  reported l key found := wired.reported l key (graph ▸ found)

end Wired

/-- The link table is one of confirmed links: each entry is the key of an edge that carries it. -/
theorem Wired.linked_ends {hs : List (ControllerRequest R)} {c : Controller R} (wired : Wired hs c) {l : LinkId}
    {a b : KmeId} (found : c.graph.links.get? l = some (a, b)) : a ≠ b ∧ edgeKey a b = (a, b) := by
  have carried := (wired.linked l (a, b)).mp found
  obtain ⟨keyed, apart, -, -⟩ := wired.ends (a, b) (by
    cases present : c.graph.edges.get? (a, b) with
    | none => rw [present] at carried; cases carried
    | some e => rfl)
  exact ⟨apart, keyed.symm⟩

/-- A step that keeps the link table and tells no node of a link neither confirms nor adds one. -/
theorem untold {c c' : Controller R} {d : Decision} {l : LinkId} (links : c'.graph.links = c.graph.links)
    (silent : ¬d.Confirms l) :
    ¬(d.Confirms l ∨ (c.graph.links.get? l = none ∧ (c'.graph.links.get? l).isSome)) := by
  rintro (confirms | ⟨open_, linked⟩)
  · exact silent confirms
  · rw [links, open_] at linked
    cases linked

variable [RateArith R]

/-- What an answered request does to the links and the half links: the links stay and no node is
told of one; a report records or replaces the half link of a link not confirmed; a rate report
re-rates a half link; a report from an end of a confirmed link confirms it again; or the report
of a second, different end confirms a half link, adding its edge. -/
inductive Relinks (c : Controller R) : ControllerRequest R → Decision → Controller R → Prop
  | keep {request : ControllerRequest R} {d : Decision} {c' : Controller R} :
      c.graph.KeepsLinks c'.graph → c'.halfLinks = c.halfLinks → (∀ l, ¬d.Confirms l) → Relinks c request d c'
  | half {c' : Controller R} (link : LinkId) (kme : KmeId) (rate : R) (ttl : Nat) :
      c.graph.links.get? link = none → c'.graph = c.graph → c'.halfLinks = c.halfLinks.insert link ⟨kme, rate⟩ →
      Relinks c (.newLink link kme rate ttl) ack c'
  | rerate {c' : Controller R} (link : LinkId) (rate : R) (half : HalfLink R) :
      c.halfLinks.get? link = some half → c'.graph = c.graph → c'.halfLinks = c.halfLinks.insert link { half with rate } →
      Relinks c (.updateLink link rate) ack c'
  | reconfirm {c' : Controller R} (link : LinkId) (kme : KmeId) (rate : R) (ttl : Nat) (a b : KmeId) :
      c.graph.links.get? link = some (a, b) → (kme = a ∨ kme = b) → c.graph.KeepsLinks c'.graph →
      c'.halfLinks = c.halfLinks → Relinks c (.newLink link kme rate ttl) (confirm c link a b) c'
  | connect {c' : Controller R} (link : LinkId) (kme : KmeId) (rate : R) (ttl : Nat) (half : HalfLink R)
      (t : Nat) (r : R) : c.graph.links.get? link = none → c.halfLinks.get? link = some half → half.kme ≠ kme →
      c.graph.addEdge link half.kme kme t r = .ok c'.graph → c'.halfLinks = c.halfLinks.erase link →
      Relinks c (.newLink link kme rate ttl) (confirm c' link half.kme kme) c'

/-! ### What each request does to the links -/

section Requests

variable (s₀ : Env × Controller R)

theorem registerKme_relinks (address : String) :
    Lands (fun d s => Relinks s₀.2 (.registerKme address) d s.2)
      (fun s => s.2.graph = s₀.2.graph ∧ s.2.halfLinks = s₀.2.halfLinks) (registerKme address s₀) := by
  simp only [registerKme, draw_bind, change_bind, pure_run, Lands]
  exact .keep (Graph.addNode_keepsLinks _ _ _) rfl (by simp [Decision.Confirms])

theorem newLink_relinks (link : LinkId) (kme : KmeId) (rate : R) (ttl : Nat) :
    Lands (fun d s => Relinks s₀.2 (.newLink link kme rate ttl) d s.2)
      (fun s => s.2.graph = s₀.2.graph ∧ s.2.halfLinks = s₀.2.halfLinks) (newLink link kme rate s₀) := by
  simp only [newLink, current_bind]
  split
  · exact ⟨rfl, rfl⟩
  simp only [env_bind]
  cases ends : s₀.2.graph.linkEnds link with
  | some ab =>
    -- a confirmed link: a report from one of its ends is a sample and confirms it again
    obtain ⟨a, b⟩ := ab
    simp only
    by_cases foreign : kme ≠ a ∧ kme ≠ b
    · rw [if_pos foreign, fail_bind]
      exact ⟨rfl, rfl⟩
    rw [if_neg foreign]
    have onEnd : kme = a ∨ kme = b := by
      by_contra apart
      exact foreign (not_or.mp apart)
    cases sampled : s₀.2.graph.record link s₀.1.now rate with
    | error x =>
      rw [lift_error_bind]
      exact lands_error _ x ⟨rfl, rfl⟩
    | ok g =>
      simp only [lift_ok_bind, change_bind, pure_run, Lands]
      exact .reconfirm link kme rate ttl a b ends onEnd (Graph.record_keepsLinks sampled) rfl
  | none =>
    simp only
    cases halves : s₀.2.halfLinks.get? link with
    | some half =>
      simp only
      by_cases other : half.kme ≠ kme
      · -- the second end to report the link confirms it
        rw [if_pos other]
        cases added : s₀.2.graph.addEdge link half.kme kme s₀.1.now (RateArith.least rate half.rate) with
        | error x =>
          rw [lift_error_bind]
          exact lands_error _ x ⟨rfl, rfl⟩
        | ok g =>
          simp only [lift_ok_bind, change_bind, current_bind, pure_run, Lands]
          exact .connect link kme rate ttl half _ _ ends halves other added rfl
      · rw [if_neg other]
        simp only [change_bind, pure_run, Lands]
        exact .half link kme rate ttl ends rfl rfl
    | none =>
      simp only [change_bind, pure_run, Lands]
      exact .half link kme rate ttl ends rfl rfl

theorem updateLink_relinks (link : LinkId) (rate : R) :
    Lands (fun d s => Relinks s₀.2 (.updateLink link rate) d s.2)
      (fun s => s.2.graph = s₀.2.graph ∧ s.2.halfLinks = s₀.2.halfLinks) (updateLink link rate s₀) := by
  simp only [updateLink, current_bind]
  cases halves : s₀.2.halfLinks.get? link with
  | some half =>
    simp only [change_bind, pure_run, Lands]
    exact .rerate link rate half halves rfl rfl
  | none =>
    simp only [env_bind]
    cases sampled : s₀.2.graph.record link s₀.1.now rate with
    | error x =>
      rw [lift_error_bind]
      exact lands_error _ x ⟨rfl, rfl⟩
    | ok g =>
      simp only [lift_ok_bind, change_bind, pure_run, Lands]
      exact .keep (Graph.record_keepsLinks sampled) rfl ack_silent

theorem registerApp_relinks (r : AppRequest) :
    Lands (fun d s => Relinks s₀.2 (.registerApp r.src r.dst r.kme r.qos r.master) d s.2)
      (fun s => s.2.graph = s₀.2.graph ∧ s.2.halfLinks = s₀.2.halfLinks) (registerApp r s₀) := by
  simp only [registerApp, current_bind]
  split
  · exact ⟨rfl, rfl⟩
  simp only [env_bind]
  cases registered : s₀.2.directory.register r s₀.1.now with
  | error a => exact lands_error _ (.abort a) ⟨rfl, rfl⟩
  | ok md =>
    obtain ⟨matched, d⟩ := md
    simp only [Halt.ofAbort, lift_ok_bind, change_bind]
    cases matched with
    | pending =>
      simp only [pure_run, Lands]
      exact .keep (.refl _) rfl (by simp [Decision.Confirms])
    | pair master slave =>
      simp only
      cases found : s₀.2.graph.findPath master.kme slave.kme r.qos.rate
          (s₀.2.config.policy.overhead r.qos.rate s₀.2.config.prefetchKeys) s₀.1.now with
      | error x =>
        cases x with
        | abort a => simp only [throw_bind, Lands]
        | fault f =>
          -- only the waiting side moves
          simp only [change_bind, fail_bind]
          exact ⟨rfl, rfl⟩
      | ok res =>
        simp only [pure_bind, change_bind, draw_bind, env_bind, pure_run, Lands]
        -- the nodes of the path are told of the session, not of a link
        exact .keep (Graph.reserve_keepsLinks _ _) rfl (by simp [Decision.Confirms])

theorem closeConnection_relinks (ksid : Ksid) :
    Lands (fun d s => Relinks s₀.2 (.closeConnection ksid) d s.2)
      (fun s => s.2.graph = s₀.2.graph ∧ s.2.halfLinks = s₀.2.halfLinks) (closeConnection ksid s₀) := by
  simp only [closeConnection, current_bind]
  cases found : s₀.2.directory.sessions.byKsid.get? ksid with
  | none =>
    rw [Directory.close_of_none found]
    exact ⟨rfl, rfl⟩
  | some record =>
    obtain ⟨d', closed, -, -⟩ := Directory.close_of_some found
    simp only [closed, change_bind, pure_run, Lands]
    exact .keep (Graph.release_keepsLinks _ _) rfl ack_silent

theorem handle_relinks (request : ControllerRequest R) :
    Lands (fun d s => Relinks s₀.2 request d s.2)
      (fun s => s.2.graph = s₀.2.graph ∧ s.2.halfLinks = s₀.2.halfLinks) (handle request s₀) := by
  cases request with
  | registerKme address => exact registerKme_relinks s₀ address
  | newLink link kme rate ttl => exact newLink_relinks s₀ link kme rate ttl
  | updateLink link rate => exact updateLink_relinks s₀ link rate
  | registerApp src dst kme qos master => exact registerApp_relinks s₀ ⟨src, dst, kme, qos, master⟩
  | closeConnection ksid => exact closeConnection_relinks s₀ ksid

/-- Aborting a session gives its rates back and touches no link. -/
theorem abortSession_keepsLinks (ksid : Ksid) :
    Lands (fun _ s => s₀.2.graph.KeepsLinks s.2.graph ∧ s.2.halfLinks = s₀.2.halfLinks) (fun _ => False)
      (abortSession ksid s₀) := by
  simp only [abortSession, current_bind]
  cases found : s₀.2.directory.sessions.byKsid.get? ksid with
  | none =>
    simp only [Directory.close_of_none found, pure_run]
    exact ⟨.refl _, rfl⟩
  | some record =>
    obtain ⟨d', closed, -, -⟩ := Directory.close_of_some found
    simp only [closed, change_run]
    exact ⟨Graph.release_keepsLinks _ _, rfl⟩

end Requests

namespace Wired

variable {hs : List (ControllerRequest R)} {c c' : Controller R}

/-- Confirming a half link keeps the invariant: the new edge sits under the key of its ends, both
registered and apart, its link entered under that key and nowhere else, and both ends reported
it. -/
theorem connect (wired : Wired hs c) {link : LinkId} {half : HalfLink R} {kme : KmeId} {rate : R} {ttl t : Nat}
    {r : R} (open_ : c.graph.links.get? link = none) (held : c.halfLinks.get? link = some half)
    (added : c.graph.addEdge link half.kme kme t r = .ok c'.graph) (halves : c'.halfLinks = c.halfLinks.erase link) :
    Wired (hs ++ [.newLink link kme rate ttl]) c' := by
  obtain ⟨left, right, apart, absent, nodes, links, edges⟩ := Graph.addEdge_links added
  have first : Announced (hs ++ [.newLink link kme rate ttl]) link half.kme :=
    (wired.pending link half held).2.mono _
  have second : Announced (hs ++ [.newLink link kme rate ttl]) link kme := announced_last hs link kme rate ttl
  refine ⟨fun key present => ?_, fun l key => ?_, fun l half' held' => ?_, fun l key found => ?_⟩
  · -- ends: the new key is that of two registered nodes apart; the other edges were there
    have mapped := congrArg Option.isSome (edges key)
    simp only [Option.isSome_map, present] at mapped
    rw [nodes]
    split at mapped
    · rename_i new
      subst new
      exact ⟨(edgeKey_edgeKey _ _).symm,
        edgeKey_sides (fun x y => x ≠ y ∧ (c.graph.nodes.get? x).isSome ∧ (c.graph.nodes.get? y).isSome)
          ⟨apart, left, right⟩ ⟨Ne.symm apart, right, left⟩⟩
    · exact wired.ends key (by simpa using mapped.symm)
  · -- linked: the link's entry and its edge are new together
    rw [links, Table.get?_insert, edges]
    by_cases same : link = l
    · subst same
      by_cases here : edgeKey half.kme kme = key
      · simp [here]
      · have unlinked : (c.graph.edges.get? key).map (·.link) ≠ some link := fun linked =>
          absurd ((wired.linked link key).mpr linked) (by simp [open_])
        simp [here, unlinked]
    · by_cases here : edgeKey half.kme kme = key
      · subst here
        have stray : c.graph.links.get? l ≠ some (edgeKey half.kme kme) := fun linked => by
          have carried := (wired.linked l _).mp linked
          rw [absent] at carried
          cases carried
        simp [same, stray]
      · simp only [same, here, if_false]
        exact wired.linked l key
  · -- pending: the confirmed link is no longer half
    rw [halves, Table.get?_erase] at held'
    split at held'
    · cases held'
    · rename_i other
      rw [links, Table.get?_insert, if_neg other]
      exact ⟨(wired.pending l half' held').1, (wired.pending l half' held').2.mono _⟩
  · -- reported: the new link by both of its ends
    rw [links, Table.get?_insert] at found
    split at found
    · rename_i same
      subst same
      cases found
      exact edgeKey_sides (fun x y => Announced _ link x ∧ Announced _ link y) ⟨first, second⟩ ⟨second, first⟩
    · exact ⟨(wired.reported l key found).1.mono _, (wired.reported l key found).2.mono _⟩

/-- Every answered request keeps the invariant, with itself among the requests answered. -/
theorem relinks (wired : Wired hs c) {request : ControllerRequest R} {d : Decision} (step : Relinks c request d c') :
    Wired (hs ++ [request]) c' := by
  cases step with
  | keep keeps halves _ => exact (wired.mono _).keeps keeps halves
  | half link kme rate ttl open_ graph halves =>
    exact (wired.mono _).halve graph halves open_ (announced_last hs link kme rate ttl)
  | rerate link rate half held graph halves =>
    have was := wired.pending link half held
    exact (wired.mono _).halve graph halves was.1 (was.2.mono _)
  | reconfirm link kme rate ttl a b _ _ keeps halves => exact (wired.mono _).keeps keeps halves
  | connect link kme rate ttl half t r open_ held _ added halves => exact wired.connect open_ held added halves

end Wired

/-! ### Runs -/

/-- Runs of the controller from `start` with the requests it answered, oldest first: requests
answered or refused, failed session setups aborted, and the clock advanced. -/
inductive Answers (start : Env × Controller R) : List (ControllerRequest R) → Env × Controller R → Prop
  | start : Answers start [] start
  | answer {hs : List (ControllerRequest R)} {s₀ s : Env × Controller R} (request : ControllerRequest R)
      (d : Decision) : Answers start hs s₀ → handle request s₀ = .ok d s → Answers start (hs ++ [request]) s
  | refuse {hs : List (ControllerRequest R)} {s₀ s : Env × Controller R} (request : ControllerRequest R)
      (f : Fault) : Answers start hs s₀ → handle request s₀ = .error (.fault f) s → Answers start hs s
  | abort {hs : List (ControllerRequest R)} {s₀ s : Env × Controller R} (ksid : Ksid) :
      Answers start hs s₀ → Ends (abortSession ksid s₀) s → Answers start hs s
  | advance {hs : List (ControllerRequest R)} {s₀ : Env × Controller R} (ms : Nat) :
      Answers start hs s₀ → Answers start hs (s₀.1.advance ms, s₀.2)

theorem Answers.run {start s : Env × Controller R} {hs : List (ControllerRequest R)}
    (answers : Answers start hs s) : Run (fun _ => True) start s := by
  induction answers with
  | start => exact .start
  | answer request d _ ran ih => exact .handle request ih trivial (by rw [ran]; rfl)
  | refuse request f _ ran ih => exact .handle request ih trivial (by rw [ran]; rfl)
  | abort ksid _ ended ih => exact .abort ksid ih ended
  | advance ms _ ih => exact .advance ms ih

/-- Along every run from a fresh controller the invariant holds of the requests answered. -/
theorem Answers.wired {config : ControllerConfig} {c : Controller R} {e : Env} {s : Env × Controller R}
    {hs : List (ControllerRequest R)} (created : create config = .ok c) (answers : Answers (e, c) hs s) :
    Wired hs s.2 := by
  induction answers with
  | start => exact Wired.fresh created
  | @answer hs s₀ s request d _ ran ih =>
    have landed := handle_relinks s₀ request
    rw [ran] at landed
    exact ih.relinks landed
  | @refuse hs s₀ s request f _ ran ih =>
    have landed := handle_relinks s₀ request
    rw [ran] at landed
    obtain ⟨graph, halves⟩ := landed
    exact ih.keeps (graph ▸ .refl _) halves
  | @abort hs s₀ s ksid _ ended ih =>
    have landed := abortSession_keepsLinks s₀ ksid
    generalize abortSession ksid s₀ = r at landed ended
    rcases r with ⟨_, t⟩ | ⟨_ | _, t⟩
    · obtain rfl : s = t := ended
      exact ih.keeps landed.1 landed.2
    · exact landed.elim
    · exact ended.elim
  | advance ms _ ih => exact ih

/-! ### Confirmations -/

/-- Link `l` confirmed by a report of node `kme` answered with `d`, leaving `c'`: another node
reported the link before, the link joins the two, and `d` tells each of them of the other and
tells no one else. -/
def ConfirmedAfter (hs : List (ControllerRequest R)) (request : ControllerRequest R) (d : Decision)
    (c' : Controller R) (l : LinkId) : Prop :=
  ∃ kme rate ttl, request = .newLink l kme rate ttl ∧ ∃ first, first ≠ kme ∧ Announced hs l first ∧
    c'.graph.linkEnds l = some (edgeKey first kme) ∧
    (∃ address, Command.callKme first (.linkConfirmed l kme address) ∈ d.actions) ∧
    (∃ address, Command.callKme kme (.linkConfirmed l first address) ∈ d.actions) ∧
    ∀ k other address, Command.callKme k (.linkConfirmed l other address) ∈ d.actions →
      (k = first ∧ other = kme) ∨ (k = kme ∧ other = first)

/-- A decision that tells of link `l`, or a step that adds it, comes from a report of `l` by one end
after the other end reported it. -/
theorem Relinks.confirmed {hs : List (ControllerRequest R)} {c c' : Controller R} {request : ControllerRequest R}
    {d : Decision} (wired : Wired hs c) (step : Relinks c request d c') {l : LinkId}
    (told : d.Confirms l ∨ (c.graph.links.get? l = none ∧ (c'.graph.links.get? l).isSome)) :
    ConfirmedAfter hs request d c' l := by
  cases step with
  | keep keeps _ silent => exact absurd told (untold keeps.links (silent l))
  | half link kme rate ttl _ graph _ => exact absurd told (untold (congrArg Graph.links graph) (ack_silent l))
  | rerate link rate half _ graph _ => exact absurd told (untold (congrArg Graph.links graph) (ack_silent l))
  | reconfirm link kme rate ttl a b found onEnd keeps _ =>
    -- the link is `l`: the decision names it, and no link is new
    have same : l = link := by
      rcases told with ⟨_, _, _, member⟩ | ⟨open_, linked⟩
      · exact (mem_confirm member).1
      · rw [keeps.links, open_] at linked
        cases linked
    subst same
    obtain ⟨apart, keyed⟩ := wired.linked_ends found
    have ends : c'.graph.linkEnds l = some (a, b) := by
      show c'.graph.links.get? l = _
      rw [keeps.links, found]
    obtain ⟨toA, toB⟩ := confirm_tells c l a b
    -- the report came from one end; the other end reported the link before
    rcases onEnd with rfl | rfl
    · refine ⟨kme, rate, ttl, rfl, b, Ne.symm apart, (wired.reported _ _ found).2,
        by rw [ends, edgeKey_comm, keyed], toB, toA, fun k other address member => ?_⟩
      rcases (mem_confirm member).2 with ⟨rfl, rfl⟩ | ⟨rfl, rfl⟩
      · exact .inr ⟨rfl, rfl⟩
      · exact .inl ⟨rfl, rfl⟩
    · refine ⟨kme, rate, ttl, rfl, a, apart, (wired.reported _ _ found).1,
        by rw [ends, keyed], toA, toB, fun k other address member => (mem_confirm member).2⟩
  | connect link kme rate ttl half t r open_ held other added _ =>
    obtain ⟨-, -, -, -, -, links, -⟩ := Graph.addEdge_links added
    -- the link is `l`: the decision names it, and it is the only new link
    have same : l = link := by
      rcases told with ⟨_, _, _, member⟩ | ⟨unlinked, linked⟩
      · exact (mem_confirm member).1
      · by_contra apart
        rw [links, Table.get?_insert, if_neg (Ne.symm apart), unlinked] at linked
        cases linked
    subst same
    have ends : c'.graph.linkEnds l = some (edgeKey half.kme kme) := by
      show c'.graph.links.get? l = _
      rw [links, Table.get?_insert, if_pos rfl]
    obtain ⟨toFirst, toSecond⟩ := confirm_tells c' l half.kme kme
    exact ⟨kme, rate, ttl, rfl, half.kme, other, (wired.pending _ half held).2, ends, toFirst, toSecond,
      fun k other' address member => (mem_confirm member).2⟩

/-- The topology a controller keeps: each adjacency list holds exactly the nodes an edge joins to
its node, both ways; the link table and the links of the edges are inverse; every edge joins two
registered nodes apart, and no two edges join the same two nodes; no link is both half and
confirmed. -/
structure Topology (c : Controller R) : Prop where
  symmetric : ∀ a b, b ∈ (c.graph.adjacency.get? a).getD [] ↔ a ∈ (c.graph.adjacency.get? b).getD []
  adjacent : ∀ a b, b ∈ (c.graph.adjacency.get? a).getD [] ↔ (c.graph.edges.get? (edgeKey a b)).isSome
  linked : ∀ l key, c.graph.links.get? l = some key ↔ (c.graph.edges.get? key).map (·.link) = some l
  ends : ∀ key, (c.graph.edges.get? key).isSome →
    key.1 ≠ key.2 ∧ (c.graph.nodes.get? key.1).isSome ∧ (c.graph.nodes.get? key.2).isSome
  single : ∀ a b, (c.graph.edges.get? (a, b)).isSome → (c.graph.edges.get? (b, a)).isSome → a = b
  apart : ∀ l, (c.halfLinks.get? l).isSome → c.graph.links.get? l = none

omit [RateArith R] in
theorem Wired.topology {hs : List (ControllerRequest R)} {c : Controller R} (wired : Wired hs c)
    (shaped : c.graph.Shaped) : Topology c where
  symmetric a b := by
    rw [shaped.adjacent, shaped.adjacent, Graph.edge_comm]
  adjacent a b := shaped.adjacent a b
  linked := wired.linked
  ends key present := (wired.ends key present).2
  single a b forward backward := by
    -- both keys are the key of the same two ends
    have first := (wired.ends (a, b) forward).1
    have second := (wired.ends (b, a) backward).1
    simp only at first second
    rw [edgeKey_comm] at second
    have same : (a, b) = (b, a) := first.trans second.symm
    exact (Prod.mk.inj same).1
  apart l held := by
    obtain ⟨half, found⟩ := Option.isSome_iff_exists.mp held
    exact (wired.pending l half found).1

/-- Controller topology invariant. Along every run from a fresh controller, with `hs` the requests
it answered: the adjacency lists are symmetric and are exactly the edges, the link table and the
edges' links are inverse, every edge joins two registered nodes apart and each pair of nodes has
one edge at most, and no link is both half and confirmed. Moreover, any request answered next that
tells a node of a confirmed link, or adds a link, is a report of that link by one node after a
different node reported it: the link joins the two, and each is told of the other. -/
theorem topology_consistent {config : ControllerConfig} {c : Controller R} {e : Env}
    {hs : List (ControllerRequest R)} {s : Env × Controller R}
    (created : create config = .ok c) (answers : Answers (e, c) hs s) :
    Topology s.2 ∧ ∀ request d s', handle request s = .ok d s' → ∀ l,
      d.Confirms l ∨ (s.2.graph.links.get? l = none ∧ (s'.2.graph.links.get? l).isSome) →
      ConfirmedAfter hs request d s'.2 l := by
  have wired := answers.wired created
  have fresh : c.graph.Shaped := by
    rw [create_eq created]
    exact Graph.shaped_fresh
  have shaped : s.2.graph.Shaped := answers.run.graph_grown.shaped fresh
  refine ⟨wired.topology shaped, fun request d s' ran l told => ?_⟩
  have landed := handle_relinks s request
  rw [ran] at landed
  exact landed.confirmed wired told

/-- Two nodes register and report link 12 one after the other; the second report confirms it. -/
theorem topology_consistent_after_two_reports :
    ∃ (c : Controller ℚ) (hs : List (ControllerRequest ℚ)) (s : Env × Controller ℚ),
      create { sampleIntervalMs := 0, expectedNodes := some 3 } = .ok c ∧ Answers (default, c) hs s ∧
      Topology s.2 ∧ ∀ request d s', handle request s = .ok d s' → ∀ l,
        d.Confirms l ∨ (s.2.graph.links.get? l = none ∧ (s'.2.graph.links.get? l).isSome) →
        ConfirmedAfter hs request d s'.2 l := by
  have answers : Answers (default,
      (create { sampleIntervalMs := 0, expectedNodes := some 3 } : Except Fault (Controller ℚ)).toOption.get!) _ _ :=
    .answer (.newLink ⟨12⟩ ⟨2⟩ 10 60) _
      (.answer (.newLink ⟨12⟩ ⟨1⟩ 10 60) _
        (.answer (.registerKme "b") _ (.answer (.registerKme "a") _ .start rfl) rfl) rfl) rfl
  exact ⟨_, _, _, rfl, answers,
    topology_consistent (show create { sampleIntervalMs := 0, expectedNodes := some 3 } = .ok _ from rfl) answers⟩

end Controller

end KeyRelay
