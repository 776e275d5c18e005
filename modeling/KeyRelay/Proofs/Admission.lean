import Mathlib
import KeyRelay.Proofs.Exact
import KeyRelay.Proofs.Paths

/-!
Admission never oversubscribes an edge at the instant it decides, when rates are exact. The path
of a session is a path of the table, so it is simple and its edges are distinct; each edge then
takes exactly one demand from the session, the one its headroom was checked against, and the
reserved rate right after the reservation stays within the capacity the check read.
-/
namespace KeyRelay

namespace Reservation

variable {R : Type}

theorem ratesOn_of_distinct_pairs (p : KmeId × KmeId) (x : R) :
    ∀ pairs : List ((KmeId × KmeId) × R), (pairs.map fun q => edgeKey q.1.1 q.1.2).Nodup → (p, x) ∈ pairs →
      (pairs.filter fun q => edgeKey q.1.1 q.1.2 = edgeKey p.1 p.2).map (·.2) = [x]
  | [], _, inside => absurd inside List.not_mem_nil
  | q :: rest, distinct, inside => by
    rw [List.map_cons, List.nodup_cons] at distinct
    obtain ⟨fresh, distinct⟩ := distinct
    rcases List.mem_cons.mp inside with rfl | later
    · -- no later pair has the key of the first
      have none : rest.filter (fun q => edgeKey q.1.1 q.1.2 = edgeKey p.1 p.2) = [] :=
        List.filter_eq_nil_iff.mpr fun q' member same =>
          fresh (List.mem_map.mpr ⟨q', member, of_decide_eq_true same⟩)
      simp [none]
    · have other : edgeKey q.1.1 q.1.2 ≠ edgeKey p.1 p.2 := fun same =>
        fresh (same ▸ List.mem_map.mpr ⟨(p, x), later, rfl⟩)
      simp only [List.filter_cons, other, decide_false, Bool.false_eq_true, if_false]
      exact ratesOn_of_distinct_pairs p x rest distinct later

/-- On a reservation whose edges are distinct, each edge of the path holds its own demand and
nothing else. -/
theorem ratesOn_of_distinct {r : Reservation R} (distinct : (r.edges.map fun p => edgeKey p.1 p.2).Nodup)
    (lengths : r.edges.length = r.demand.length) {p : KmeId × KmeId} {x : R}
    (paired : (p, x) ∈ r.edges.zip r.demand) : r.ratesOn (edgeKey p.1 p.2) = [x] := by
  have keys : ((r.edges.zip r.demand).map fun q => edgeKey q.1.1 q.1.2) = r.edges.map fun p => edgeKey p.1 p.2 := by
    conv_rhs => rw [← List.map_fst_zip (le_of_eq lengths), List.map_map]
    rfl
  exact ratesOn_of_distinct_pairs p x _ (keys ▸ distinct) paired

end Reservation

namespace Controller

/-- With exact rates, a registration admitted at any point of any run from a new controller
leaves each edge of the session's path reserving no more than its capacity at the instant of
admission, right after its demands were reserved. -/
theorem admitted_within_capacity {config : ControllerConfig} {c : Controller ℚ} {e : Env}
    {s₀ s : Env × Controller ℚ} (created : create config = .ok c) (run : Run (fun _ => True) (e, c) s₀)
    {src dst : AppId} {kme : KmeId} {qos : Qos} {master : Bool} {d : Decision} {ksid : Ksid}
    (handled : handle (.registerApp src dst kme qos master) s₀ = .ok d s)
    (registered : d.reply = .session (.registered ksid)) :
    ∃ res, s.2.directory.reservations.get? ksid = some res ∧
      ∀ p ∈ res.edges, ∃ edge cap, s.2.graph.edge p.1 p.2 = some edge ∧
        edge.capacity s₀.1.now = .ok cap ∧ edge.reserved ≤ cap := by
  have landed := registerApp_lands s₀ ⟨src, dst, kme, qos, master⟩
  rw [show registerApp ⟨src, dst, kme, qos, master⟩ s₀ = .ok d s from handled] at landed
  obtain ⟨_, _, _, res, record, found, _, graph, _, reservations⟩ := landed.2 ksid registered
  refine ⟨res, by simp [reservations], fun p onPath => ?_⟩
  obtain ⟨⟨table, paths, listed⟩, fits⟩ := Graph.findPath_ok found
  -- the path is one of a table built from a graph, hence simple, so its edges are distinct
  obtain ⟨g', rfl⟩ := Run.tabled created run table paths
  have distinct := edgeKeys_nodup (Graph.allPairs_nodup g' listed)
  have lengths := fits.length_eq
  obtain ⟨⟨p', x⟩, paired, rfl⟩ : ∃ q ∈ res.edges.zip res.demand, q.1 = p := by
    rw [← List.map_fst_zip (le_of_eq lengths)] at onPath
    exact List.mem_map.mp onPath
  obtain ⟨edge, cap, here, capacity, fits_room, _⟩ := List.forall₂_zip fits paired
  have single := Reservation.ratesOn_of_distinct distinct lengths paired
  refine ⟨{ edge with reserved := edge.reserved + x }, cap, ?_, capacity, ?_⟩
  · rw [Graph.edge] at here ⊢
    rw [graph, Graph.reserve, Graph.adjust_edges, here, single]
    simp
  · have room : ¬cap - edge.reserved < x := by simpa using fits_room
    simp only
    linarith

theorem admitted_within_capacity_on_a_link :
    ∃ c : Controller ℚ, ∃ s₀ : Env × Controller ℚ,
      create { sampleIntervalMs := 0 } = .ok c ∧ Run (fun _ => True) (({} : Env), c) s₀ ∧
      ∃ d s ksid, handle (.registerApp ⟨1⟩ ⟨2⟩ ⟨1⟩ ⟨8, 1000⟩ true) s₀ = .ok d s ∧
        d.reply = .session (.registered ksid) ∧
        ∃ res, s.2.directory.reservations.get? ksid = some res ∧
          ∀ p ∈ res.edges, ∃ edge cap, s.2.graph.edge p.1 p.2 = some edge ∧
            edge.capacity s₀.1.now = .ok cap ∧ edge.reserved ≤ cap := by
  -- two nodes joined by a link of rate 16, one side of a connection waiting at the second node
  have run₀ : Run (fun _ => True) (({} : Env),
      (⟨{ sampleIntervalMs := 0 }, { windowMs := 15000, intervalMs := 0 }, {}, { pendingTtlMs := 15000 }⟩ :
        Controller ℚ)) _ := .start
  have run₁ := Run.handle (.registerKme "a") run₀ trivial rfl
  have run₂ := Run.handle (.registerKme "b") run₁ trivial rfl
  have run₃ := Run.handle (.newLink ⟨1⟩ ⟨1⟩ 16 15) run₂ trivial rfl
  have run₄ := Run.handle (.newLink ⟨1⟩ ⟨2⟩ 16 15) run₃ trivial rfl
  have run₅ := Run.handle (.registerApp ⟨1⟩ ⟨2⟩ ⟨2⟩ ⟨8, 1000⟩ false) run₄ trivial rfl
  obtain ⟨s₀, run, reached⟩ : ∃ s, Run (fun _ => True) _ s ∧ s = _ := ⟨_, run₅, rfl⟩
  -- the path table sorts nodes, which only `simp` evaluates
  have paths : s₀.2.graph.paths = some ⟨[((⟨1⟩, ⟨1⟩), [⟨1⟩]), ((⟨1⟩, ⟨2⟩), [⟨1⟩, ⟨2⟩]), ((⟨2⟩, ⟨2⟩), [⟨2⟩]),
      ((⟨2⟩, ⟨1⟩), [⟨2⟩, ⟨1⟩])]⟩ := by
    rw [reached]
    show some (Graph.allPairs _) = _
    rw [Graph.allPairs_of_adjacency ⟨0, 0, none, none, {}, ⟨[(⟨1⟩, [⟨2⟩]), (⟨2⟩, [⟨1⟩])]⟩, {}, {}, none⟩]
    · simp [Graph.allPairs, Graph.search, Graph.neighbours, sortedBy, List.mergeSort, Graph.trace, Table.insert,
        Table.get?, Table.contains, Table.keys, Table.size, Table.empty]
    · rfl
  have found : s₀.2.graph.findPath ⟨1⟩ ⟨2⟩ (Qos.rate ⟨8, 1000⟩)
      (s₀.2.config.policy.overhead (Qos.rate ⟨8, 1000⟩) s₀.2.config.prefetchKeys) s₀.1.now =
        .ok ⟨[⟨1⟩, ⟨2⟩], [8]⟩ := by
    unfold Graph.findPath
    rw [paths, reached]
    simp +decide [List.filterM, List.filterAuxM, Graph.demands, Graph.edge, Edge.headroom, Edge.capacity,
      CapacityWindow.estimate, CapacityWindow.startAt, CapacityWindow.elapsed, Table.get?, edgeKey, Qos.rate,
      OverheadPolicy.overhead, bind, Except.bind, pure, Except.pure, Halt.ofAbort, Env.now, Table.insert,
      Graph.link, Graph.addNode, Graph.topologyChanged, Ident.space, Nat.pow_eq]
  obtain ⟨d, s, handled, replied⟩ := @registerApp_of_found ℚ _ s₀ ⟨⟨1⟩, ⟨2⟩, ⟨1⟩, ⟨8, 1000⟩, true⟩ _ _ _ _
    (by rw [reached]; rfl) (by rw [reached]; rfl) found
  have created : create { sampleIntervalMs := 0 } =
      .ok (⟨{ sampleIntervalMs := 0 }, { windowMs := 15000, intervalMs := 0 }, {}, { pendingTtlMs := 15000 }⟩ :
        Controller ℚ) := rfl
  exact ⟨_, s₀, created, run, d, s, _, handled, replied, admitted_within_capacity created run handled replied⟩

end Controller

end KeyRelay
