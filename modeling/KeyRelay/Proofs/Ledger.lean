import Mathlib
import KeyRelay.Proofs.Exact

/-!
The reservations of the controller balance. Each edge holds, as its reserved rate, exactly the
demands that the stored reservations of the open sessions place on it: admission adds a
session's demands to the edges of its path as it stores the reservation, and closing a session,
on request or after a failed setup, takes them off as it drops it. Rates are exact and no demand
is negative, so giving back a session's reservation never meets the floor at zero, and with no
session open every edge holds nothing.

This needs each new session to be stored under an identifier that no open session holds: the
directory would otherwise replace the older session's reservation while the edges still hold
it.
-/
namespace KeyRelay

namespace Reservation

theorem mem_demand_of_ratesOn {r : Reservation ℚ} {key : KmeId × KmeId} {x : ℚ}
    (held : x ∈ r.ratesOn key) : x ∈ r.demand := by
  obtain ⟨p, inside, _, rfl⟩ := mem_ratesOn held
  exact (List.of_mem_zip inside).2

end Reservation

namespace Directory

/-- The rate a session's stored reservation holds on an edge; a session with none holds none. -/
def heldOn (d : Directory ℚ) (ksid : Ksid) (key : KmeId × KmeId) : ℚ :=
  ((d.reservations.get? ksid).map fun r => (r.ratesOn key).sum).getD 0

/-- The rate the open sessions hold on an edge by their stored reservations. -/
def demandOn (d : Directory ℚ) (key : KmeId × KmeId) : ℚ :=
  (d.sessions.byKsid.keys.map fun ksid => d.heldOn ksid key).sum

/-- No stored reservation demands a negative rate. -/
def DemandsNonneg (d : Directory ℚ) : Prop :=
  ∀ ksid res, d.reservations.get? ksid = some res → ∀ x ∈ res.demand, 0 ≤ x

variable {d d' : Directory ℚ}

/-- What closing a session gives back: its stored reservation, or its bare path. -/
theorem heldOn_closing (ksid : Ksid) (path : List KmeId) (key : KmeId × KmeId) :
    (((d.reservations.get? ksid).getD ⟨path, []⟩).ratesOn key).sum = d.heldOn ksid key := by
  unfold heldOn
  cases d.reservations.get? ksid <;> simp

theorem heldOn_nonneg (nonneg : d.DemandsNonneg) (ksid : Ksid) (key : KmeId × KmeId) :
    0 ≤ d.heldOn ksid key := by
  unfold heldOn
  cases stored : d.reservations.get? ksid with
  | none => simp
  | some res =>
    simp only [Option.map_some, Option.getD_some]
    exact List.sum_nonneg fun x held => nonneg ksid res stored x (Reservation.mem_demand_of_ratesOn held)

/-- An open session holds on an edge no more than all open sessions together. -/
theorem heldOn_le_demandOn (nonneg : d.DemandsNonneg) {ksid : Ksid} (opened : ksid ∈ d.sessions.byKsid.keys)
    (key : KmeId × KmeId) : d.heldOn ksid key ≤ d.demandOn key := by
  unfold demandOn
  rw [← List.sum_map_erase _ opened]
  have others : 0 ≤ ((d.sessions.byKsid.keys.erase ksid).map fun k => d.heldOn k key).sum :=
    List.sum_nonneg fun x inside => by
      obtain ⟨k, _, rfl⟩ := List.mem_map.mp inside
      exact heldOn_nonneg nonneg k key
  linarith

/-- Where no stored reservation places demand, the open sessions hold nothing. -/
theorem demandOn_of_unplaced {key : KmeId × KmeId}
    (unplaced : ∀ ksid res, d.reservations.get? ksid = some res → res.ratesOn key = []) :
    d.demandOn key = 0 := by
  unfold demandOn
  refine List.sum_eq_zero fun x inside => ?_
  obtain ⟨ksid, _, rfl⟩ := List.mem_map.mp inside
  unfold heldOn
  cases stored : d.reservations.get? ksid with
  | none => rfl
  | some res => simp [unplaced ksid res stored]

/-- Opening a session under a fresh identifier adds its reservation's demands. -/
theorem demandOn_open {ksid : Ksid} {record : SessionRecord} {res : Reservation ℚ}
    (absent : d.sessions.byKsid.get? ksid = none)
    (sessions : d'.sessions.byKsid = d.sessions.byKsid.insert ksid record)
    (reservations : d'.reservations = d.reservations.insert ksid res) (key : KmeId × KmeId) :
    d'.demandOn key = d.demandOn key + (res.ratesOn key).sum := by
  have kept : ∀ k ∈ d.sessions.byKsid.keys, d'.heldOn k key = d.heldOn k key := by
    intro k opened
    have other : ksid ≠ k := by
      rintro rfl
      simp [Table.mem_keys, absent] at opened
    simp only [heldOn, reservations, Table.get?_insert, other, if_false]
  have added : d'.heldOn ksid key = (res.ratesOn key).sum := by
    simp [heldOn, reservations]
  unfold demandOn
  rw [sessions, Table.keys_insert_of_absent absent, List.map_append, List.sum_append,
    List.map_congr_left kept]
  simp [added]

/-- Closing an open session takes its reservation's demands off. -/
theorem demandOn_close {ksid : Ksid} {record : SessionRecord}
    (distinct : d.sessions.byKsid.KeysNodup) (found : d.sessions.byKsid.get? ksid = some record)
    (sessions : d'.sessions.byKsid = d.sessions.byKsid.erase ksid)
    (reservations : d'.reservations = d.reservations.erase ksid) (key : KmeId × KmeId) :
    d'.demandOn key = d.demandOn key - d.heldOn ksid key := by
  have opened : ksid ∈ d.sessions.byKsid.keys := Table.mem_keys.mpr (by simp [found])
  have kept : ∀ k ∈ d.sessions.byKsid.keys.erase ksid, d'.heldOn k key = d.heldOn k key := by
    intro k remaining
    have other : ksid ≠ k := fun same => (List.Nodup.mem_erase_iff distinct).mp remaining |>.1 same.symm
    simp only [heldOn, reservations, Table.get?_erase, other, if_false]
  have split := List.sum_map_erase (fun k => d.heldOn k key) opened
  unfold demandOn
  rw [sessions, Table.keys_erase distinct, List.map_congr_left kept]
  linarith

end Directory

namespace Graph

/-- Reserving adds up the demands on an edge. -/
theorem foldl_add (xs : List ℚ) (x : ℚ) : xs.foldl (· + ·) x = x + xs.sum := by
  induction xs generalizing x with
  | nil => simp
  | cons y ys ih =>
    rw [List.foldl_cons, ih, List.sum_cons]
    ring

/-- Giving back demands that the reserved rate covers never meets the floor at zero. -/
theorem foldl_release (xs : List ℚ) (x : ℚ) (nonneg : ∀ y ∈ xs, 0 ≤ y) (covered : xs.sum ≤ x) :
    xs.foldl (fun r y => RateArith.greatest (r - y) 0) x = x - xs.sum := by
  induction xs generalizing x with
  | nil => simp
  | cons y ys ih =>
    have rest : 0 ≤ ys.sum := List.sum_nonneg fun z inside => nonneg z (List.mem_cons_of_mem y inside)
    have first : 0 ≤ y := nonneg y List.mem_cons_self
    rw [List.sum_cons] at covered
    rw [List.foldl_cons, RateArith.greatest_rat, max_eq_left (by linarith),
      ih (x - y) (fun z inside => nonneg z (List.mem_cons_of_mem y inside)) (by linarith), List.sum_cons]
    ring

theorem reservedAt_reserve (g : Graph ℚ) (res : Reservation ℚ) (key : KmeId × KmeId) :
    (g.reserve res).reservedAt key = (g.reservedAt key).map (· + (res.ratesOn key).sum) := by
  simp only [reserve, reservedAt_adjust, foldl_add]

theorem edges_release (g : Graph ℚ) (res : Reservation ℚ) (key : KmeId × KmeId)
    (nonneg : ∀ y ∈ res.ratesOn key, 0 ≤ y) (covered : ∀ r, g.reservedAt key = some r → (res.ratesOn key).sum ≤ r) :
    (g.release res).edges.get? key =
      (g.edges.get? key).map fun e => { e with reserved := e.reserved - (res.ratesOn key).sum } := by
  rw [release, adjust_edges]
  cases found : g.edges.get? key with
  | none => rfl
  | some e =>
    have bound := covered e.reserved (by simp [reservedAt, found])
    simp only [Option.map_some, foldl_release _ _ nonneg bound]

/-- An admitted pair of ends is an edge. -/
theorem Admitted.placed {g : Graph ℚ} {now : Nat} {rate overhead : ℚ} {p : KmeId × KmeId} {x : ℚ}
    (admitted : g.Admitted now rate overhead p x) : (g.reservedAt (edgeKey p.1 p.2)).isSome := by
  obtain ⟨e, _, found, _⟩ := admitted
  rw [edge] at found
  simp [reservedAt, found]

/-- The demands of an admitted path are the asked rate, or it with the overhead on top. -/
theorem demand_nonneg {g : Graph ℚ} {now : Nat} {rate overhead : ℚ} (rate_nonneg : 0 ≤ rate)
    (overhead_nonneg : 0 ≤ overhead) {edges : List (KmeId × KmeId)} {demand : List ℚ}
    (admitted : List.Forall₂ (g.Admitted now rate overhead) edges demand) : ∀ x ∈ demand, 0 ≤ x := by
  induction admitted with
  | nil => simp
  | cons head _ ih =>
    intro x inside
    rcases List.mem_cons.mp inside with rfl | later
    · obtain ⟨_, _, _, _, _, asked⟩ := head
      rcases asked with rfl | rfl <;> linarith
    · exact ih x later

end Graph

namespace Controller

/-- The reservations of a controller balance: the sessions are stored under distinct
identifiers, no stored demand is negative, a stored reservation places demand only on edges
that exist, and each edge holds exactly what the open sessions place on it. -/
structure Balanced (c : Controller ℚ) : Prop where
  distinct : c.directory.sessions.byKsid.KeysNodup
  nonneg : c.directory.DemandsNonneg
  placed : ∀ ksid res key, c.directory.reservations.get? ksid = some res → res.ratesOn key ≠ [] →
    (c.graph.reservedAt key).isSome
  balance : ∀ key r, c.graph.reservedAt key = some r → r = c.directory.demandOn key

/-- Giving back what an open session holds takes exactly its demands off each edge. -/
theorem Balanced.release_exact {c : Controller ℚ} (balanced : Balanced c) {ksid : Ksid}
    {record : SessionRecord} (found : c.directory.sessions.byKsid.get? ksid = some record)
    (key : KmeId × KmeId) :
    (c.graph.release ((c.directory.reservations.get? ksid).getD ⟨record.path, []⟩)).edges.get? key =
      (c.graph.edges.get? key).map fun e => { e with reserved := e.reserved - c.directory.heldOn ksid key } := by
  have opened : ksid ∈ c.directory.sessions.byKsid.keys := Table.mem_keys.mpr (by simp [found])
  rw [Graph.edges_release, Directory.heldOn_closing]
  · intro y held
    cases stored : c.directory.reservations.get? ksid with
    | none => simp [stored] at held
    | some res =>
      rw [stored, Option.getD_some] at held
      exact balanced.nonneg ksid res stored y (Reservation.mem_demand_of_ratesOn held)
  · intro r reserved
    rw [Directory.heldOn_closing, balanced.balance key r reserved]
    exact Directory.heldOn_le_demandOn balanced.nonneg opened key

namespace Balanced

variable {s₀ s : Env × Controller ℚ}

theorem reshape {c c' : Controller ℚ} (balanced : Balanced c) (graph : Reshapes c.graph c'.graph)
    (sessions : c'.directory.sessions.byKsid = c.directory.sessions.byKsid)
    (reservations : c'.directory.reservations = c.directory.reservations) : Balanced c' := by
  have demand : ∀ key, c'.directory.demandOn key = c.directory.demandOn key := by
    intro key
    simp only [Directory.demandOn, Directory.heldOn, sessions, reservations]
  refine ⟨sessions ▸ balanced.distinct, ?_, ?_, ?_⟩
  · intro ksid res stored
    rw [reservations] at stored
    exact balanced.nonneg ksid res stored
  · intro ksid res key stored placed
    rw [reservations] at stored
    rcases graph.reservedAt key with same | ⟨_, new⟩
    · rw [same]
      exact balanced.placed ksid res key stored placed
    · rw [new]
      rfl
  · intro key r reserved
    rw [demand]
    rcases graph.reservedAt key with same | ⟨absent, new⟩
    · rw [same] at reserved
      exact balanced.balance key r reserved
    · -- a new edge, on which no stored reservation places demand yet
      rw [new, Option.some.injEq] at reserved
      subst reserved
      refine (Directory.demandOn_of_unplaced fun ksid res stored => ?_).symm
      by_contra placed
      have held := balanced.placed ksid res key stored placed
      rw [absent] at held
      exact Bool.false_ne_true held

theorem admission {ksid : Ksid} (fresh : Fresh s₀) (balanced : Balanced s₀.2) (admits : Admits s₀ s ksid) :
    Balanced s.2 := by
  obtain ⟨src, dst, qos, res, record, found, drawn, graph, sessions, reservations⟩ := admits
  have absent : s₀.2.directory.sessions.byKsid.get? record.ksid = none := drawn ▸ fresh
  have admitted := (Graph.findPath_ok found).2
  have nonneg := Graph.demand_nonneg qos.rate_nonneg
    (OverheadPolicy.overhead_nonneg _ qos.rate_nonneg _) admitted
  have reserved := Graph.reservedAt_reserve s₀.2.graph res
  refine ⟨sessions ▸ Table.keysNodup_insert balanced.distinct _ _, ?_, ?_, ?_⟩
  · intro k r stored
    rw [reservations, Table.get?_insert] at stored
    split at stored
    · cases stored
      exact nonneg
    · exact balanced.nonneg k r stored
  · intro k r key stored placed
    rw [graph, reserved, Option.isSome_map]
    rw [reservations, Table.get?_insert] at stored
    split at stored
    · -- the new reservation places demand only on the edges of its admitted path
      cases stored
      obtain ⟨x, held⟩ := List.exists_mem_of_ne_nil _ placed
      obtain ⟨p, inside, rfl, _⟩ := Reservation.mem_ratesOn held
      exact Graph.Admitted.placed ((List.forall₂_iff_zip.mp admitted).2 inside)
    · exact balanced.placed k r key stored placed
  · intro key r held
    rw [graph, reserved] at held
    obtain ⟨r₀, before, rfl⟩ := Option.map_eq_some_iff.mp held
    rw [Directory.demandOn_open absent sessions reservations, balanced.balance key r₀ before]

theorem close (balanced : Balanced s₀.2) (closes : Closes s₀ s) : Balanced s.2 := by
  obtain ⟨ksid, record, found, graph, sessions, reservations⟩ := closes
  have released := balanced.release_exact found
  refine ⟨sessions ▸ Table.keysNodup_erase balanced.distinct ksid, ?_, ?_, ?_⟩
  · intro k r stored
    rw [reservations, Table.get?_erase] at stored
    split at stored
    · cases stored
    · exact balanced.nonneg k r stored
  · intro k r key stored placed
    rw [reservations, Table.get?_erase] at stored
    split at stored
    · cases stored
    · have before := balanced.placed k r key stored placed
      simpa [graph, Graph.reservedAt, released key] using before
  · intro key r held
    simp only [graph, Graph.reservedAt, released key, Option.map_map] at held
    obtain ⟨e, before, rfl⟩ := Option.map_eq_some_iff.mp held
    rw [Directory.demandOn_close balanced.distinct found sessions reservations,
      ← balanced.balance key e.reserved (by simp [Graph.reservedAt, before])]
    rfl

theorem moves (fresh : Fresh s₀) (balanced : Balanced s₀.2) (moves : Moves s₀ s) : Balanced s.2 := by
  cases moves with
  | reshape graph sessions reservations => exact balanced.reshape graph sessions reservations
  | admission admits => exact balanced.admission fresh admits
  | close closes => exact balanced.close closes

theorem initial {config : ControllerConfig} {c : Controller ℚ} (created : create config = .ok c) :
    Balanced c := by
  rw [create_eq created]
  refine ⟨List.nodup_nil, ?_, ?_, ?_⟩
  · intro ksid res stored
    cases stored
  · intro ksid res key stored
    cases stored
  · intro key r reserved
    cases reserved

end Balanced

/-- Along every run from a new controller in which no session is opened under the identifier
of an open one, the reserved rate of each edge is what the open sessions' stored reservations
place on it. -/
theorem Run.balanced {config : ControllerConfig} {c : Controller ℚ} {e : Env} {s : Env × Controller ℚ}
    (created : create config = .ok c) (run : Run Fresh (e, c) s) : Balanced s.2 :=
  run.invariant (Balanced.initial created) (fun _ _ fresh balanced moves => balanced.moves fresh moves)
    (fun _ _ balanced closes => balanced.close closes)

end Controller

end KeyRelay
