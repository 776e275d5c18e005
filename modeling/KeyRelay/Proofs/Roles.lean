import KeyRelay.Proofs.RelayOrder

/-! The roles of the hops of a session's path. On a path without repeated nodes each hop's role
is read off its place: one node serves both applications, two nodes share one link, and on a
longer path the first hop forwards to the second, the last takes keys from the one before it,
and every other hop sits between the hops on either side of it. A node off the path has no
role. So the neighbours a role names are exactly the hops next to it on the path, and each hop
forwards to the hop that takes keys from it (`SessionRecord.roles_form_a_chain`). -/

namespace KeyRelay

namespace Role

/-- The hop a role passes keys on to. -/
def next? : Role → Option KmeId
  | .first next => some next
  | .middle _ next => some next
  | _ => none

/-- The hop a role takes keys from. -/
def prev? : Role → Option KmeId
  | .middle prev _ => some prev
  | .last prev => some prev
  | _ => none

end Role

/-- `a` stands right before `b` somewhere on `path`. -/
def Consecutive (path : List KmeId) (a b : KmeId) : Prop := ∃ i, path[i]? = some a ∧ path[i + 1]? = some b

section Places

variable {path : List KmeId} {i j : Nat} {a p : KmeId}

/-- On a path without repeated nodes a node has one place. -/
theorem place_unique (simple : path.Nodup) (first : path[i]? = some p) (second : path[j]? = some p) :
    i = j := by
  obtain ⟨bound, -⟩ := List.getElem?_eq_some_iff.mp first
  exact (List.getElem?_inj bound simple).mp (first.trans second.symm)

theorem consecutive_before_iff (simple : path.Nodup) (here : path[i]? = some p) :
    Consecutive path a p ↔ 0 < i ∧ path[i - 1]? = some a := by
  constructor
  · rintro ⟨j, before, at_p⟩
    have same := place_unique simple at_p here
    subst same
    exact ⟨by omega, by simpa using before⟩
  · rintro ⟨inner, before⟩
    exact ⟨i - 1, before, by rwa [Nat.sub_add_cancel inner]⟩

theorem consecutive_after_iff (simple : path.Nodup) (here : path[i]? = some p) :
    Consecutive path p a ↔ path[i + 1]? = some a := by
  constructor
  · rintro ⟨j, at_p, after⟩
    rwa [place_unique simple at_p here] at after
  · exact fun after => ⟨i, here, after⟩

end Places

namespace SessionRecord

/-- What a session's path gives each node: the role of every place on it, that a node off it has
none, that the neighbours a role names are the hops next to it, and that on a relayed path each
hop forwards to the following hop, which takes keys from it. -/
structure RolesChain (r : SessionRecord) : Prop where
  off : ∀ me, me ∉ r.path → r.role me = .error (.violation (.notOnPath me r.ksid))
  single : ∀ p, r.path = [p] → r.role p = .ok (.direct none)
  pair : ∀ p q, r.path = [p, q] → r.role p = .ok (.direct (some q)) ∧ r.role q = .ok (.direct (some p))
  first : ∀ p next, 3 ≤ r.path.length → r.path.head? = some p → Consecutive r.path p next →
    r.role p = .ok (.first next)
  last : ∀ prev p, 3 ≤ r.path.length → r.path.getLast? = some p → Consecutive r.path prev p →
    r.role p = .ok (.last prev)
  middle : ∀ prev p next, Consecutive r.path prev p → Consecutive r.path p next →
    r.role p = .ok (.middle prev next)
  neighbours : ∀ p ∈ r.path, ∃ role, r.role p = .ok role ∧
    ∀ x, x ∈ role.neighbours ↔ Consecutive r.path x p ∨ Consecutive r.path p x
  chain : ∀ p q, 3 ≤ r.path.length → Consecutive r.path p q →
    ∃ rp rq, r.role p = .ok rp ∧ r.role q = .ok rq ∧ rp.next? = some q ∧ rq.prev? = some p

variable {r : SessionRecord}

theorem role_off {me : KmeId} (outside : me ∉ r.path) :
    r.role me = .error (.violation (.notOnPath me r.ksid)) := by
  have unplaced : Role.position? r.path me = none := List.idxOf?_eq_none_iff.mpr outside
  simp [role, Role.onPath, unplaced]

theorem role_single {p : KmeId} (alone : r.path = [p]) : r.role p = .ok (.direct none) := by
  simp [role, Role.onPath, Role.position?, alone]

theorem role_pair {p q : KmeId} (simple : r.path.Nodup) (two : r.path = [p, q]) :
    r.role p = .ok (.direct (some q)) ∧ r.role q = .ok (.direct (some p)) := by
  -- each end is found at its own place, the second one too since the path has no repeats
  have atFirst : Role.position? r.path p = some 0 := by
    simpa [two] using position?_getElem simple (by simp [two] : 0 < r.path.length)
  have atSecond : Role.position? r.path q = some 1 := by
    simpa [two] using position?_getElem simple (by simp [two] : 1 < r.path.length)
  refine ⟨?_, ?_⟩
  · simp only [role, Role.onPath, atFirst]
    simp [two]
  · simp only [role, Role.onPath, atSecond]
    simp [two]

theorem role_first_of_consecutive {p next : KmeId} (simple : r.path.Nodup) (long : 3 ≤ r.path.length)
    (head : r.path.head? = some p) (step : Consecutive r.path p next) : r.role p = .ok (.first next) := by
  have here : r.path[0]? = some p := by rwa [List.head?_eq_getElem?] at head
  exact role_first simple long here ((consecutive_after_iff simple here).mp step)

theorem role_last_of_consecutive {prev p : KmeId} (simple : r.path.Nodup) (long : 3 ≤ r.path.length)
    (tail : r.path.getLast? = some p) (step : Consecutive r.path prev p) : r.role p = .ok (.last prev) := by
  have here : r.path[r.path.length - 1]? = some p := by rwa [List.getLast?_eq_getElem?] at tail
  obtain ⟨-, before⟩ := (consecutive_before_iff simple here).mp step
  exact role_last simple long (by rwa [show r.path.length - 1 - 1 = r.path.length - 2 by omega] at before) here

theorem role_middle_of_consecutive {prev p next : KmeId} (simple : r.path.Nodup) (into : Consecutive r.path prev p)
    (out : Consecutive r.path p next) : r.role p = .ok (.middle prev next) := by
  obtain ⟨i, here, after⟩ := out
  obtain ⟨inner, before⟩ := (consecutive_before_iff simple here).mp into
  exact role_middle simple inner before here after

/-- The neighbours a hop's role names are the hops right before and right after it. -/
theorem role_neighbours {p : KmeId} (simple : r.path.Nodup) (member : p ∈ r.path) :
    ∃ role, r.role p = .ok role ∧ ∀ x, x ∈ role.neighbours ↔ Consecutive r.path x p ∨ Consecutive r.path p x := by
  obtain ⟨i, bound, rfl⟩ := List.getElem_of_mem member
  have here : r.path[i]? = some r.path[i] := List.getElem?_eq_getElem bound
  obtain ⟨role, found, named⟩ := onPath_getElem simple bound
  refine ⟨role, by simp [SessionRecord.role, found], fun x => ?_⟩
  rw [named, consecutive_before_iff simple here, consecutive_after_iff simple here]
  by_cases inner : 0 < i <;> simp [adjacent, inner, eq_comm]

/-- On a path of three nodes or more, a hop forwards to the next one, which takes keys from it. -/
theorem role_chain {p q : KmeId} (simple : r.path.Nodup) (long : 3 ≤ r.path.length)
    (step : Consecutive r.path p q) :
    ∃ rp rq, r.role p = .ok rp ∧ r.role q = .ok rq ∧ rp.next? = some q ∧ rq.prev? = some p := by
  obtain ⟨i, here, after⟩ := step
  have bound : i + 1 < r.path.length := (List.getElem?_eq_some_iff.mp after).1
  -- the first hop forwards as `first`, any later one as `middle`
  have sends : ∃ rp, r.role p = .ok rp ∧ rp.next? = some q := by
    by_cases start : i = 0
    · subst start
      exact ⟨_, role_first simple long here after, rfl⟩
    · have before : r.path[i - 1]? = some r.path[i - 1] := List.getElem?_eq_getElem (by omega)
      exact ⟨_, role_middle simple (by omega) before here after, rfl⟩
  -- the last hop takes keys as `last`, any earlier one as `middle`
  have takes : ∃ rq, r.role q = .ok rq ∧ rq.prev? = some p := by
    by_cases finish : i + 1 = r.path.length - 1
    · refine ⟨_, role_last simple long ?_ ?_, rfl⟩
      · rwa [show r.path.length - 2 = i by omega]
      · rwa [← finish]
    · have beyond : r.path[i + 1 + 1]? = some r.path[i + 1 + 1] := List.getElem?_eq_getElem (by omega)
      exact ⟨_, role_middle simple (by omega) (by simpa using here) after beyond, rfl⟩
  obtain ⟨rp, sent, forward⟩ := sends
  obtain ⟨rq, taken, back⟩ := takes
  exact ⟨rp, rq, sent, taken, forward, back⟩

/-- Relay roles form a chain. On a path without repeated nodes: one node is direct without a
companion, two nodes are each other's companion, and on a longer path the first hop is `first`
towards the second, the last is `last` after the one before it, and every other hop is `middle`
between its two sides; a node off the path is refused. A role names exactly the hops next to it,
and each hop's `next` is the following hop, whose `prev` is that hop. -/
theorem roles_form_a_chain (r : SessionRecord) (simple : r.path.Nodup) : r.RolesChain where
  off _ outside := role_off outside
  single _ alone := role_single alone
  pair _ _ two := role_pair simple two
  first _ _ long head step := role_first_of_consecutive simple long head step
  last _ _ long tail step := role_last_of_consecutive simple long tail step
  middle _ _ _ into out := role_middle_of_consecutive simple into out
  neighbours _ member := role_neighbours simple member
  chain _ _ long step := role_chain simple long step

/-- A session relayed over four nodes. -/
theorem roles_form_a_chain_on_four_hops :
    ([⟨1⟩, ⟨2⟩, ⟨3⟩, ⟨4⟩] : List KmeId).Nodup ∧
      RolesChain
        { ksid := ⟨9⟩, src := ⟨5⟩, dst := ⟨6⟩, kmeSrc := ⟨1⟩, kmeDst := ⟨4⟩, qos := ⟨256, 1000⟩,
          path := [⟨1⟩, ⟨2⟩, ⟨3⟩, ⟨4⟩], createdAt := 0 } :=
  ⟨by decide, roles_form_a_chain _ (by decide)⟩

end SessionRecord

end KeyRelay
