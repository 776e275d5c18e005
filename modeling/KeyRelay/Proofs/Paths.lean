import Mathlib
import KeyRelay.Graph
import KeyRelay.Proofs.Table

/-!
The paths of the path table are simple. The breadth-first search gives each node it reaches a
parent that it had reached before, so the parent links descend a rank down to the start, and
the path traced back along them from any node never meets a node twice. Consecutive nodes of a
simple path make distinct edges.
-/
namespace KeyRelay

namespace Graph

variable {R : Type}

/-- What the search keeps of its parent table and queue: parent links descend a rank down to
`src`, every parent and every queued node has been reached. -/
structure Searching (src : KmeId) (parent : Table KmeId KmeId) (queue : List KmeId) : Prop where
  ranked : ∃ rank : KmeId → Nat, ∀ x p, parent.get? x = some p → x ≠ src → rank p < rank x
  parents : ∀ x p, parent.get? x = some p → (parent.get? p).isSome
  queued : ∀ x ∈ queue, (parent.get? x).isSome

theorem searching_start (src : KmeId) : Searching src (Table.empty.insert src src) [src] := by
  refine ⟨⟨fun _ => 0, fun x p found other => ?_⟩, fun x p found => ?_, fun x queued => ?_⟩
  · simp only [Table.get?_insert, Table.get?_empty] at found
    split at found
    · exact absurd (Eq.symm ‹src = x›) other
    · cases found
  · simp only [Table.get?_insert, Table.get?_empty] at found
    split at found
    · cases found
      simp
    · cases found
  · rw [List.mem_singleton.mp queued]
    simp

theorem reached_insert {parent : Table KmeId KmeId} {x : KmeId} (reached : (parent.get? x).isSome)
    (k v : KmeId) : ((parent.insert k v).get? x).isSome := by
  rw [Table.get?_insert]
  split
  · rfl
  · exact reached

/-- Reaching `next` from a reached `node` keeps the search's invariant. -/
theorem Searching.reach {src node next : KmeId} {parent : Table KmeId KmeId} {queue : List KmeId}
    (searching : Searching src parent queue) (known : (parent.get? node).isSome)
    (absent : parent.get? next = none) :
    Searching src (parent.insert next node) (queue ++ [next]) := by
  obtain ⟨rank, descends⟩ := searching.ranked
  have fresh : ∀ x, (parent.get? x).isSome → x ≠ next := by
    rintro x reached rfl
    simp [absent] at reached
  refine ⟨⟨fun y => if y = next then rank node + 1 else rank y, fun x p found other => ?_⟩, ?_, ?_⟩
  · rw [Table.get?_insert] at found
    split at found
    · -- the new link: its parent was reached before it
      rename_i added
      cases found
      subst added
      simp [fresh node known]
    · rename_i old
      have reached : (parent.get? p).isSome := searching.parents x p found
      simp [fresh p reached, Ne.symm old, descends x p found other]
  · intro x p found
    rw [Table.get?_insert] at found
    split at found
    · cases found
      exact reached_insert known next node
    · exact reached_insert (searching.parents x p found) next node
  · intro x queued
    rcases List.mem_append.mp queued with waiting | added
    · exact reached_insert (searching.queued x waiting) next node
    · simp [List.mem_singleton.mp added]

/-- One round of the search: the neighbours of a reached node not reached yet join it. -/
theorem Searching.visit {src node : KmeId} (neighbours : List KmeId) :
    ∀ {parent : Table KmeId KmeId} {queue : List KmeId}, Searching src parent queue →
      (parent.get? node).isSome →
      Searching src
        (neighbours.foldl (fun (pq : Table KmeId KmeId × List KmeId) next =>
          if pq.1.contains next then pq else (pq.1.insert next node, pq.2 ++ [next])) (parent, queue)).1
        (neighbours.foldl (fun (pq : Table KmeId KmeId × List KmeId) next =>
          if pq.1.contains next then pq else (pq.1.insert next node, pq.2 ++ [next])) (parent, queue)).2 := by
  induction neighbours with
  | nil => exact fun searching _ => searching
  | cons next rest ih =>
    intro parent queue searching known
    rw [List.foldl_cons]
    split
    · exact ih searching known
    · rename_i unreached
      have absent := Table.get?_eq_none_of_contains parent next (by simpa using unreached)
      exact ih (searching.reach known absent) (reached_insert known next node)

theorem Searching.search (g : Graph R) {src : KmeId} :
    ∀ (fuel : Nat) {queue : List KmeId} {parent : Table KmeId KmeId}, Searching src parent queue →
      Searching src (g.search fuel queue parent) [] := by
  intro fuel
  induction fuel with
  | zero =>
    intro queue parent searching
    exact ⟨searching.ranked, searching.parents, by simp⟩
  | succ fuel ih =>
    intro queue parent searching
    cases queue with
    | nil => exact searching
    | cons node queue =>
      have known := searching.queued node List.mem_cons_self
      have rest : Searching src parent queue :=
        ⟨searching.ranked, searching.parents, fun x waiting => searching.queued x (List.mem_cons_of_mem _ waiting)⟩
      exact ih (Searching.visit (g.neighbours node) rest known)

/-- Tracing back along links that descend a rank gives a path whose ranks ascend. -/
theorem trace_ascends {src : KmeId} {parent : Table KmeId KmeId} {rank : KmeId → Nat}
    (descends : ∀ x p, parent.get? x = some p → x ≠ src → rank p < rank x) :
    ∀ (fuel : Nat) (at_ : KmeId) (rest : List KmeId), (at_ :: rest).Pairwise (fun a b => rank a < rank b) →
      (trace src parent fuel at_ (at_ :: rest)).Pairwise (fun a b => rank a < rank b) := by
  intro fuel
  induction fuel with
  | zero => intro at_ rest ascends; exact ascends
  | succ fuel ih =>
    intro at_ rest ascends
    unfold trace
    split
    · exact ascends
    · rename_i other
      cases found : parent.get? at_ with
      | none => exact ascends
      | some prev =>
        apply ih prev (at_ :: rest)
        refine List.pairwise_cons.mpr ⟨fun b later => ?_, ascends⟩
        have lower := descends at_ prev found other
        rcases List.mem_cons.mp later with rfl | further
        · exact lower
        · exact lt_trans lower (List.rel_of_pairwise_cons ascends further)

/-- Every path the table holds visits each node once. -/
theorem allPairs_nodup (g : Graph R) {ends : KmeId × KmeId} {path : List KmeId}
    (found : g.allPairs.get? ends = some path) : path.Nodup := by
  -- both folds insert only paths traced back from the search of their start
  let Simple := fun (table : Table (KmeId × KmeId) (List KmeId)) =>
    ∀ ends path, table.get? ends = some path → path.Nodup
  have traced : ∀ src dst, (trace src (g.search (g.adjacency.size + 1) [src] (Table.empty.insert src src))
      ((g.search (g.adjacency.size + 1) [src] (Table.empty.insert src src)).size + 1) dst [dst]).Nodup := by
    intro src dst
    obtain ⟨rank, descends⟩ := (Searching.search g (g.adjacency.size + 1) (searching_start src)).ranked
    exact (trace_ascends descends _ dst [] (List.pairwise_singleton _ _)).imp (fun below => ne_of_lt below |>
      fun unequal same => unequal (congrArg rank same))
  have insert_simple : ∀ table key path, Simple table → path.Nodup → Simple (table.insert key path) := by
    intro table key path simple fresh ends' path' found'
    rw [Table.get?_insert] at found'
    split at found'
    · cases found'
      exact fresh
    · exact simple ends' path' found'
  have inner : ∀ src (dsts : List KmeId) table, Simple table →
      Simple (dsts.foldl (fun table dst => table.insert (src, dst)
        (trace src (g.search (g.adjacency.size + 1) [src] (Table.empty.insert src src))
          ((g.search (g.adjacency.size + 1) [src] (Table.empty.insert src src)).size + 1) dst [dst])) table) := by
    intro src dsts
    induction dsts with
    | nil => exact fun _ simple => simple
    | cons dst rest ih => exact fun table simple => ih _ (insert_simple _ _ _ simple (traced src dst))
  have outer : ∀ (starts : List KmeId) table, Simple table →
      Simple (starts.foldl (fun table src =>
        let parent := g.search (g.adjacency.size + 1) [src] (Table.empty.insert src src)
        parent.keys.foldl (fun table dst =>
          table.insert (src, dst) (trace src parent (parent.size + 1) dst [dst])) table) table) := by
    intro starts
    induction starts with
    | nil => exact fun _ simple => simple
    | cons src rest ih => exact fun table simple => ih _ (inner src _ table simple)
  exact outer _ {} (fun _ _ absent => by cases absent) ends path found

/-- The path table reads the graph's adjacency and nothing else. -/
theorem search_of_adjacency {g g' : Graph R} (same : g.adjacency = g'.adjacency) : g.search = g'.search := by
  have near : g.neighbours = g'.neighbours := by
    funext k
    simp only [neighbours, same]
  funext fuel queue parent
  induction fuel generalizing queue parent with
  | zero => cases queue <;> rfl
  | succ fuel ih =>
    cases queue with
    | nil => rfl
    | cons node queue => simp only [search, near, ih]

theorem allPairs_of_adjacency {g : Graph R} (g' : Graph R) (same : g.adjacency = g'.adjacency) :
    g.allPairs = g'.allPairs := by
  simp only [allPairs, search_of_adjacency same, same]

/-! ### Where the paths of the table go -/

/-- What the search keeps of the nodes it reaches: each is filed once, and every node reached
or queued is `known`. -/
structure Explored (known : KmeId → Prop) (parent : Table KmeId KmeId) (queue : List KmeId) : Prop where
  keyed : parent.KeysNodup
  reached : ∀ x, (parent.get? x).isSome → known x
  queued : ∀ x ∈ queue, known x

theorem Explored.visit {known : KmeId → Prop} {node : KmeId} (neighbours : List KmeId)
    (near : ∀ x ∈ neighbours, known x) :
    ∀ {parent : Table KmeId KmeId} {queue : List KmeId}, Explored known parent queue →
      Explored known
        (neighbours.foldl (fun (pq : Table KmeId KmeId × List KmeId) next =>
          if pq.1.contains next then pq else (pq.1.insert next node, pq.2 ++ [next])) (parent, queue)).1
        (neighbours.foldl (fun (pq : Table KmeId KmeId × List KmeId) next =>
          if pq.1.contains next then pq else (pq.1.insert next node, pq.2 ++ [next])) (parent, queue)).2 := by
  induction neighbours with
  | nil => exact fun explored => explored
  | cons next rest ih =>
    intro parent queue explored
    have later : ∀ x ∈ rest, known x := fun x member => near x (List.mem_cons_of_mem _ member)
    have here : known next := near next List.mem_cons_self
    rw [List.foldl_cons]
    split
    · exact ih later explored
    · refine ih later ⟨Table.keysNodup_insert explored.keyed next node, fun x reached => ?_, fun x queued => ?_⟩
      · rw [Table.get?_insert] at reached
        split at reached
        · rename_i same
          exact same ▸ here
        · exact explored.reached x reached
      · rcases List.mem_append.mp queued with waiting | added
        · exact explored.queued x waiting
        · exact List.mem_singleton.mp added ▸ here

/-- A search from known nodes over a graph whose neighbours are known reaches only known nodes. -/
theorem Explored.search (g : Graph R) {known : KmeId → Prop} (near : ∀ node, ∀ x ∈ g.neighbours node, known x) :
    ∀ (fuel : Nat) {queue : List KmeId} {parent : Table KmeId KmeId}, Explored known parent queue →
      Explored known (g.search fuel queue parent) [] := by
  intro fuel
  induction fuel with
  | zero =>
    intro queue parent explored
    exact ⟨explored.keyed, explored.reached, by simp⟩
  | succ fuel ih =>
    intro queue parent explored
    cases queue with
    | nil => exact explored
    | cons node queue =>
      have rest : Explored known parent queue :=
        ⟨explored.keyed, explored.reached, fun x waiting => explored.queued x (List.mem_cons_of_mem _ waiting)⟩
      exact ih (Explored.visit (g.neighbours node) (near node) rest)

/-- Tracing back from a reached node, along parent links that descend a rank, reaches the start
before the fuel of one step per reached node runs out; the path meets only reached nodes, in
ascending rank. -/
theorem trace_reaches {src : KmeId} {parent : Table KmeId KmeId} {rank : KmeId → Nat}
    (descends : ∀ x p, parent.get? x = some p → x ≠ src → rank p < rank x)
    (parents : ∀ x p, parent.get? x = some p → (parent.get? p).isSome) :
    ∀ (fuel : Nat) (at_ : KmeId) (rest : List KmeId), (at_ :: rest).Pairwise (fun a b => rank a < rank b) →
      (∀ x ∈ at_ :: rest, (parent.get? x).isSome) → parent.size < fuel + (at_ :: rest).length →
      (trace src parent fuel at_ (at_ :: rest)).head? = some src ∧
        (trace src parent fuel at_ (at_ :: rest)).Pairwise (fun a b => rank a < rank b) ∧
        ∀ x ∈ trace src parent fuel at_ (at_ :: rest), (parent.get? x).isSome := by
  intro fuel
  induction fuel with
  | zero =>
    intro at_ rest ascends reached longer
    -- a chain of distinct reached nodes is no longer than the table
    have distinct : (at_ :: rest).Nodup := ascends.imp fun below same => ne_of_lt below (congrArg rank same)
    have within : at_ :: rest ⊆ parent.keys := fun x member => Table.mem_keys.mpr (reached x member)
    have bounded := (distinct.subperm within).length_le
    simp only [Table.keys, List.length_map] at bounded
    simp only [Table.size] at longer
    omega
  | succ fuel ih =>
    intro at_ rest ascends reached longer
    unfold trace
    split
    · rename_i here
      exact ⟨by rw [here]; rfl, ascends, reached⟩
    · rename_i other
      obtain ⟨prev, found⟩ := Option.isSome_iff_exists.mp (reached at_ List.mem_cons_self)
      rw [found]
      apply ih prev (at_ :: rest)
      · refine List.pairwise_cons.mpr ⟨fun b later => ?_, ascends⟩
        have lower := descends at_ prev found other
        rcases List.mem_cons.mp later with rfl | further
        · exact lower
        · exact lt_trans lower (List.rel_of_pairwise_cons ascends further)
      · intro x member
        rcases List.mem_cons.mp member with rfl | older
        · exact parents at_ x found
        · exact reached x older
      · simp only [List.length_cons] at longer ⊢
        omega

/-- A property of every path the table holds follows from the same property of each path traced
from a node of the adjacency to a node its search reached. -/
theorem allPairs_of_traced (g : Graph R) (P : KmeId × KmeId → List KmeId → Prop)
    (traced : ∀ src ∈ g.adjacency.keys, ∀ dst ∈ (g.search (g.adjacency.size + 1) [src] (Table.empty.insert src src)).keys,
      P (src, dst) (trace src (g.search (g.adjacency.size + 1) [src] (Table.empty.insert src src))
        ((g.search (g.adjacency.size + 1) [src] (Table.empty.insert src src)).size + 1) dst [dst]))
    {ends : KmeId × KmeId} {path : List KmeId} (found : g.allPairs.get? ends = some path) : P ends path := by
  -- both folds insert only traced paths
  let Holds := fun (table : Table (KmeId × KmeId) (List KmeId)) => ∀ ends path, table.get? ends = some path → P ends path
  have insert_holds : ∀ table key path, Holds table → P key path → Holds (table.insert key path) := by
    intro table key path holds fresh ends' path' found'
    rw [Table.get?_insert] at found'
    split at found'
    · rename_i same
      cases found'
      exact same ▸ fresh
    · exact holds ends' path' found'
  have inner : ∀ src ∈ g.adjacency.keys, ∀ (dsts : List KmeId),
      dsts ⊆ (g.search (g.adjacency.size + 1) [src] (Table.empty.insert src src)).keys → ∀ table, Holds table →
      Holds (dsts.foldl (fun table dst => table.insert (src, dst)
        (trace src (g.search (g.adjacency.size + 1) [src] (Table.empty.insert src src))
          ((g.search (g.adjacency.size + 1) [src] (Table.empty.insert src src)).size + 1) dst [dst])) table) := by
    intro src start dsts
    induction dsts with
    | nil => exact fun _ _ holds => holds
    | cons dst rest ih =>
      intro within table holds
      exact ih (fun x member => within (List.mem_cons_of_mem _ member)) _
        (insert_holds _ _ _ holds (traced src start dst (within List.mem_cons_self)))
  have outer : ∀ (starts : List KmeId), starts ⊆ g.adjacency.keys → ∀ table, Holds table →
      Holds (starts.foldl (fun table src =>
        let parent := g.search (g.adjacency.size + 1) [src] (Table.empty.insert src src)
        parent.keys.foldl (fun table dst =>
          table.insert (src, dst) (trace src parent (parent.size + 1) dst [dst])) table) table) := by
    intro starts
    induction starts with
    | nil => exact fun _ _ holds => holds
    | cons src rest ih =>
      intro within table holds
      exact ih (fun x member => within (List.mem_cons_of_mem _ member)) _
        (inner src (within List.mem_cons_self) _ (fun _ member => member) table holds)
  exact outer _ (fun x member => List.mem_mergeSort.mp member) {} (fun _ _ absent => by cases absent) ends path found

/-- Over a graph whose adjacency names only `known` nodes, every path of the table visits each
node once, starts at its first end and meets only known nodes. -/
theorem allPairs_routed (g : Graph R) {known : KmeId → Prop}
    (adjacent : ∀ k ns, g.adjacency.get? k = some ns → known k ∧ ∀ x ∈ ns, known x)
    {ends : KmeId × KmeId} {path : List KmeId} (found : g.allPairs.get? ends = some path) :
    path.Nodup ∧ path.head? = some ends.1 ∧ ∀ x ∈ path, known x := by
  refine allPairs_of_traced g (fun ends path => path.Nodup ∧ path.head? = some ends.1 ∧ ∀ x ∈ path, known x)
    (fun src start dst reached => ?_) found
  have near : ∀ node, ∀ x ∈ g.neighbours node, known x := by
    intro node x member
    cases listed : g.adjacency.get? node with
    | none => simp [neighbours, listed, sortedBy] at member
    | some ns =>
      simp only [neighbours, listed, Option.getD_some, sortedBy] at member
      exact (adjacent node ns listed).2 x (List.mem_mergeSort.mp member)
  have origin : known src := by
    obtain ⟨ns, listed⟩ := Option.isSome_iff_exists.mp (Table.mem_keys.mp start)
    exact (adjacent src ns listed).1
  have searching := Searching.search g (g.adjacency.size + 1) (searching_start src)
  have first : Explored known (Table.empty.insert src src) [src] := by
    refine ⟨Table.keysNodup_insert Table.keysNodup_empty src src, fun x reached => ?_, by simpa using origin⟩
    simp only [Table.get?_insert, Table.get?_empty] at reached
    split at reached
    · rename_i same
      exact same ▸ origin
    · cases reached
  have explored := Explored.search g near (g.adjacency.size + 1) first
  obtain ⟨rank, descends⟩ := searching.ranked
  obtain ⟨head, ascends, within⟩ := trace_reaches descends searching.parents
    ((g.search (g.adjacency.size + 1) [src] (Table.empty.insert src src)).size + 1) dst []
    (List.pairwise_singleton _ _) (by simpa using Table.mem_keys.mp reached) (by simp)
  exact ⟨ascends.imp fun below same => ne_of_lt below (congrArg rank same), head,
    fun x member => explored.reached x (within x member)⟩

end Graph

/-- Distinct nodes never share an edge key, up to the order of the ends. -/
theorem edgeKey_eq {a b c d : KmeId} (same : edgeKey a b = edgeKey c d) :
    (a = c ∧ b = d) ∨ (a = d ∧ b = c) := by
  unfold edgeKey at same
  split at same <;> split at same <;> simp only [Prod.mk.injEq] at same <;> grind

/-- The consecutive pairs of a simple path are distinct edges. -/
theorem edgeKeys_nodup : ∀ {path : List KmeId}, path.Nodup →
    ((path.zip path.tail).map fun p => edgeKey p.1 p.2).Nodup
  | [], _ => List.nodup_nil
  | [_], _ => by simp
  | a :: b :: rest, simple => by
    have tail := edgeKeys_nodup (List.nodup_cons.mp simple).2
    simp only [List.tail_cons, List.zip_cons_cons, List.map_cons, List.nodup_cons] at tail ⊢
    refine ⟨fun shared => ?_, tail⟩
    obtain ⟨p, inside, same⟩ := List.mem_map.mp shared
    have ends := List.of_mem_zip inside
    have fresh := (List.nodup_cons.mp simple).1
    rcases edgeKey_eq same with ⟨first, _⟩ | ⟨_, second⟩
    · exact fresh (first ▸ ends.1)
    · exact fresh (second ▸ List.mem_cons_of_mem b ends.2)

end KeyRelay
