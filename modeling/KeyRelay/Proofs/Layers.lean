import KeyRelay.Proofs.Paths

/-!
Breadth-first distances. Over a graph whose adjacency lists are exactly its edges, the search
from a node reaches exactly the nodes that a chain of edges leads to, and the path traced back
from each along the parent links is a shortest such chain.

The search keeps its queue in layers (`Layered`): each parent link climbs one level along an
edge, the levels along the queue never fall and stay within one of the level at its head, and
every node that has left the queue has all its neighbours reached at most one level further.
Each node joins the queue once, so one round per node of the adjacency empties it; then every
reached node is closed that way and no chain of edges is shorter than the level of its end.
-/
namespace KeyRelay

/-- The key of an edge does not depend on the order of its ends. -/
theorem edgeKey_comm (a b : KmeId) : edgeKey a b = edgeKey b a := by
  unfold edgeKey
  by_cases ab : a.val ≤ b.val <;> by_cases ba : b.val ≤ a.val
  · have same : a = b := by
      obtain ⟨a⟩ := a
      obtain ⟨b⟩ := b
      dsimp only at ab ba
      simp only [Ident.mk.injEq]
      omega
    subst same
    rfl
  · simp [ab, ba]
  · simp [ab, ba]
  · omega

namespace Graph

variable {R : Type}

theorem edge_comm (g : Graph R) (a b : KmeId) : g.edge a b = g.edge b a := by
  unfold edge
  rw [edgeKey_comm]

/-- The adjacency lists of `g` are its edges: the list of each node holds exactly the nodes it
shares an edge with, each node has one list, and the nodes with a list are the registered ones. -/
structure Shaped (g : Graph R) : Prop where
  keyed : g.adjacency.KeysNodup
  registered : ∀ k, (g.adjacency.get? k).isSome ↔ (g.nodes.get? k).isSome
  adjacent : ∀ a b, b ∈ (g.adjacency.get? a).getD [] ↔ (g.edge a b).isSome

/-- `d` is `n` edges away from `s` along some chain of edges of `g`. -/
inductive Hops (g : Graph R) (s : KmeId) : KmeId → Nat → Prop
  | refl : Hops g s s 0
  | step {a b : KmeId} {n : Nat} : Hops g s a n → (g.edge a b).isSome → Hops g s b (n + 1)

section Shaped

variable {g : Graph R}

theorem Shaped.mem_neighbours (shaped : g.Shaped) {a b : KmeId} :
    b ∈ g.neighbours a ↔ (g.edge a b).isSome := by
  simp only [neighbours, sortedBy, List.mem_mergeSort]
  exact shaped.adjacent a b

/-- Both ends of an edge have a list. -/
theorem Shaped.filed (shaped : g.Shaped) {a b : KmeId} (linked : (g.edge a b).isSome) :
    b ∈ g.adjacency.keys := by
  have back : a ∈ (g.adjacency.get? b).getD [] := (shaped.adjacent b a).mpr (by rwa [edge_comm])
  rw [Table.mem_keys]
  cases found : g.adjacency.get? b with
  | none => simp [found] at back
  | some ns => rfl

end Shaped

/-! ### The layers of the search -/

/-- The nodes of the adjacency that a parent table has not reached. -/
def unreached (g : Graph R) (parent : Table KmeId KmeId) : Nat :=
  g.adjacency.keys.countP fun k => (parent.get? k).isNone

theorem unreached_le (g : Graph R) (parent : Table KmeId KmeId) : g.unreached parent ≤ g.adjacency.size :=
  List.countP_le_length.trans (by simp [Table.keys, Table.size])

/-- Two tests that differ only at `y`, once in the list, passed there by the first only. -/
private theorem countP_drop_one {l : List KmeId} (distinct : l.Nodup) {y : KmeId} (member : y ∈ l)
    {p q : KmeId → Bool} (same : ∀ k, k ≠ y → q k = p k) (was : p y = true) (now : q y = false) :
    l.countP q + 1 = l.countP p := by
  induction l with
  | nil => cases member
  | cons a rest ih =>
    rw [List.nodup_cons] at distinct
    rw [List.countP_cons, List.countP_cons]
    by_cases here : a = y
    · subst here
      have others : rest.countP q = rest.countP p :=
        List.countP_congr fun k inside => by
          rw [same k fun e => distinct.1 (e ▸ inside)]
      simp [was, now, others]
    · have later : y ∈ rest := (List.mem_cons.mp member).resolve_left (Ne.symm here)
      have step := ih distinct.2 later
      rw [same a here]
      omega

/-- Reaching a node of the adjacency leaves one node fewer to reach. -/
theorem unreached_insert {g : Graph R} (shaped : g.Shaped) {parent : Table KmeId KmeId} {y : KmeId}
    (filed : y ∈ g.adjacency.keys) (absent : parent.get? y = none) (v : KmeId) :
    g.unreached (parent.insert y v) + 1 = g.unreached parent := by
  refine countP_drop_one shaped.keyed filed (fun k other => ?_) (by simp [absent]) (by simp)
  simp [Table.get?_insert, Ne.symm other]

/-- The search's layers, `level` counting the parent links from each reached node back to `src`. -/
structure Layered (g : Graph R) (src : KmeId) (parent : Table KmeId KmeId) (queue : List KmeId)
    (level : KmeId → Nat) : Prop where
  root : parent.get? src = some src
  base : level src = 0
  tree : ∀ x p, parent.get? x = some p → x ≠ src →
    (parent.get? p).isSome ∧ level x = level p + 1 ∧ (g.edge p x).isSome
  bounded : ∀ x, (parent.get? x).isSome → level x < parent.size
  queued : ∀ x ∈ queue, (parent.get? x).isSome
  distinct : queue.Nodup
  rising : queue.Pairwise fun a b => level a ≤ level b
  narrow : ∀ h ∈ queue.head?, ∀ x, (parent.get? x).isSome → level x ≤ level h + 1
  closed : ∀ x, (parent.get? x).isSome → x ∉ queue → ∀ y, (g.edge x y).isSome →
    (parent.get? y).isSome ∧ level y ≤ level x + 1

theorem layered_start (g : Graph R) (src : KmeId) :
    Layered g src (Table.empty.insert src src) [src] fun _ => 0 := by
  have only : ∀ x, ((Table.empty.insert src src).get? x).isSome → x = src := by
    intro x reached
    by_cases same : src = x
    · exact same.symm
    · simp [Table.get?_insert, same] at reached
  refine ⟨by simp, rfl, fun x p found other => ?_, fun x _ => ?_, fun x queued => ?_,
    List.nodup_singleton _, List.pairwise_singleton _ _, fun _ _ _ _ => Nat.zero_le _,
    fun x reached waiting => ?_⟩
  · exact absurd (only x (by simp [found])) other
  · simp [Table.size_insert_of_absent (Table.get?_empty src)]
  · simp [List.mem_singleton.mp queued]
  · exact absurd (List.mem_singleton.mpr (only x reached)) waiting

variable {g : Graph R} {src node : KmeId} {parent : Table KmeId KmeId} {queue : List KmeId}
  {level : KmeId → Nat}

/-- Reaching a neighbour `y` of the node at the head: it joins the back of the queue one level
above the head. -/
theorem Layered.reach (layered : Layered g src parent (node :: queue) level) {y : KmeId}
    (absent : parent.get? y = none) (linked : (g.edge node y).isSome) :
    Layered g src (parent.insert y node) (node :: (queue ++ [y]))
      fun z => if z = y then level node + 1 else level z := by
  have fresh : ∀ x, (parent.get? x).isSome → x ≠ y := by
    rintro x reached rfl
    simp [absent] at reached
  have fresh' : ∀ x, (parent.get? x).isSome → y ≠ x := fun x reached => Ne.symm (fresh x reached)
  have head : (parent.get? node).isSome := layered.queued node List.mem_cons_self
  have head_level : level node < parent.size := layered.bounded node head
  have grown : (parent.insert y node).size = parent.size + 1 := Table.size_insert_of_absent absent node
  have before : ∀ x, ((parent.insert y node).get? x).isSome → x ≠ y → (parent.get? x).isSome := by
    intro x reached other
    simpa [Table.get?_insert, Ne.symm other] using reached
  have waiting : y ∉ node :: queue := fun inside => fresh y (layered.queued y inside) rfl
  refine ⟨?_, ?_, fun x p found other => ?_, fun x reached => ?_, fun x inside => ?_, ?_, ?_, ?_, ?_⟩
  · simp [Table.get?_insert, Ne.symm (fresh src (by simp [layered.root])), layered.root]
  · simp [fresh src (by simp [layered.root]), layered.base]
  · rw [Table.get?_insert] at found
    split at found
    · -- the new parent link, from the head of the queue
      rename_i added
      subst added
      cases found
      simp [fresh node head, fresh' node head, head, linked]
    · rename_i old
      obtain ⟨known, climb, edge⟩ := layered.tree x p found other
      simp [Ne.symm old, fresh p known, fresh' p known, known, climb, edge]
  · rw [grown]
    by_cases new : x = y
    · simp [new]
      omega
    · have := layered.bounded x (before x reached new)
      simp [new]
      omega
  · rw [← List.cons_append] at inside
    rcases List.mem_append.mp inside with old | added
    · exact reached_insert (layered.queued x old) y node
    · simp [List.mem_singleton.mp added]
  · rw [← List.cons_append]
    exact List.nodup_append.mpr ⟨layered.distinct, List.nodup_singleton y,
      fun a inside b added same => waiting (by rw [List.mem_singleton.mp added] at same; exact same ▸ inside)⟩
  · -- the queue had levels within one of the head's; the new node sits one above it
    rw [← List.cons_append]
    refine List.pairwise_append.mpr ⟨layered.rising.imp_of_mem fun {a b} a_in b_in below => ?_, by simp,
      fun a inside b added => ?_⟩
    · simp [fresh a (layered.queued a a_in), fresh b (layered.queued b b_in), below]
    · rw [List.mem_singleton.mp added]
      simp [fresh a (layered.queued a inside), layered.narrow node rfl a (layered.queued a inside)]
  · intro h first x reached
    have same : node = h := by simpa using first
    subst same
    by_cases new : x = y
    · simp [new, fresh node head]
    · simp [new, fresh node head, layered.narrow node rfl x (before x reached new)]
  · intro x reached outside z linked'
    have other : x ≠ y := fun same => outside (by simp [same])
    have old : x ∉ node :: queue := fun inside => outside (by rw [← List.cons_append]; exact List.mem_append_left _ inside)
    obtain ⟨near, close⟩ := layered.closed x (before x reached other) old z linked'
    exact ⟨reached_insert near y node, by simp [other, fresh z near, close]⟩

/-- Once every neighbour of the head is reached, the head leaves the queue closed. -/
theorem Layered.pop (layered : Layered g src parent (node :: queue) level)
    (done : ∀ y, (g.edge node y).isSome → (parent.get? y).isSome) : Layered g src parent queue level := by
  obtain ⟨below, rising⟩ := List.pairwise_cons.mp layered.rising
  refine ⟨layered.root, layered.base, layered.tree, layered.bounded,
    fun x inside => layered.queued x (List.mem_cons_of_mem _ inside), (List.nodup_cons.mp layered.distinct).2,
    rising, fun h first x reached => ?_, fun x reached outside y linked => ?_⟩
  · have next : h ∈ queue := List.mem_of_mem_head? first
    have := below h next
    have := layered.narrow node rfl x reached
    omega
  · by_cases head : x = node
    · subst head
      exact ⟨done y linked, layered.narrow x rfl y (done y linked)⟩
    · exact layered.closed x reached (by simp [head, outside]) y linked

/-- One round of the search: the neighbours of `node` not reached yet join the table and the back
of the queue. -/
def expand (node : KmeId) (ns : List KmeId) (pq : Table KmeId KmeId × List KmeId) :
    Table KmeId KmeId × List KmeId :=
  ns.foldl (fun pq next => if pq.1.contains next then pq else (pq.1.insert next node, pq.2 ++ [next])) pq

theorem search_succ (g : Graph R) (fuel : Nat) (node : KmeId) (queue : List KmeId) (parent : Table KmeId KmeId) :
    g.search (fuel + 1) (node :: queue) parent =
      g.search fuel (expand node (g.neighbours node) (parent, queue)).2 (expand node (g.neighbours node) (parent, queue)).1 :=
  rfl

/-- A round keeps the layers, reaches every neighbour, and moves as many nodes onto the queue
as it reaches. -/
theorem Layered.visit (shaped : g.Shaped) :
    ∀ (ns : List KmeId), (∀ y ∈ ns, (g.edge node y).isSome) →
      ∀ {parent : Table KmeId KmeId} {queue : List KmeId} {level : KmeId → Nat},
        Layered g src parent (node :: queue) level →
        ∃ level', Layered g src (expand node ns (parent, queue)).1 (node :: (expand node ns (parent, queue)).2) level' ∧
          (expand node ns (parent, queue)).2.length + g.unreached (expand node ns (parent, queue)).1 =
            queue.length + g.unreached parent ∧
          ∀ y, (parent.get? y).isSome ∨ y ∈ ns → ((expand node ns (parent, queue)).1.get? y).isSome
  | [], _, _, _, level, layered =>
    ⟨level, layered, rfl, fun _ reached => reached.resolve_right List.not_mem_nil⟩
  | y :: rest, near, parent, queue, level, layered => by
    have later : ∀ z ∈ rest, (g.edge node z).isSome := fun z inside => near z (List.mem_cons_of_mem _ inside)
    by_cases known : parent.contains y
    · have first : expand node (y :: rest) (parent, queue) = expand node rest (parent, queue) := by
        simp [expand, known]
      obtain ⟨level', layered', count, reached⟩ := Layered.visit shaped rest later layered
      rw [first]
      refine ⟨level', layered', count, fun z held => reached z ?_⟩
      rcases held with old | inside
      · exact .inl old
      · rcases List.mem_cons.mp inside with rfl | further
        · exact .inl (by rwa [← Table.contains_eq_isSome])
        · exact .inr further
    · have absent := Table.get?_eq_none_of_contains parent y (by simpa using known)
      have first : expand node (y :: rest) (parent, queue) =
          expand node rest (parent.insert y node, queue ++ [y]) := by
        simp [expand, known]
      have linked := near y List.mem_cons_self
      obtain ⟨level', layered', count, reached⟩ :=
        Layered.visit shaped rest later (layered.reach absent linked)
      have dropped := unreached_insert shaped (shaped.filed linked) absent node
      rw [first]
      refine ⟨level', layered', by simp only [count, List.length_append, List.length_singleton]; omega,
        fun z held => reached z ?_⟩
      rcases held with old | inside
      · exact .inl (reached_insert old y node)
      · rcases List.mem_cons.mp inside with rfl | further
        · exact .inl (by simp)
        · exact .inr further

/-- A search with a round for every node still to reach and every node queued empties its
queue, with the layers kept. -/
theorem Layered.search (shaped : g.Shaped) :
    ∀ (fuel : Nat) {queue : List KmeId} {parent : Table KmeId KmeId} {level : KmeId → Nat},
      Layered g src parent queue level → queue.length + g.unreached parent ≤ fuel →
      ∃ level', Layered g src (g.search fuel queue parent) [] level' := by
  intro fuel
  induction fuel with
  | zero =>
    intro queue parent level layered within
    obtain rfl : queue = [] := List.eq_nil_of_length_eq_zero (by omega)
    exact ⟨level, layered⟩
  | succ fuel ih =>
    intro queue parent level layered within
    cases queue with
    | nil => exact ⟨level, layered⟩
    | cons node queue =>
      have near : ∀ y ∈ g.neighbours node, (g.edge node y).isSome := fun y inside => shaped.mem_neighbours.mp inside
      obtain ⟨level', visited, count, reached⟩ := Layered.visit shaped (g.neighbours node) near layered
      have popped := visited.pop fun y linked => reached y (.inr (shaped.mem_neighbours.mpr linked))
      rw [search_succ]
      refine ih popped ?_
      simp only [List.length_cons] at within
      omega

/-- The search from a node, as the path table runs it. -/
def searchFrom (g : Graph R) (src : KmeId) : Table KmeId KmeId :=
  g.search (g.adjacency.size + 1) [src] (Table.empty.insert src src)

theorem searchFrom_layered (shaped : g.Shaped) (src : KmeId) : ∃ level, Layered g src (g.searchFrom src) [] level := by
  refine (layered_start g src).search shaped _ ?_
  have := unreached_le g (Table.empty.insert src src)
  simp only [List.length_singleton]
  omega

/-! ### Levels are distances -/

/-- With the queue empty, a chain of `n` edges from the start ends at a reached node of level at
most `n`. -/
theorem Layered.settled (layered : Layered g src parent [] level) {x : KmeId} {n : Nat}
    (hops : g.Hops src x n) : (parent.get? x).isSome ∧ level x ≤ n := by
  induction hops with
  | refl => exact ⟨by simp [layered.root], by simp [layered.base]⟩
  | step _ linked ih =>
    obtain ⟨reached, near⟩ := ih
    obtain ⟨next, close⟩ := layered.closed _ reached List.not_mem_nil _ linked
    exact ⟨next, by omega⟩

/-- The parent links of a reached node give a chain of edges as long as its level. -/
theorem Layered.hops (layered : Layered g src parent queue level) :
    ∀ (n : Nat) {x : KmeId}, (parent.get? x).isSome → level x = n → g.Hops src x n := by
  intro n
  induction n with
  | zero =>
    intro x reached flat
    by_cases home : x = src
    · subst home
      exact .refl
    · obtain ⟨p, found⟩ := Option.isSome_iff_exists.mp reached
      have := (layered.tree x p found home).2.1
      omega
  | succ n ih =>
    intro x reached up
    have home : x ≠ src := fun same => by
      rw [same, layered.base] at up
      omega
    obtain ⟨p, found⟩ := Option.isSome_iff_exists.mp reached
    obtain ⟨known, climb, linked⟩ := layered.tree x p found home
    exact .step (ih known (by omega)) linked

/-- Tracing back from a reached node, with fuel beyond its level, prepends the chain of its
ancestors: it starts at `src`, follows edges, and has one node per level below. -/
theorem Layered.trace_chain (layered : Layered g src parent queue level) :
    ∀ (fuel : Nat) (x : KmeId) (acc : List KmeId), (parent.get? x).isSome → level x < fuel →
      ∃ p, trace src parent fuel x (x :: acc) = p ++ x :: acc ∧ (p ++ [x]).head? = some src ∧
        (p ++ [x]).IsChain (fun a b => (g.edge a b).isSome) ∧ p.length = level x := by
  intro fuel
  induction fuel with
  | zero => intro x acc _ below; omega
  | succ fuel ih =>
    intro x acc reached below
    by_cases home : x = src
    · subst home
      refine ⟨[], ?_, rfl, List.isChain_singleton _, by simp [layered.base]⟩
      simp [trace]
    · obtain ⟨prev, found⟩ := Option.isSome_iff_exists.mp reached
      obtain ⟨known, climb, linked⟩ := layered.tree x prev found home
      obtain ⟨p, traced, first, chain, length⟩ := ih prev (x :: acc) known (by omega)
      refine ⟨p ++ [prev], ?_, ?_, ?_, by simp [length, climb]⟩
      · -- one step back along the parent link
        rw [trace, if_neg home, found]
        simpa using traced
      · simpa using first
      · refine chain.append (List.isChain_singleton _) fun a last b single => ?_
        simp only [List.getLast?_append, List.getLast?_singleton, Option.some_or, Option.mem_def,
          Option.some.injEq] at last
        simp only [List.head?_cons, Option.mem_def, Option.some.injEq] at single
        subst last single
        exact linked

/-! ### The path table -/

/-- The table holds a path for `(s, d)` only when `s` has a list and its search reached `d`: the
path traced back from `d`. -/
theorem allPairs_found {s d : KmeId} {path : List KmeId} (found : g.allPairs.get? (s, d) = some path) :
    s ∈ g.adjacency.keys ∧ ((g.searchFrom s).get? d).isSome ∧
      path = trace s (g.searchFrom s) ((g.searchFrom s).size + 1) d [d] :=
  allPairs_of_traced g (fun ends path => ends.1 ∈ g.adjacency.keys ∧ ((g.searchFrom ends.1).get? ends.2).isSome ∧
      path = trace ends.1 (g.searchFrom ends.1) ((g.searchFrom ends.1).size + 1) ends.2 [ends.2])
    (fun _ start _ reached => ⟨start, Table.mem_keys.mp reached, rfl⟩) found

/-- Inserting under keys drawn from a list keeps every key present and adds those drawn. -/
private theorem foldl_insert_isSome {β : Type} (key : β → KmeId × KmeId) (val : β → List KmeId) :
    ∀ (l : List β) (t : Table (KmeId × KmeId) (List KmeId)) (k : KmeId × KmeId),
      ((t.get? k).isSome ∨ ∃ b ∈ l, key b = k) →
      ((l.foldl (fun t b => t.insert (key b) (val b)) t).get? k).isSome
  | [], _, _, held => held.resolve_right (by simp)
  | b :: rest, t, k, held => by
    rw [List.foldl_cons]
    refine foldl_insert_isSome key val rest _ k ?_
    rcases held with old | ⟨c, inside, same⟩
    · exact .inl (Table.isSome_get?_insert old _ _)
    · rcases List.mem_cons.mp inside with rfl | later
      · exact .inl (by simp [same])
      · exact .inr ⟨c, later, same⟩

/-- The table holds a path from every node with a list to every node its search reached. -/
theorem allPairs_complete {s d : KmeId} (start : s ∈ g.adjacency.keys) (reached : ((g.searchFrom s).get? d).isSome) :
    (g.allPairs.get? (s, d)).isSome := by
  -- each start adds its pairs and keeps those of the starts before it
  have outer : ∀ (starts : List KmeId) (table : Table (KmeId × KmeId) (List KmeId)),
      ((table.get? (s, d)).isSome ∨ s ∈ starts) →
      ((starts.foldl (fun table src =>
        let parent := g.search (g.adjacency.size + 1) [src] (Table.empty.insert src src)
        parent.keys.foldl (fun table dst =>
          table.insert (src, dst) (trace src parent (parent.size + 1) dst [dst])) table) table).get? (s, d)).isSome := by
    intro starts
    induction starts with
    | nil => exact fun _ held => held.resolve_right List.not_mem_nil
    | cons src rest ih =>
      intro table held
      rw [List.foldl_cons]
      refine ih _ ?_
      by_cases here : src = s
      · subst here
        exact .inl (foldl_insert_isSome _ _ _ table _ (.inr ⟨d, Table.mem_keys.mpr reached, rfl⟩))
      · rcases held with old | inside
        · exact .inl (foldl_insert_isSome _ _ _ table _ (.inl old))
        · exact .inr ((List.mem_cons.mp inside).resolve_left (Ne.symm here))
  exact outer _ {} (.inr (List.mem_mergeSort.mpr start))

/-- From a registered node the table has a path to exactly the nodes a chain of edges leads to. -/
theorem allPairs_defined (shaped : g.Shaped) {s : KmeId} (filed : (g.adjacency.get? s).isSome) (d : KmeId) :
    (g.allPairs.get? (s, d)).isSome ↔ ∃ n, g.Hops s d n := by
  obtain ⟨level, layered⟩ := searchFrom_layered shaped s
  constructor
  · intro defined
    obtain ⟨path, found⟩ := Option.isSome_iff_exists.mp defined
    obtain ⟨-, reached, -⟩ := allPairs_found found
    exact ⟨level d, layered.hops _ reached rfl⟩
  · rintro ⟨n, hops⟩
    exact allPairs_complete (Table.mem_keys.mpr filed) (layered.settled hops).1

/-- Every path of the table starts and ends at its two nodes, follows edges, and is a shortest
chain of edges between them. -/
theorem allPairs_shortest (shaped : g.Shaped) {s d : KmeId} {path : List KmeId}
    (found : g.allPairs.get? (s, d) = some path) :
    path.head? = some s ∧ path.getLast? = some d ∧ path.IsChain (fun a b => (g.edge a b).isSome) ∧
      g.Hops s d (path.length - 1) ∧ ∀ n, g.Hops s d n → path.length ≤ n + 1 := by
  obtain ⟨-, reached, rfl⟩ := allPairs_found found
  obtain ⟨level, layered⟩ := searchFrom_layered shaped s
  have within := layered.bounded d reached
  obtain ⟨p, traced, first, chain, length⟩ :=
    layered.trace_chain ((g.searchFrom s).size + 1) d [] reached (by omega)
  rw [traced]
  refine ⟨first, by simp, chain, ?_, fun n hops => ?_⟩
  · simpa [length] using layered.hops (level d) reached rfl
  · have shortest := (layered.settled hops).2
    simp only [List.length_append, List.length_singleton, length]
    omega

end Graph

end KeyRelay
