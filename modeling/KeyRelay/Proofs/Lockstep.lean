import KeyRelay.Proofs.Ends

/-! The two ends of a link `L` in step: after each request to one end, the other end follows
every account sent to it, each to a success, before anything else happens. Both ends start
blank and are delivered the blocks of `L` together, never under an id delivered before. Then
the blocks of `L` that both ends hold agree, bytes and cursor. The two ends' cursors move
together: one end cuts spans inside its block, and the other, following them, moves its cursor
to their furthest end. -/

namespace KeyRelay

/-- The blocks of link `L` held on both sides have the same bytes and the same cursor. -/
def Twins (L : LinkId) (v w : BlockId → Option Block) : Prop :=
  ∀ X b b', v X = some b → w X = some b' → b.link = L → b'.link = L → b.bytes = b'.bytes ∧ b.offset = b'.offset

namespace Twins

variable {L : LinkId} {u v w v' w' : BlockId → Option Block}

theorem symm (twins : Twins L v w) : Twins L w v := by
  intro X b b' found found' onL onL'
  obtain ⟨bytes, offset⟩ := twins X b' b found' found onL' onL
  exact ⟨bytes.symm, offset.symm⟩

theorem across {node : End → BlockId → Option Block} {i : End} (twins : Twins L (node i) (node i.other)) :
    ∀ j, Twins L (node j) (node j.other) := by
  intro j
  rcases End.eq_or_eq_other i j with rfl | rfl
  · exact twins
  · rw [End.other_other]
    exact twins.symm

theorem keeps (twins : Twins L v w) (kept : KeepsLink L v v') (kept' : KeepsLink L w w') : Twins L v' w' :=
  fun X b b' found found' onL onL' => twins X b b' (kept X b found onL) (kept' X b' found' onL') onL onL'

/-- One side drops blocks and cuts `C` from `L`, and the other follows `C`: the blocks of `L`
both hold still agree. -/
theorem cut {C : List Span} (twins : Twins L u w) (shrinks : Shrinks u v) (carves : Carves L v C v') :
    Twins L v' fun X => (w X).map fun b => { b with offset := ackReach C X b.bytes.length b.offset } := by
  intro X b b' found found' onL onL'
  rw [carves.get_eq] at found
  obtain ⟨b₀, was, rfl⟩ := Option.map_eq_some_iff.mp found
  obtain ⟨b₁, was', rfl⟩ := Option.map_eq_some_iff.mp found'
  obtain ⟨bytes, offset⟩ := twins X b₀ b₁ (shrinks X b₀ was) was' onL onL'
  -- the spans were cut inside the block, so following them reaches exactly as far as cutting
  have inside : ∀ s ∈ C, s.block = X → s.stop ≤ b₁.bytes.length := by
    intro s taken here
    obtain ⟨b, cutFrom, -, -, -, stop⟩ := carves.span_bounds taken
    rw [here, was] at cutFrom
    cases cutFrom
    rw [← bytes]
    exact stop
  refine ⟨bytes, ?_⟩
  show reach C X b₀.offset = ackReach C X b₁.bytes.length b₁.offset
  rw [ackReach_eq_reach C X _ _ inside, offset]

/-- Both sides are delivered the same block of `L` under an id not delivered before: the block
is new on a side exactly when it is new on the other. -/
theorem deliver {k₁ k₂ k₁' k₂' : Kme} {D : List BlockId} {X : BlockId} {timestamp : Nat} {bytes : List UInt8}
    (twins : Twins L k₁.bare k₂.bare) (held₁ : ∀ Y b, k₁.bare Y = some b → b.link = L → Y ∈ D)
    (held₂ : ∀ Y b, k₂.bare Y = some b → b.link = L → Y ∈ D) (fresh : X ∉ D)
    (delivered₁ : Kme.Delivered k₁ L X timestamp bytes k₁') (delivered₂ : Kme.Delivered k₂ L X timestamp bytes k₂') :
    Twins L k₁'.bare k₂'.bare := by
  intro Y b b' found found' onL onL'
  rcases delivered₁.found found with was | ⟨rfl, -, -, bytes₁, offset₁⟩ <;>
    rcases delivered₂.found found' with was' | ⟨same, -, -, bytes₂, offset₂⟩
  · exact twins Y b b' was was' onL onL'
  · exact absurd (held₁ Y b was onL) (same ▸ fresh)
  · exact absurd (held₂ Y b' was' onL') fresh
  · exact ⟨bytes₁.trans bytes₂.symm, offset₁.trans offset₂.symm⟩

end Twins

/-- What runs in step keep: each node is an end of `L` whose companion is the other, and the
blocks of `L` both hold agree. -/
structure InStep (L : LinkId) (ids : End → KmeId) (node : End → Kme) (D : List BlockId) : Prop where
  ends : ∀ i, (node i).EndOf L (ids i.other) D
  twins : ∀ i, Twins L (node i).bare (node i.other).bare

namespace InStep

variable {L : LinkId} {ids : End → KmeId} {node : End → Kme} {D : List BlockId}

theorem blank (blank : ∀ i, (node i).Blank) : InStep L ids node [] where
  ends i := Kme.EndOf.blank (blank i)
  twins i X b _ found := by
    rw [(blank i).bare X] at found
    cases found

theorem deliver {node' : End → Kme} {X : BlockId} {timestamp : Nat} {bytes : List UInt8} (inv : InStep L ids node D)
    (fresh : X ∉ D) (ran : ∀ i, ∃ e out, Kme.respond (.deliverBlock L X timestamp bytes) e (node i) = some (out, node' i)) :
    InStep L ids node' (D ++ [X]) := by
  have delivered : ∀ i, Kme.Delivered (node i) L X timestamp bytes (node' i) := by
    intro i
    obtain ⟨e, out, ran⟩ := ran i
    exact (Kme.respond_effect (inv.ends i).sound ran).2
  refine ⟨fun i => ?_, fun i => ?_⟩
  · obtain ⟨e, out, ran⟩ := ran i
    exact (inv.ends i).deliver ran
  · exact (inv.twins i).deliver (inv.ends i).held (inv.ends i.other).held fresh (delivered i) (delivered i.other)

theorem request {i : End} {req : KmeRequest} {e : Env} {out : Option Plan} {k k' : Kme} (inv : InStep L ids node D)
    (outside : req.Outside L) (names : req.Names L (ids i.other)) (ran : Kme.respond req e (node i) = some (out, k))
    (follows : (node i.other).Follows ((Kme.syncsOf out).filter (·.target = ids i.other)) k') :
    InStep L ids (Function.update (Function.update node i k) i.other k') D := by
  have here : k.EndOf L (ids i.other) D := (inv.ends i).request outside names ran
  obtain ⟨there, twins⟩ : k'.EndOf L (ids i.other.other) D ∧ Twins L k.bare k'.bare := by
    rcases Kme.outside_effect (inv.ends i).sound outside ran with ⟨kept, quiet⟩ | ⟨c, rows, C, syncs, partner, cut⟩
    · -- nothing cut from `L`: the other end follows accounts of other links only
      obtain ⟨there, kept'⟩ := follows.keeps (inv.ends i.other) fun σ member => quiet σ (List.mem_filter.mp member).1
      exact ⟨there, (inv.twins i).keeps kept kept'⟩
    · -- spans cut from `L`, which the other end, the companion on `L`, follows
      rw [syncs, (inv.ends i).partner c partner] at follows
      simp only [List.filter_cons, decide_true, if_true, List.filter_nil] at follows
      obtain ⟨e', p, followed⟩ := follows.single
      obtain ⟨v, shrinks, carves⟩ := cut.carves
      refine ⟨(inv.ends i.other).follow followed, ?_⟩
      rw [Kme.acked_of_followed (inv.ends i.other).sound followed]
      exact (inv.twins i).cut shrinks carves
  refine ⟨fun j => ?_, Twins.across (i := i) ?_⟩
  · rcases End.eq_or_eq_other i j with rfl | rfl
    · simpa using here
    · simpa using there
  · simpa using twins

end InStep

end KeyRelay
