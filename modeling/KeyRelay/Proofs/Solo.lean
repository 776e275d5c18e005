import KeyRelay.Proofs.Link

/-! One node over a whole run of requests. The node starts blank, and a block id comes back only
while its block is still held. Then every span the node cuts shares no byte with a span it cut
before, nor with a span its companion acknowledged on a block the node held. -/

namespace KeyRelay

/-- A span a node has learnt of: one it cut itself (`carved`), or one its companion consumed. -/
structure Learnt where
  span : Span
  carved : Bool

namespace KmeRequest

def delivers : KmeRequest → List BlockId
  | .deliverBlock _ X _ _ => [X]
  | _ => []

end KmeRequest

namespace Kme

/-- A request delivers a block id seen before only while its block is held. -/
def Fresh (k : Kme) (delivered : List BlockId) : KmeRequest → Prop
  | .deliverBlock _ X _ _ => X ∈ delivered → k.bare X ≠ none
  | _ => True

/-- The spans a handled request makes the node learn of: what the companion consumed on blocks
the node holds, when the node followed it, and what the node cut for its companion to follow. -/
def learnt (k : Kme) (out : Option Plan) : KmeRequest → List Learnt
  | .syncKeys _ _ consumed =>
    if out.isSome then (consumed.filter fun s => (k.bare s.block).isSome).map (⟨·, false⟩) else []
  | _ => ((syncsOf out).flatMap Sync.consumed).map (⟨·, true⟩)

/-- The runs of a node that starts blank: each request it handles to an end, without stopping
the program, extends the ids delivered to it and the spans it learnt of. -/
inductive Serves : Kme → List BlockId → List Learnt → Prop
  | blank {k : Kme} : k.Blank → Serves k [] []
  | step {k k' : Kme} {delivered : List BlockId} {log : List Learnt} {req : KmeRequest} {e : Env}
      {out : Option Plan} :
      Serves k delivered log → k.Fresh delivered req → respond req e k = some (out, k') →
      Serves k' (delivered ++ req.delivers) (log ++ k.learnt out req)

/-- What every run keeps: the node is sound, holds only blocks delivered to it, and has every
block's cursor past all it learnt of on that block; what it cut shares no byte with anything
learnt before. -/
structure Serving (k : Kme) (delivered : List BlockId) (log : List Learnt) : Prop where
  sound : k.Sound
  held : ∀ X b, k.bare X = some b → X ∈ delivered
  logged : ∀ a ∈ log, a.span.block ∈ delivered
  behind : ∀ a ∈ log, ∀ b, k.bare a.span.block = some b → min a.span.stop b.bytes.length ≤ b.offset
  apart : log.Pairwise fun a c => c.carved = true → a.span.Apart c.span

section Serving

variable {k k' : Kme} {D new : List BlockId} {log : List Learnt}

theorem Serving.blank (blank : k.Blank) : Serving k [] [] where
  sound := blank.sound
  held X b found := by
    rw [blank.bare X] at found
    cases found
  logged _ absurd := by cases absurd
  behind _ absurd := by cases absurd
  apart := List.Pairwise.nil

/-- The step shared by every request: blocks held after were held before, with the same bytes
and their cursors no further back, or are new; the spans learnt are on delivered blocks, behind
their cursors, and those cut are apart from all learnt before. -/
theorem Serving.extend {fresh : List Learnt} (inv : Serving k D log) (sound : k'.Sound)
    (grown : ∀ Y b', k'.bare Y = some b' →
      (∃ b, k.bare Y = some b ∧ b'.bytes = b.bytes ∧ b.offset ≤ b'.offset) ∨ (Y ∉ D ∧ Y ∈ new))
    (logged : ∀ a ∈ fresh, a.span.block ∈ D)
    (behind : ∀ a ∈ fresh, ∀ b, k'.bare a.span.block = some b → min a.span.stop b.bytes.length ≤ b.offset)
    (apart : ∀ a ∈ log, ∀ c ∈ fresh, c.carved = true → a.span.Apart c.span)
    (among : fresh.Pairwise fun a c => c.carved = true → a.span.Apart c.span) :
    Serving k' (D ++ new) (log ++ fresh) where
  sound := sound
  held X b' found := by
    rcases grown X b' found with ⟨b, was, -⟩ | ⟨-, delivered⟩
    · exact List.mem_append_left _ (inv.held X b was)
    · exact List.mem_append_right _ delivered
  logged a member := by
    rcases List.mem_append.mp member with old | learnt
    · exact List.mem_append_left _ (inv.logged a old)
    · exact List.mem_append_left _ (logged a learnt)
  behind a member b' found := by
    rcases List.mem_append.mp member with old | learnt
    · rcases grown _ b' found with ⟨b, was, bytes, moved⟩ | ⟨absent, -⟩
      · have before := inv.behind a old b was
        rw [bytes]
        omega
      · exact absurd (inv.logged a old) absent
    · exact behind a learnt b' found
  apart := List.pairwise_append.mpr ⟨inv.apart, among, apart⟩

theorem Serving.shrink (inv : Serving k D log) (sound : k'.Sound) (shrinks : Shrinks k.bare k'.bare) :
    Serving k' (D ++ new) (log ++ []) :=
  inv.extend sound (fun Y b found => .inl ⟨b, shrinks Y b found, rfl, Nat.le_refl _⟩)
    (fun _ absurd => by cases absurd) (fun _ absurd => by cases absurd)
    (fun _ _ _ absurd => by cases absurd) List.Pairwise.nil

/-- Following what the companion consumed moves each cursor to the furthest span acknowledged on
its block. -/
theorem Serving.acked {consumed : List Span} (inv : Serving k D log) (sound : k'.Sound)
    (acked : k'.bare = fun X => (k.bare X).map fun b => { b with offset := ackReach consumed X b.bytes.length b.offset }) :
    Serving k' (D ++ new) (log ++ (consumed.filter fun s => (k.bare s.block).isSome).map (⟨·, false⟩)) := by
  have followed : ∀ Y b', k'.bare Y = some b' →
      ∃ b, k.bare Y = some b ∧ b' = { b with offset := ackReach consumed Y b.bytes.length b.offset } := by
    intro Y b' found
    rw [acked] at found
    obtain ⟨b, was, rfl⟩ := Option.map_eq_some_iff.mp found
    exact ⟨b, was, rfl⟩
  refine inv.extend sound ?grown ?logged ?behind ?apart ?among
  case grown =>
    intro Y b' found
    obtain ⟨b, was, rfl⟩ := followed Y b' found
    exact .inl ⟨b, was, rfl, le_ackReach _ _ _ _⟩
  case logged =>
    intro a member
    obtain ⟨s, kept, rfl⟩ := List.mem_map.mp member
    obtain ⟨b, was⟩ := Option.isSome_iff_exists.mp (List.mem_filter.mp kept).2
    exact inv.held _ b was
  case behind =>
    intro a member b' found
    obtain ⟨s, kept, rfl⟩ := List.mem_map.mp member
    obtain ⟨b, _, rfl⟩ := followed _ b' found
    exact min_stop_le_ackReach (List.mem_of_mem_filter kept) _ _
  case apart =>
    intro _ _ c member carved
    obtain ⟨s, _, rfl⟩ := List.mem_map.mp member
    cases carved
  case among =>
    exact List.pairwise_map.mpr (List.pairwise_of_forall fun _ _ carved => by cases carved)

/-- Cutting spans from the blocks held: each new span starts at or past its block's cursor, so
past everything learnt on that block. -/
theorem Serving.cut {ℓ : LinkId} {C : List Span} (inv : Serving k D log) (sound : k'.Sound) (cut : Cut k ℓ C k') :
    Serving k' (D ++ new) (log ++ C.map (⟨·, true⟩)) := by
  refine inv.extend sound ?grown ?logged ?behind ?apart ?among
  case grown =>
    intro Y b' found
    obtain ⟨b, was, rfl⟩ := cut.found found
    exact .inl ⟨b, was, rfl, le_reach _ _ _⟩
  case logged =>
    intro a member
    obtain ⟨c, taken, rfl⟩ := List.mem_map.mp member
    obtain ⟨b, was, -⟩ := cut.span_held taken
    exact inv.held _ b was
  case behind =>
    intro a member b' found
    obtain ⟨c, taken, rfl⟩ := List.mem_map.mp member
    obtain ⟨b, after, reached⟩ := cut.stop_le taken
    rw [found] at after
    cases after
    exact Nat.le_trans (Nat.min_le_left _ _) reached
  case apart =>
    intro a old c' member _
    obtain ⟨c, taken, rfl⟩ := List.mem_map.mp member
    exact cut.apart_of_behind (fun b was _ => inv.behind a old b was) c taken
  case among =>
    refine List.pairwise_map.mpr (cut.pairwise_apart.imp ?_)
    intro a b apart _
    exact apart

theorem Serving.step {req : KmeRequest} {e : Env} {out : Option Plan} (inv : Serving k D log)
    (fresh : k.Fresh D req) (ran : respond req e k = some (out, k')) :
    Serving k' (D ++ req.delivers) (log ++ k.learnt out req) := by
  have effect := respond_effect inv.sound ran
  cases req with
  | deliverBlock ℓ X timestamp bytes =>
    obtain ⟨quiet, delivered⟩ := effect
    simp only [learnt, quiet, List.flatMap_nil, List.map_nil]
    -- the block is new exactly when no block of its id is held, so its id was never delivered
    refine inv.extend delivered.sound ?_ (fun _ absurd => by cases absurd) (fun _ absurd => by cases absurd)
      (fun _ _ _ absurd => by cases absurd) List.Pairwise.nil
    intro Y b found
    rcases delivered.found found with was | ⟨rfl, none, -⟩
    · exact .inl ⟨b, was, rfl, Nat.le_refl _⟩
    · exact .inr ⟨fun seen => fresh seen none, List.mem_singleton_self _⟩
  | syncKeys ℓ rows consumed =>
    obtain ⟨sound, _, ⟨rfl, same⟩ | ⟨p, rfl, -, -, acked⟩⟩ := effect
    · exact inv.shrink sound (same ▸ Shrinks.refl _)
    · simpa only [learnt, Option.isSome_some, if_true] using inv.acked sound acked
  | linkConfirmed ℓ c address =>
    obtain ⟨quiet, linked⟩ := effect
    simp only [learnt, quiet, List.flatMap_nil, List.map_nil]
    exact inv.shrink linked.sound (linked.blocks ▸ Shrinks.refl _)
  | _ =>
    cases out with
    | none => exact inv.shrink (respond_sound inv.sound ran) (effect.2 rfl).blocks
    | some p =>
      rcases effect.1 p rfl with ⟨quiet, shrunk⟩ | ⟨c, ℓ, rows, C, syncs, -, cut⟩
      · simp only [learnt, syncsOf, quiet, List.flatMap_nil, List.map_nil]
        exact inv.shrink (respond_sound inv.sound ran) shrunk.blocks
      · simp only [learnt, syncsOf, syncs, List.flatMap_cons, List.flatMap_nil, List.append_nil]
        exact inv.cut (respond_sound inv.sound ran) cut

end Serving

theorem Serves.serving {k : Kme} {D : List BlockId} {log : List Learnt} (run : Serves k D log) :
    Serving k D log := by
  induction run with
  | blank blank => exact Serving.blank blank
  | step _ fresh ran ih => exact ih.step fresh ran

end Kme

end KeyRelay
