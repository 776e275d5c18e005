import KeyRelay.Proofs.Handle

/-! One link seen from one of its ends. A node starts on empty records and knows no link. Every
request keeps the node sound and adds a companion to a link only when it confirms that link. A
request that is not the link's own traffic (its blocks, and what the companion consumed on it)
either leaves the link's blocks as they were, less those dropped, or cuts spans from them and
asks the link's companion to follow. -/

namespace KeyRelay

namespace Kme

/-- A node that has kept no records yet: its records are empty and it knows no link. -/
structure Blank (k : Kme) : Prop where
  storage : k.storage = {}
  links : k.links = {}

theorem Blank.sound {k : Kme} (blank : k.Blank) : k.Sound := by
  refine ⟨?_, fun ℓ st member => ?_⟩
  · rw [blank.storage]
    exact ⟨rfl, Store.indexed_default⟩
  · rw [blank.links] at member
    cases member

theorem Blank.bare {k : Kme} (blank : k.Blank) (X : BlockId) : k.bare X = none := by
  unfold Kme.bare
  rw [blank.storage]
  rfl

theorem Blank.partners {k : Kme} (blank : k.Blank) : k.partners = [] := by
  unfold Kme.partners
  rw [blank.links]
  rfl

/-- A node opened over empty records is blank. -/
theorem load_blank {id : KmeId} {config : KmeConfig} {k : Kme} {st : Storage}
    (opened : load id config {} = (.ok k, st)) : k.Blank := by
  have listed : ∀ {α : Type} (operation : String) (f : Store → List α), f {} = [] →
      Storage.read operation f ({} : Storage) = .ok [] {} := by
    intro α operation f empty
    rw [Storage.read_steady rfl, empty]
  have sessions : Storage.listSessions ({} : Storage) = .ok [] {} :=
    listed _ _ (show List.mergeSort [] _ = [] from List.mergeSort_nil)
  have links : Storage.listLinks ({} : Storage) = .ok [] {} :=
    listed _ _ (show List.mergeSort [] _ = [] from List.mergeSort_nil)
  have blocks : Storage.listBlocks ({} : Storage) = .ok [] {} :=
    listed _ _ (show List.mergeSort [] _ = [] from List.mergeSort_nil)
  unfold load at opened
  split at opened
  · cases opened
  · dsimp only [EStateM.outcome] at opened
    unfold Pool.load at opened
    rw [run_bind_ok sessions, run_bind_ok links, bind_assoc, run_bind_ok blocks] at opened
    cases opened
    exact ⟨rfl, rfl⟩

theorem Carved.sound {k k' : Kme} {p : Plan} (sound : k.Sound) (carved : Carved k p k') : k'.Sound := by
  rcases carved with ⟨_, shrunk⟩ | ⟨_, _, _, _, _, _, cut⟩
  · exact ⟨shrunk.steady, fun ℓ st member => sound.keyed ℓ st (shrunk.links ▸ member)⟩
  · exact ⟨cut.steady, fun ℓ st member => sound.keyed ℓ st (cut.links ▸ member)⟩

theorem respond_sound {k : Kme} (sound : k.Sound) {req : KmeRequest} {e : Env} {out : Option Plan} {k' : Kme}
    (ran : respond req e k = some (out, k')) : k'.Sound := by
  have effect := respond_effect sound ran
  cases req with
  | deliverBlock => exact effect.2.sound
  | syncKeys => exact effect.1
  | linkConfirmed => exact effect.2.sound
  | _ =>
    cases out with
    | none => exact ⟨(effect.2 rfl).steady, fun ℓ st member => sound.keyed ℓ st ((effect.2 rfl).links ▸ member)⟩
    | some p => exact (effect.1 p rfl).sound sound

theorem Carved.links {k k' : Kme} {p : Plan} (carved : Carved k p k') : k'.links = k.links := by
  rcases carved with ⟨_, shrunk⟩ | ⟨_, _, _, _, _, _, cut⟩
  · exact shrunk.links
  · exact cut.links

/-- A block held after a delivery was held before, or is the block delivered, new and uncut. -/
theorem Delivered.found {k k' : Kme} {ℓ : LinkId} {X : BlockId} {timestamp : Nat} {bytes : List UInt8}
    (delivered : Delivered k ℓ X timestamp bytes k') {Y : BlockId} {b : Block} (found : k'.bare Y = some b) :
    k.bare Y = some b ∨ (Y = X ∧ k.bare X = none ∧ b.link = ℓ ∧ b.bytes = bytes ∧ b.offset = 0) := by
  rw [delivered.blocks, Store.bare_insertBlock] at found
  split at found
  · rename_i inserted
    obtain ⟨absent, rfl⟩ := inserted
    cases found
    refine .inr ⟨rfl, ?_, rfl, rfl, rfl⟩
    unfold Kme.bare Store.bare
    rw [Table.get?_eq_none_of_contains _ _ absent]
    rfl
  · exact .inl found

/-- A block held after a cut was held before, its cursor moved past the spans cut from it. -/
theorem Cut.found {k k' : Kme} {ℓ : LinkId} {C : List Span} (cut : Cut k ℓ C k') {X : BlockId} {b' : Block}
    (found : k'.bare X = some b') : ∃ b, k.bare X = some b ∧ b' = { b with offset := reach C X b.offset } := by
  obtain ⟨v, shrinks, carves⟩ := cut.carves
  rw [carves.get_eq] at found
  obtain ⟨b, was, rfl⟩ := Option.map_eq_some_iff.mp found
  exact ⟨b, shrinks X b was, rfl⟩

theorem Cut.span_held {k k' : Kme} {ℓ : LinkId} {C : List Span} (cut : Cut k ℓ C k') {c : Span} (taken : c ∈ C) :
    ∃ b, k.bare c.block = some b ∧ b.link = ℓ := by
  obtain ⟨v, shrinks, carves⟩ := cut.carves
  obtain ⟨b, was, link, -⟩ := carves.span_bounds taken
  exact ⟨b, shrinks _ b was, link⟩

theorem Cut.stop_le {k k' : Kme} {ℓ : LinkId} {C : List Span} (cut : Cut k ℓ C k') {c : Span} (taken : c ∈ C) :
    ∃ b, k'.bare c.block = some b ∧ c.stop ≤ b.offset := by
  obtain ⟨v, -, carves⟩ := cut.carves
  exact carves.stop_le taken

theorem Cut.pairwise_apart {k k' : Kme} {ℓ : LinkId} {C : List Span} (cut : Cut k ℓ C k') :
    C.Pairwise Span.Apart := by
  obtain ⟨v, -, carves⟩ := cut.carves
  exact carves.pairwise_apart

/-- The spans of a cut share no byte with a span that the cursor of its block has passed. -/
theorem Cut.apart_of_behind {k k' : Kme} {ℓ : LinkId} {C : List Span} (cut : Cut k ℓ C k') {x : Span}
    (behind : ∀ b, k.bare x.block = some b → b.link = ℓ → min x.stop b.bytes.length ≤ b.offset) :
    ∀ c ∈ C, x.Apart c := by
  intro c taken
  obtain ⟨v, shrinks, carves⟩ := cut.carves
  obtain ⟨b, was, link, start, nonempty, inside⟩ := carves.span_bounds taken
  by_cases same : x.block = c.block
  · -- `x` ends at its block's cursor at the latest, and `c` starts there at the earliest
    have before := behind b (same ▸ shrinks _ b was) link
    apply Span.apart_of_stop_le
    omega
  · simp [Span.Apart, Span.overlaps, same]

/-- A node gains a companion for a link only by confirming the link with it. -/
theorem respond_partners {k : Kme} (sound : k.Sound) {req : KmeRequest} {e : Env} {out : Option Plan} {k' : Kme}
    (ran : respond req e k = some (out, k')) {x : LinkId × KmeId} (member : x ∈ k'.partners) :
    x ∈ k.partners ∨ ∃ address, req = .linkConfirmed x.1 x.2 address := by
  have effect := respond_effect sound ran
  have kept : k'.links = k.links → x ∈ k.partners := fun links => partners_eq links ▸ member
  cases req with
  | deliverBlock => exact .inl (effect.2.partners x member)
  | syncKeys => exact .inl (kept effect.2.1)
  | linkConfirmed ℓ c address =>
    rcases effect.2.partners x member with old | rfl
    · exact .inl old
    · exact .inr ⟨address, rfl⟩
  | _ =>
    cases out with
    | none => exact .inl (kept (effect.2 rfl).links)
    | some p => exact .inl (kept (effect.1 p rfl).links)

end Kme

/-- The blocks of link `L` in `w` are blocks of `v`, as they were. -/
def KeepsLink (L : LinkId) (v w : BlockId → Option Block) : Prop :=
  ∀ X b, w X = some b → b.link = L → v X = some b

theorem Shrinks.keepsLink {v w : BlockId → Option Block} (shrinks : Shrinks v w) (L : LinkId) :
    KeepsLink L v w :=
  fun X b found _ => shrinks X b found

/-- Cutting from one link leaves the blocks of every other link as they were. -/
theorem Carves.keepsLink {ℓ L : LinkId} {v w : BlockId → Option Block} {C : List Span} (carves : Carves ℓ v C w)
    (other : ℓ ≠ L) : KeepsLink L v w := by
  intro X b found onL
  rw [carves.get_eq] at found
  obtain ⟨b₀, was, rfl⟩ := Option.map_eq_some_iff.mp found
  have absent : ∀ c ∈ C, c.block ≠ X := by
    rintro c member rfl
    obtain ⟨b, here, link, _⟩ := carves.span_bounds member
    rw [was] at here
    cases here
    exact other (link.symm.trans onL)
  rw [reach_of_absent C X b₀.offset absent]
  exact was

namespace KmeRequest

/-- A request that is not the own traffic of link `L`: neither a block of `L` nor an account of
what the companion consumed on `L`. -/
def Outside (L : LinkId) : KmeRequest → Prop
  | .deliverBlock ℓ _ _ _ => ℓ ≠ L
  | .syncKeys ℓ _ _ => ℓ ≠ L
  | _ => True

end KmeRequest

namespace Kme

/-- On link `L`, a request that is not the link's own traffic either leaves the link's blocks as
they were, less those dropped, and asks nobody to follow a cut on `L`; or cuts spans from the
link and asks the link's companion to follow them. -/
theorem outside_effect {k : Kme} (sound : k.Sound) {L : LinkId} {req : KmeRequest} (outside : req.Outside L)
    {e : Env} {out : Option Plan} {k' : Kme} (ran : respond req e k = some (out, k')) :
    (KeepsLink L k.bare k'.bare ∧ ∀ σ ∈ syncsOf out, σ.link ≠ L) ∨
      ∃ c rows C, syncsOf out = [⟨c, L, rows, C⟩] ∧ (L, c) ∈ k.partners ∧ Cut k L C k' := by
  have effect := respond_effect sound ran
  have quiet : ∀ {out : Option Plan}, syncsOf out = [] → ∀ σ ∈ syncsOf out, σ.link ≠ L :=
    fun none σ member => by rw [none] at member; cases member
  cases req with
  | deliverBlock ℓ X timestamp bytes =>
    refine .inl ⟨?_, quiet effect.1⟩
    intro Y b found onL
    rw [effect.2.blocks, Store.bare_insertBlock] at found
    split at found
    · cases found
      exact absurd onL outside
    · exact found
  | syncKeys ℓ rows consumed =>
    obtain ⟨_, _, ⟨rfl, same⟩ | ⟨p, rfl, none, onLink, acked⟩⟩ := effect
    · exact .inl ⟨fun X b found _ => same ▸ found, fun _ absurd => by cases absurd⟩
    refine .inl ⟨?_, quiet none⟩
    intro X b found onL
    rw [acked] at found
    obtain ⟨b₀, was, rfl⟩ := Option.map_eq_some_iff.mp found
    have absent : ∀ s ∈ consumed, s.block ≠ X := by
      rintro s member rfl
      exact outside ((onLink s member b₀ was).symm.trans onL)
    rw [ackReach_of_absent consumed X _ _ absent]
    exact was
  | linkConfirmed ℓ c address =>
    exact .inl ⟨fun X b found _ => effect.2.blocks ▸ found, quiet effect.1⟩
  | _ =>
    cases out with
    | none => exact .inl ⟨(effect.2 rfl).blocks.keepsLink L, fun _ absurd => by cases absurd⟩
    | some p =>
      rcases effect.1 p rfl with ⟨none, shrunk⟩ | ⟨c, ℓ, rows, C, syncs, confirmed, cut⟩
      · exact .inl ⟨shrunk.blocks.keepsLink L, quiet none⟩
      by_cases onL : ℓ = L
      · subst onL
        exact .inr ⟨c, rows, C, syncs, confirmed, cut⟩
      · obtain ⟨v, shrinks, carves⟩ := cut.carves
        refine .inl ⟨fun X b found onLink => shrinks.keepsLink L X b (carves.keepsLink onL X b found onLink) onLink, ?_⟩
        intro σ member
        rw [show syncsOf (some p) = p.syncs from rfl, syncs, List.mem_singleton] at member
        rw [member]
        exact onL

end Kme

end KeyRelay
