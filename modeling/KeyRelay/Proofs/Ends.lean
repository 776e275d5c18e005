import KeyRelay.Proofs.Link

/-! The two ends of one link `L`. Each end is a node that confirms `L` only with the other end
and holds no block of `L` but those delivered on it; every request either end handles keeps it
so. An end that follows what its companion consumed on another link leaves its blocks of `L` as
they were. -/

namespace KeyRelay

/-- The two ends of a link. -/
inductive End where
  | near
  | far
deriving DecidableEq

namespace End

/-- The end across the link. -/
def other : End → End
  | near => far
  | far => near

theorem other_ne (i : End) : i.other ≠ i := by
  cases i <;> decide

@[simp] theorem other_other (i : End) : i.other.other = i := by
  cases i <;> rfl

theorem eq_or_eq_other (i j : End) : j = i ∨ j = i.other := by
  cases i <;> cases j <;> decide

@[simp] theorem update_other {α : Type} (f : End → α) (i : End) (a : α) :
    Function.update f i a i.other = f i.other :=
  Function.update_of_ne (other_ne i) a f

@[simp] theorem update_other_self {α : Type} (f : End → α) (i : End) (a : α) :
    Function.update f i.other a i = f i :=
  Function.update_of_ne (other_ne i).symm a f

end End

namespace KmeRequest

/-- A request that confirms link `L` names `c` as its companion. -/
def Names (L : LinkId) (c : KmeId) : KmeRequest → Prop
  | .linkConfirmed ℓ c' _ => ℓ = L → c' = c
  | _ => True

end KmeRequest

theorem KeepsLink.trans {L : LinkId} {u v w : BlockId → Option Block} (first : KeepsLink L u v)
    (second : KeepsLink L v w) : KeepsLink L u w :=
  fun X b found onL => first X b (second X b found onL) onL

namespace Kme

/-- An end of link `L` whose companion is `c`: sound, confirmed on `L` with `c` only, and holding
no block of `L` but those delivered on it. -/
structure EndOf (L : LinkId) (c : KmeId) (delivered : List BlockId) (k : Kme) : Prop where
  sound : k.Sound
  partner : ∀ c', (L, c') ∈ k.partners → c' = c
  held : ∀ X b, k.bare X = some b → b.link = L → X ∈ delivered

/-- A node follows the accounts `syncs` in order, each to a success. -/
inductive Follows : Kme → List Sync → Kme → Prop
  | nil {k : Kme} : Follows k [] k
  | cons {k k₁ k₂ : Kme} {σ : Sync} {rest : List Sync} {e : Env} {p : Plan} :
      respond (.syncKeys σ.link σ.rows σ.consumed) e k = some (some p, k₁) → Follows k₁ rest k₂ →
      Follows k (σ :: rest) k₂

section Ends

variable {L : LinkId} {c : KmeId} {D : List BlockId} {k k' : Kme} {e : Env} {out : Option Plan}

theorem EndOf.blank (blank : k.Blank) : k.EndOf L c D where
  sound := blank.sound
  partner c' member := by
    rw [blank.partners] at member
    cases member
  held X b found := by
    rw [blank.bare X] at found
    cases found

/-- A request that is not the link's own traffic, and confirms the link only with `c`, keeps an
end of it. -/
theorem EndOf.request {req : KmeRequest} (inv : k.EndOf L c D) (outside : req.Outside L)
    (names : req.Names L c) (ran : respond req e k = some (out, k')) : k'.EndOf L c D where
  sound := respond_sound inv.sound ran
  partner c' member := by
    rcases respond_partners inv.sound ran member with old | ⟨address, rfl⟩
    · exact inv.partner c' old
    · exact names rfl
  held X b' found onL := by
    rcases outside_effect inv.sound outside ran with ⟨keeps, -⟩ | ⟨_, _, _, -, -, cut⟩
    · exact inv.held X b' (keeps X b' found onL) onL
    · obtain ⟨b, was, rfl⟩ := cut.found found
      exact inv.held X b was onL

theorem EndOf.follow {ℓ : LinkId} {rows : List KeyRow} {consumed : List Span} (inv : k.EndOf L c D)
    (ran : respond (.syncKeys ℓ rows consumed) e k = some (out, k')) : k'.EndOf L c D := by
  obtain ⟨sound, links, followed⟩ := syncKeys_effect inv.sound ℓ rows consumed ran
  refine ⟨sound, fun c' member => inv.partner c' (partners_eq links ▸ member), ?_⟩
  intro X b' found onL
  rcases followed with ⟨-, same⟩ | ⟨-, -, -, -, acked⟩
  · exact inv.held X b' (same ▸ found) onL
  · rw [acked] at found
    obtain ⟨b, was, rfl⟩ := Option.map_eq_some_iff.mp found
    exact inv.held X b was onL

theorem EndOf.deliver {X : BlockId} {timestamp : Nat} {bytes : List UInt8} (inv : k.EndOf L c D)
    (ran : respond (.deliverBlock L X timestamp bytes) e k = some (out, k')) : k'.EndOf L c (D ++ [X]) := by
  obtain ⟨-, delivered⟩ := respond_effect inv.sound ran
  refine ⟨delivered.sound, fun c' member => inv.partner c' (delivered.partners _ member), ?_⟩
  intro Y b found onL
  rcases delivered.found found with was | ⟨rfl, -⟩
  · exact List.mem_append_left _ (inv.held Y b was onL)
  · exact List.mem_append_right _ (List.mem_singleton_self _)

/-- Following what the companion consumed, to a success, moves each cursor to the furthest span
consumed on its block. -/
theorem acked_of_followed {ℓ : LinkId} {rows : List KeyRow} {consumed : List Span} {p : Plan} (sound : k.Sound)
    (ran : respond (.syncKeys ℓ rows consumed) e k = some (some p, k')) :
    k'.bare = fun X => (k.bare X).map fun b => { b with offset := ackReach consumed X b.bytes.length b.offset } := by
  obtain ⟨-, -, ⟨absurd, -⟩ | ⟨-, -, -, -, acked⟩⟩ := syncKeys_effect sound ℓ rows consumed ran
  · cases absurd
  · exact acked

/-- Following what the companion consumed on another link leaves the blocks of `L` as they were. -/
theorem synced_keepsLink {ℓ : LinkId} {rows : List KeyRow} {consumed : List Span} (sound : k.Sound)
    (ran : respond (.syncKeys ℓ rows consumed) e k = some (out, k')) (other : ℓ ≠ L) :
    KeepsLink L k.bare k'.bare := by
  have outside : KmeRequest.Outside L (.syncKeys ℓ rows consumed) := other
  rcases outside_effect sound outside ran with ⟨keeps, -⟩ | ⟨_, _, _, syncs, -⟩
  · exact keeps
  · -- following an account asks nobody to follow anything in turn
    obtain ⟨-, -, ⟨rfl, -⟩ | ⟨p, rfl, quiet, -⟩⟩ := syncKeys_effect sound ℓ rows consumed ran
    · cases syncs
    · rw [show syncsOf (some p) = p.syncs from rfl, quiet] at syncs
      cases syncs

theorem Follows.keeps {syncs : List Sync} (follows : k.Follows syncs k') (inv : k.EndOf L c D)
    (other : ∀ σ ∈ syncs, σ.link ≠ L) : k'.EndOf L c D ∧ KeepsLink L k.bare k'.bare := by
  induction follows with
  | nil => exact ⟨inv, fun X b found _ => found⟩
  | cons ran _ ih =>
    obtain ⟨last, keeps⟩ := ih (inv.follow ran) fun σ member => other σ (List.mem_cons_of_mem _ member)
    exact ⟨last, (synced_keepsLink inv.sound ran (other _ List.mem_cons_self)).trans keeps⟩

theorem Follows.single {σ : Sync} (follows : k.Follows [σ] k') :
    ∃ e p, respond (.syncKeys σ.link σ.rows σ.consumed) e k = some (some p, k') := by
  cases follows with
  | cons ran rest =>
    cases rest
    exact ⟨_, _, ran⟩

end Ends

end Kme

end KeyRelay
