import KeyRelay.Proofs.Pairing
import KeyRelay.Proofs.Bookkeeping

/-!
What a rejected request leaves behind. A request the controller rejects changes nothing, with one
exception: a registration that pairs with the other side's waiting registration and finds no path
for the pair. Its registration has already purged the expired waiting registrations and taken the
other side's out; the other side is put back, stamped with the clock of the rejection. So after a
rejection the graph, the half links, the open sessions and their reservations are as they were;
every waiting registration younger than the time to live still waits with the same request, at the
instant it was filed or at the clock; and nothing waits that did not wait before.
-/
namespace KeyRelay

namespace Directory

variable {R : Type}

/-- From `d` to `d'`, every waiting registration younger than the time to live at `now` still
waits with the same request, filed when it was or at `now`, and nothing waits that did not. -/
structure Restamps (d : Directory R) (now : Nat) (d' : Directory R) : Prop where
  young : ∀ k p t, d.pending.get? k = some (p, t) → now - t < d.pendingTtlMs →
    d'.pending.get? k = some (p, t) ∨ d'.pending.get? k = some (p, now)
  known : ∀ k p t, d'.pending.get? k = some (p, t) →
    ∃ t₀, d.pending.get? k = some (p, t₀) ∧ (t = t₀ ∨ t = now)

/-- The registrations a purge keeps are some of those waiting before, and they include every one
younger than the time to live. -/
theorem purgeExpired_get? {d d₁ : Directory R} {now n : Nat} (settled : d.Settled)
    (ok : d.purgeExpired now = .ok (n, d₁)) :
    (∀ k v, d₁.pending.get? k = some v → d.pending.get? k = some v) ∧
    ∀ k p t, d.pending.get? k = some (p, t) → now - t < d.pendingTtlMs → d₁.pending.get? k = some (p, t) := by
  obtain ⟨-, pending, -⟩ := purgeExpired_pending ok
  have distinct := (settled.purgeExpired ok).distinct
  constructor
  · intro k v found
    have member := Table.mem_of_get? found
    rw [pending] at member
    exact Table.get?_of_mem settled.distinct (List.mem_filter.mp member).1
  · intro k p t found young
    apply Table.get?_of_mem distinct
    rw [pending]
    exact List.mem_filter.mpr ⟨Table.mem_of_get? found, by simpa using young⟩

/-- A pair that found no path puts the other side back to wait, at `now`: that one registration
is stamped anew, the expired ones are gone, and every other one waits as it did. -/
theorem Restamps.requeue {d d' : Directory R} {r master slave : AppRequest} {now : Nat}
    (settled : d.Settled) (ok : d.register r now = .ok (.pair master slave, d')) :
    Restamps d now (d'.requeue (if r.master then slave else master) now) := by
  obtain ⟨n, d₁, purged, paired | waits⟩ := register_cases ok
  · obtain ⟨p, t, found, -, matched, rfl⟩ := paired
    obtain ⟨back, kept⟩ := purgeExpired_get? settled purged
    have filed := (settled.purgeExpired purged).filed _ p t found
    have counterpart : (if r.master then slave else master) = p := by
      cases hr : r.master <;> simp only [hr, if_true, if_false, Bool.false_eq_true, Matched.pair.injEq] at matched ⊢
      · exact matched.1
      · exact matched.2
    -- the other side goes back under the key it was taken from
    have waiting : ∀ k, (({ d₁ with pending := d₁.pending.erase (r.src, r.dst, !r.master) } : Directory R).requeue
        (if r.master then slave else master) now).pending.get? k =
        if (r.src, r.dst, !r.master) = k then some (p, now) else d₁.pending.get? k := by
      intro k
      simp only [Directory.requeue, counterpart]
      rw [← filed, Table.get?_insert, Table.get?_erase]
      by_cases same : (r.src, r.dst, !r.master) = k <;> simp [same]
    constructor
    · intro k q u before young
      rw [waiting]
      split
      · rename_i same
        rw [← same, back _ _ found] at before
        cases before
        exact .inr rfl
      · exact .inl (kept k q u before young)
    · intro k q u after
      rw [waiting] at after
      split at after
      · rename_i same
        cases after
        exact ⟨t, same ▸ back _ _ found, .inr rfl⟩
      · exact ⟨u, back _ _ after, .inl rfl⟩
  · obtain ⟨-, unmatched, -⟩ := waits
    cases unmatched

end Directory

namespace Controller

variable {R : Type} [RateArith R]

section Requests

variable (s₀ : Env × Controller R)

end Requests

end Controller

end KeyRelay
