import KeyRelay.Proofs.LinkFrame
import KeyRelay.Proofs.FileStore

/-! Reopening a node on its records. A node files a link's record each time the link's state
changes, so its records mirror the links it knows (`Kme.LinksFiled`). Reopening reads each record
back with an estimator resumed from the record's rate. A link that has seen a block comes back as
it was. A link confirmed before any block arrived comes back with an estimator that takes its
record's placeholder rate, zero, for a reported rate, where the live node would seed the estimate
with the first block's rate. -/

namespace KeyRelay

namespace Table

variable {κ α γ : Type} [DecidableEq κ]

theorem get?_foldl_insert_of_absent (items : List γ) (keyOf : γ → κ) (valOf : γ → α) {k : κ}
    (absent : ∀ x ∈ items, keyOf x ≠ k) (t : Table κ α) :
    (items.foldl (fun t x => t.insert (keyOf x) (valOf x)) t).get? k = t.get? k := by
  induction items generalizing t with
  | nil => rfl
  | cons x rest ih =>
    rw [List.foldl_cons, ih (fun y member => absent y (List.mem_cons_of_mem _ member)), get?_insert,
      if_neg (absent x List.mem_cons_self)]

/-- Inserting items one after the other, where every item of key `k` has value `v`: once an item
has the key, the key ends up with `v`. -/
theorem get?_foldl_insert_of_mem (items : List γ) (keyOf : γ → κ) (valOf : γ → α) {k : κ} {v : α}
    (agree : ∀ x ∈ items, keyOf x = k → valOf x = v) (found : ∃ x ∈ items, keyOf x = k) (t : Table κ α) :
    (items.foldl (fun t x => t.insert (keyOf x) (valOf x)) t).get? k = some v := by
  induction items generalizing t with
  | nil =>
    obtain ⟨x, member, -⟩ := found
    cases member
  | cons y rest ih =>
    have agreeRest : ∀ z ∈ rest, keyOf z = k → valOf z = v := fun z inner => agree z (List.mem_cons_of_mem _ inner)
    rw [List.foldl_cons]
    by_cases later : ∃ z ∈ rest, keyOf z = k
    · exact ih agreeRest later _
    -- no later item has the key, so `y` has it and the rest leaves it alone
    have first : keyOf y = k := by
      obtain ⟨x, member, key⟩ := found
      rcases List.mem_cons.mp member with same | inner
      · rw [← same]
        exact key
      · exact absurd ⟨x, inner, key⟩ later
    have absent : ∀ z ∈ rest, keyOf z ≠ k := fun z inner key => later ⟨z, inner, key⟩
    rw [get?_foldl_insert_of_absent rest keyOf valOf absent, get?_insert, if_pos first,
      agree y List.mem_cons_self first]

end Table

namespace LinkState

/-- A link's estimator goes on from its record's rate, or is fresh while the record holds the
placeholder rate, zero, of a link that has seen no block. -/
def Resumed (s : LinkState) : Prop :=
  s.estimator = .resume s.record.rate ∨ (s.estimator = {} ∧ s.record.rate = 0.0)

/-- Folding a block into a link's estimator and its rate into the record leaves an estimator
resumed from the new rate. -/
theorem Resumed.observe {s : LinkState} (resumed : s.Resumed) (n : Nat) :
    Resumed ⟨{ s.record with rate := (s.estimator.observe n).2 }, (s.estimator.observe n).1⟩ := by
  left
  rcases resumed with same | ⟨fresh, -⟩
  · rw [same]
    rfl
  · rw [fresh]
    rfl

end LinkState

namespace Kme

/-- A node's records mirror the links it knows: the records file each link's record under the
link's id, once, and each link's estimator is resumed from its record's rate, or fresh while the
record holds the placeholder rate. -/
structure LinksFiled (k : Kme) : Prop where
  filed : ∀ ℓ, k.storage.data.links.get? ℓ = (k.links.get? ℓ).map (·.record)
  distinct : k.storage.data.links.KeysNodup
  resumed : ∀ ℓ s, k.links.get? ℓ = some s → s.Resumed

theorem LinksFiled.insert {k k' : Kme} (filed : k.LinksFiled) {ℓ : LinkId} {s : LinkState} (resumed : s.Resumed)
    (link : s.record.link = ℓ) (links : k'.links = k.links.insert ℓ s)
    (records : k'.storage.data.links = k.storage.data.links.insert s.record.link s.record) : k'.LinksFiled where
  filed ℓ' := by
    rw [links, records, link, Table.get?_insert, Table.get?_insert]
    by_cases same : ℓ = ℓ'
    · simp [same]
    · simp only [same, if_false]
      exact filed.filed ℓ'
  distinct := by
    rw [records]
    exact Table.keysNodup_insert filed.distinct _ _
  resumed ℓ' s' found := by
    rw [links, Table.get?_insert] at found
    split at found
    · cases found
      exact resumed
    · exact filed.resumed ℓ' s' found

end Kme

end KeyRelay
