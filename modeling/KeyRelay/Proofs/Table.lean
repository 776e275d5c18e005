import KeyRelay.Table

/-! Lookups in association tables after each update, and the distinctness of keys that every
update keeps. A lookup finds the first entry of its key, so the lookup lemmas hold of any table;
the records of a node never hold a key twice, which `Table.KeysNodup` states. -/

namespace KeyRelay.Table

variable {κ α : Type} [DecidableEq κ]

/-- No key has two entries. -/
def KeysNodup (t : Table κ α) : Prop := (t.entries.map (·.1)).Nodup

@[simp] theorem get?_empty (k : κ) : (Table.empty : Table κ α).get? k = none := rfl

@[simp] theorem get?_default (k : κ) : ({} : Table κ α).get? k = none := rfl

theorem contains_eq_isSome (t : Table κ α) (k : κ) : t.contains k = (t.get? k).isSome := by
  apply Bool.eq_iff_iff.mpr
  simp [contains, get?]

theorem get?_eq_none_of_contains (t : Table κ α) (k : κ) (absent : t.contains k = false) :
    t.get? k = none := by
  rw [contains_eq_isSome] at absent
  simpa using absent

private theorem find?_map_same (entries : List (κ × α)) (k : κ) (f : κ × α → κ × α)
    (keeps : ∀ e, (f e).1 = e.1) :
    (entries.map f).find? (·.1 = k) = (entries.find? (·.1 = k)).map f := by
  induction entries with
  | nil => rfl
  | cons e rest ih =>
    by_cases hit : e.1 = k
    · simp [hit, keeps]
    · simp [hit, keeps, ih]

@[simp] theorem get?_modify (t : Table κ α) (k j : κ) (f : α → α) :
    (t.modify k f).get? j = if k = j then (t.get? j).map f else t.get? j := by
  simp only [modify, get?]
  rw [find?_map_same _ _ _ (fun e => by split <;> rfl)]
  by_cases same : k = j
  · subst same
    cases h : t.entries.find? (·.1 = k) with
    | none => simp
    | some e =>
      have key : e.1 = k := by simpa using List.find?_some h
      simp [key]
  · cases h : t.entries.find? (·.1 = j) with
    | none => simp [same]
    | some e =>
      have key : e.1 = j := by simpa using List.find?_some h
      have other : e.1 ≠ k := fun hk => same (hk ▸ key)
      simp [same, other]

private theorem find?_filter_other (entries : List (κ × α)) (k j : κ) (other : k ≠ j) :
    (entries.filter (·.1 ≠ k)).find? (·.1 = j) = entries.find? (·.1 = j) := by
  induction entries with
  | nil => rfl
  | cons e rest ih =>
    by_cases gone : e.1 = k
    · have miss : e.1 ≠ j := fun hj => other (gone ▸ hj)
      rw [List.filter_cons_of_neg (by simpa using gone), ih,
        List.find?_cons_of_neg (by simpa using miss)]
    · rw [List.filter_cons_of_pos (by simpa using gone)]
      by_cases hit : e.1 = j
      · rw [List.find?_cons_of_pos (by simpa using hit), List.find?_cons_of_pos (by simpa using hit)]
      · rw [List.find?_cons_of_neg (by simpa using hit), List.find?_cons_of_neg (by simpa using hit),
          ih]

@[simp] theorem get?_erase (t : Table κ α) (k j : κ) :
    (t.erase k).get? j = if k = j then none else t.get? j := by
  simp only [erase, get?]
  by_cases same : k = j
  · subst same
    simp [List.find?_filter]
  · simp only [same, if_false]
    rw [find?_filter_other _ _ _ same]

@[simp] theorem get?_insert (t : Table κ α) (k j : κ) (v : α) :
    (t.insert k v).get? j = if k = j then some v else t.get? j := by
  unfold insert
  split
  · rename_i present
    simp only [get?]
    rw [find?_map_same _ _ _ (fun e => by split <;> simp_all)]
    by_cases same : k = j
    · subst same
      obtain ⟨e, found⟩ : ∃ e, t.entries.find? (·.1 = k) = some e := by
        refine Option.isSome_iff_exists.mp ?_
        simpa [contains] using present
      have key : e.1 = k := by simpa using List.find?_some found
      simp [found, key]
    · cases h : t.entries.find? (·.1 = j) with
      | none => simp [same]
      | some e =>
        have key : e.1 = j := by simpa using List.find?_some h
        have other : e.1 ≠ k := fun hk => same (hk ▸ key)
        simp [same, other]
  · rename_i absent
    simp only [get?, List.find?_append]
    by_cases same : k = j
    · subst same
      have none := get?_eq_none_of_contains t k (by simpa using absent)
      simp only [get?, Option.map_eq_none_iff] at none
      simp [none]
    · cases t.entries.find? (·.1 = j) <;> simp [same]

omit [DecidableEq κ] in
theorem keysNodup_empty : (Table.empty : Table κ α).KeysNodup := List.nodup_nil

theorem keysNodup_modify {t : Table κ α} (distinct : t.KeysNodup) (k : κ) (f : α → α) :
    (t.modify k f).KeysNodup := by
  unfold KeysNodup modify
  have keys : ((·.1) ∘ fun (e : κ × α) => if e.1 = k then (e.1, f e.2) else e) = (·.1) := by
    funext e
    simp only [Function.comp_apply]
    split <;> rfl
  rw [List.map_map, keys]
  exact distinct

theorem keysNodup_erase {t : Table κ α} (distinct : t.KeysNodup) (k : κ) :
    (t.erase k).KeysNodup :=
  List.Nodup.sublist (List.Sublist.map _ List.filter_sublist) distinct

theorem keysNodup_insert {t : Table κ α} (distinct : t.KeysNodup) (k : κ) (v : α) :
    (t.insert k v).KeysNodup := by
  unfold insert
  split
  · unfold KeysNodup
    have keys : ((·.1) ∘ fun (e : κ × α) => if e.1 = k then (k, v) else e) = (·.1) := by
      funext e
      simp only [Function.comp_apply]
      split <;> simp_all
    rw [List.map_map, keys]
    exact distinct
  · rename_i absent
    unfold KeysNodup
    rw [List.map_append, List.nodup_append]
    refine ⟨distinct, by simp, ?_⟩
    intro a inside b single
    simp only [List.map_cons, List.map_nil, List.mem_singleton] at single
    subst b
    rintro rfl
    obtain ⟨e, member, key⟩ := List.mem_map.mp inside
    exact absent (List.any_eq_true.mpr ⟨e, member, by simpa using key⟩)

private theorem find?_of_mem (entries : List (κ × α)) (distinct : (entries.map (·.1)).Nodup)
    {k : κ} {v : α} (member : (k, v) ∈ entries) : entries.find? (·.1 = k) = some (k, v) := by
  induction entries with
  | nil => simp at member
  | cons e rest ih =>
    rw [List.map_cons, List.nodup_cons] at distinct
    rcases List.mem_cons.mp member with here | later
    · subst here
      simp
    · have other : e.1 ≠ k := fun key => distinct.1 (key ▸ List.mem_map_of_mem later)
      rw [List.find?_cons_of_neg (by simpa using other)]
      exact ih distinct.2 later

/-- With distinct keys, an entry is what the lookup of its key finds. -/
theorem get?_of_mem {t : Table κ α} (distinct : t.KeysNodup) {k : κ} {v : α}
    (member : (k, v) ∈ t.entries) : t.get? k = some v := by
  simp [get?, find?_of_mem t.entries distinct member]

theorem mem_of_get? {t : Table κ α} {k : κ} {v : α} (found : t.get? k = some v) :
    (k, v) ∈ t.entries := by
  unfold get? at found
  obtain ⟨e, hit, rfl⟩ := Option.map_eq_some_iff.mp found
  have key : e.1 = k := by simpa using List.find?_some hit
  have inside := List.mem_of_find?_eq_some hit
  rwa [← key]

omit [DecidableEq κ] in
theorem mem_values {t : Table κ α} {v : α} : v ∈ t.values ↔ ∃ k, (k, v) ∈ t.entries := by
  simp [values]

theorem mem_keys {t : Table κ α} {k : κ} : k ∈ t.keys ↔ (t.get? k).isSome := by
  rw [← contains_eq_isSome]
  simp [keys, contains]

theorem keys_insert_of_absent {t : Table κ α} {k : κ} (absent : t.get? k = none) (v : α) :
    (t.insert k v).keys = t.keys ++ [k] := by
  have missing : t.contains k = false := by simp [contains_eq_isSome, absent]
  simp [insert, missing, keys]

theorem keys_erase {t : Table κ α} (distinct : t.KeysNodup) (k : κ) :
    (t.erase k).keys = t.keys.erase k := by
  unfold keys
  rw [List.Nodup.erase_eq_filter distinct]
  simp only [erase, List.filter_map, Function.comp_def]
  congr 1
  exact List.filter_congr fun e _ => by by_cases same : e.1 = k <;> simp [same]

/-- An insertion keeps every key present. -/
theorem isSome_get?_insert {t : Table κ α} {j : κ} (present : (t.get? j).isSome) (k : κ) (v : α) :
    ((t.insert k v).get? j).isSome := by
  rw [get?_insert]
  split
  · rfl
  · exact present

/-- A new key adds one entry. -/
theorem size_insert_of_absent {t : Table κ α} {k : κ} (absent : t.get? k = none) (v : α) :
    (t.insert k v).size = t.size + 1 := by
  have missing : t.contains k = false := by simp [contains_eq_isSome, absent]
  simp [insert, missing, size]

/-- A present key is set in place. -/
theorem size_insert_of_present {t : Table κ α} {k : κ} (present : (t.get? k).isSome) (v : α) :
    (t.insert k v).size = t.size := by
  have held : t.contains k = true := by simp [contains_eq_isSome, present]
  simp [insert, held, size]

theorem size_modify (t : Table κ α) (k : κ) (f : α → α) : (t.modify k f).size = t.size := by
  simp [modify, size]

end KeyRelay.Table
