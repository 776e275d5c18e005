import KeyRelay.Store.Basic
import KeyRelay.Proofs.Table
import Mathlib

/-! A node's blocks seen without their reference counts, and the agreement of the link index
with the blocks. Every record operation other than inserting, updating or deleting a block leaves
both untouched; these three keep the index in agreement. The index gives a link's blocks as
they are stored, each once and each of that link. -/

namespace KeyRelay

/-- A block with its reference count cleared: what stays fixed while keys take and drop
references to it. -/
def Block.bare (b : Block) : Block := { b with inUse := 0 }

@[simp] theorem Block.bare_offset (b : Block) : b.bare.offset = b.offset := rfl
@[simp] theorem Block.bare_link (b : Block) : b.bare.link = b.link := rfl
@[simp] theorem Block.bare_bytes (b : Block) : b.bare.bytes = b.bytes := rfl
@[simp] theorem Block.bare_id (b : Block) : b.bare.id = b.id := rfl
@[simp] theorem Block.bare_timestamp (b : Block) : b.bare.timestamp = b.timestamp := rfl

@[simp] theorem Block.bare_release (b : Block) : b.release.bare = b.bare := rfl

namespace Store

/-- The blocks of the records, reference counts aside. -/
def bare (s : Store) (X : BlockId) : Option Block := (s.blocks.get? X).map Block.bare

/-- The index of each link's blocks agrees with the blocks: no index key twice, every index
entry naming a kept block under that block's own link, timestamp and arrival number, and every
block kept under its own id. -/
structure Indexed (s : Store) : Prop where
  chainKeys : s.chain.KeysNodup
  chained : ∀ k X, (k, X) ∈ s.chain.entries →
    ∃ b, s.blocks.get? X = some b ∧ k = (b.link, b.timestamp, b.arrival)
  ids : ∀ X b, s.blocks.get? X = some b → b.id = X

theorem indexed_default : ({} : Store).Indexed where
  chainKeys := List.nodup_nil
  chained := by simp
  ids := by simp

/-- `after` has what `before` had of the blocks, less the blocks it dropped: no block is new,
no cursor has moved, and the index still agrees. -/
structure Kept (before after : Store) : Prop where
  bare : ∀ X b, after.bare X = some b → before.bare X = some b
  indexed : before.Indexed → after.Indexed

theorem Kept.refl (s : Store) : Kept s s := ⟨fun _ _ found => found, id⟩

theorem Kept.trans {a b c : Store} (first : Kept a b) (second : Kept b c) : Kept a c :=
  ⟨fun X x found => first.bare X x (second.bare X x found), fun ix => second.indexed (first.indexed ix)⟩

/-- Records whose blocks and index are those of `before`. -/
theorem Kept.of_blocks {before after : Store} (blocks : after.blocks = before.blocks)
    (chain : after.chain = before.chain) : Kept before after := by
  refine ⟨fun X b found => by simpa [Store.bare, blocks] using found, fun ix => ?_⟩
  exact ⟨chain ▸ ix.chainKeys, by simpa [blocks, chain] using ix.chained, by simpa [blocks] using ix.ids⟩

/-! ### Inserting, updating and deleting a block -/

theorem mem_insert_entries {κ α : Type} [DecidableEq κ] {t : Table κ α} {k j : κ} {v w : α}
    (member : (j, w) ∈ (t.insert k v).entries) :
    (j = k ∧ w = v) ∨ ((j, w) ∈ t.entries ∧ j ≠ k) := by
  unfold Table.insert at member
  split at member
  · obtain ⟨e, inside, same⟩ := List.mem_map.mp member
    by_cases key : e.1 = k
    · simp only [key, if_true, Prod.mk.injEq] at same
      exact .inl ⟨same.1.symm, same.2.symm⟩
    · simp only [key, if_false] at same
      subst same
      exact .inr ⟨inside, key⟩
  · rename_i absent
    rcases List.mem_append.mp member with old | new
    · refine .inr ⟨old, fun key => absent ?_⟩
      exact List.any_eq_true.mpr ⟨(j, w), old, by simp [key]⟩
    · simp only [List.mem_singleton, Prod.mk.injEq] at new
      exact .inl new

theorem bare_insertBlock (s : Store) (b : Block) (X : BlockId) :
    (s.insertBlock b).2.bare X =
      if s.blocks.contains b.id = false ∧ b.id = X then some b.bare else s.bare X := by
  unfold insertBlock
  by_cases present : s.blocks.contains b.id
  · simp [present]
  · by_cases same : b.id = X
    · subst same
      simp [present, bare]
    · simp [present, same, bare]

theorem Indexed.insertBlock {s : Store} (ix : s.Indexed) (b : Block) : (s.insertBlock b).2.Indexed := by
  unfold Store.insertBlock
  split
  · exact ix
  · rename_i present
    have fresh : s.blocks.get? b.id = none := Table.get?_eq_none_of_contains _ _ (by simpa using present)
    refine ⟨Table.keysNodup_insert ix.chainKeys _ _, ?_, ?_⟩
    · intro k X member
      rcases mem_insert_entries member with ⟨rfl, rfl⟩ | ⟨old, _⟩
      · exact ⟨b, by simp, rfl⟩
      · obtain ⟨c, found, key⟩ := ix.chained k X old
        have other : b.id ≠ X := by
          rintro rfl
          rw [fresh] at found
          cases found
        exact ⟨c, by simpa [other] using found, key⟩
    · intro X c found
      by_cases same : b.id = X
      · subst same
        simp only [Table.get?_insert, if_true, Option.some.injEq] at found
        exact found ▸ rfl
      · simp only [Table.get?_insert, same, if_false] at found
        exact ix.ids X c found

theorem updateBlock_ok {s s' : Store} {b : Block} (ok : s.updateBlock b = .ok s') :
    ∃ stored, s.blocks.get? b.id = some stored ∧ stored.link = b.link ∧
      s' = { s with blocks := s.blocks.modify b.id fun st => { st with offset := b.offset, inUse := b.inUse } } := by
  unfold updateBlock at ok
  split at ok
  · cases ok
  · rename_i stored found
    split at ok
    · cases ok
    · rename_i link
      cases ok
      exact ⟨stored, found, by simpa using link, rfl⟩

theorem bare_updateBlock {s s' : Store} {b : Block} (ok : s.updateBlock b = .ok s') (X : BlockId) :
    s'.bare X = if b.id = X then (s.bare X).map fun c => { c with offset := b.offset } else s.bare X := by
  obtain ⟨_, _, _, rfl⟩ := updateBlock_ok ok
  by_cases same : b.id = X
  · simp only [bare, Table.get?_modify, same, if_true, Option.map_map]
    rfl
  · simp [bare, same]

theorem Indexed.updateBlock {s s' : Store} {b : Block} (ix : s.Indexed) (ok : s.updateBlock b = .ok s') :
    s'.Indexed := by
  obtain ⟨_, _, _, rfl⟩ := updateBlock_ok ok
  refine ⟨ix.chainKeys, ?_, ?_⟩
  · intro k X member
    obtain ⟨c, found, key⟩ := ix.chained k X member
    by_cases same : b.id = X
    · exact ⟨{ c with offset := b.offset, inUse := b.inUse }, by simp [same, found], key⟩
    · exact ⟨c, by simp [same, found], key⟩
  · intro X c found
    by_cases same : b.id = X
    · simp only [Table.get?_modify, same, if_true] at found
      obtain ⟨old, hit, rfl⟩ := Option.map_eq_some_iff.mp found
      exact ix.ids X old hit
    · simp only [Table.get?_modify, same, if_false] at found
      exact ix.ids X c found

/-- An update that changes only the reference count keeps the records' blocks. -/
theorem Kept.updateBlock {s s' : Store} {b : Block} (ok : s.updateBlock b = .ok s')
    (same : ∀ c, s.blocks.get? b.id = some c → c.offset = b.offset) : Kept s s' := by
  refine ⟨fun X c found => ?_, fun ix => ix.updateBlock ok⟩
  rw [bare_updateBlock ok] at found
  split at found
  · rename_i here
    subst here
    obtain ⟨old, hit, rfl⟩ := Option.map_eq_some_iff.mp found
    obtain ⟨stored, present, rfl⟩ := Option.map_eq_some_iff.mp hit
    have kept := same stored present
    simp only [Store.bare, present, Option.map_some, Option.some.injEq]
    cases stored
    simp_all [Block.bare]
  · exact found

theorem bare_deleteBlock (s : Store) (Y X : BlockId) :
    (s.deleteBlock Y).bare X = if Y = X then none else s.bare X := by
  unfold deleteBlock
  split
  · rename_i absent
    by_cases same : Y = X
    · subst same
      simp [bare, absent]
    · simp [same]
  · by_cases same : Y = X <;> simp [bare, same]

theorem Indexed.deleteBlock {s : Store} (ix : s.Indexed) (Y : BlockId) : (s.deleteBlock Y).Indexed := by
  unfold Store.deleteBlock
  split
  · exact ix
  · rename_i b found
    refine ⟨Table.keysNodup_erase ix.chainKeys _, ?_, ?_⟩
    · intro k X member
      simp only [Table.erase, List.mem_filter, decide_eq_true_eq] at member
      obtain ⟨c, hit, key⟩ := ix.chained k X member.1
      have other : Y ≠ X := by
        rintro rfl
        rw [found, Option.some.injEq] at hit
        exact member.2 (hit ▸ key)
      exact ⟨c, by simpa [other] using hit, key⟩
    · intro X c hit
      by_cases same : Y = X
      · simp [same] at hit
      · simp only [Table.get?_erase, same, if_false] at hit
        exact ix.ids X c hit

theorem Kept.deleteBlock (s : Store) (Y : BlockId) : Kept s (s.deleteBlock Y) := by
  refine ⟨fun X c found => ?_, fun ix => ix.deleteBlock Y⟩
  rw [bare_deleteBlock] at found
  split at found
  · cases found
  · exact found

/-! ### A link's blocks -/

/-- Index entries name distinct blocks. -/
theorem Indexed.chainIds {s : Store} (ix : s.Indexed) : (s.chain.entries.map (·.2)).Nodup := by
  refine List.Nodup.map_on ?_ (List.Nodup.of_map _ ix.chainKeys)
  intro e inside e' inside' same
  obtain ⟨b, found, key⟩ := ix.chained e.1 e.2 inside
  obtain ⟨b', found', key'⟩ := ix.chained e'.1 e'.2 inside'
  rw [same, found'] at found
  cases found
  have keys : e.1 = e'.1 := key.trans key'.symm
  exact Prod.ext keys same

/-- Each block the index gives for a link is the one kept under its id, and is of that link. -/
theorem mem_blocksForLink {s : Store} (ix : s.Indexed) {link : LinkId} {b : Block}
    (member : b ∈ s.blocksForLink link) : s.blocks.get? b.id = some b ∧ b.link = link := by
  unfold blocksForLink at member
  obtain ⟨e, sorted, found⟩ := List.mem_filterMap.mp member
  have inside := (List.mergeSort_perm _ _).mem_iff.mp sorted
  obtain ⟨indexed, onLink⟩ := List.mem_filter.mp inside
  obtain ⟨c, hit, key⟩ := ix.chained e.1 e.2 indexed
  rw [hit, Option.some.injEq] at found
  subst found
  refine ⟨by rw [ix.ids e.2 c hit]; exact hit, ?_⟩
  have link : e.1.1 = link := by simpa using onLink
  rw [key] at link
  exact link

/-- The index gives each block of a link once. -/
theorem blocksForLink_nodup {s : Store} (ix : s.Indexed) (link : LinkId) :
    ((s.blocksForLink link).map (·.id)).Nodup := by
  unfold blocksForLink
  let entries := s.chain.entries.filter (·.1.1 = link)
  have distinct : (entries.map (·.2)).Nodup := ix.chainIds.sublist (List.filter_sublist.map _)
  have sortedIds : ((sortedBy2 (fun e => (e.1.2.1, e.1.2.2)) entries).map (·.2)).Perm (entries.map (·.2)) :=
    (List.mergeSort_perm _ _).map _
  have keep : ∀ (l : List ((LinkId × Nat × Nat) × BlockId)), (l.map (·.2)).Nodup →
      ((l.filterMap fun e => s.blocks.get? e.2).map (·.id)).Nodup := by
    intro l
    induction l with
    | nil => simp
    | cons e rest ih =>
      intro nd
      rw [List.map_cons, List.nodup_cons] at nd
      rw [List.filterMap_cons]
      split
      · exact ih nd.2
      · rename_i b found
        rw [List.map_cons, List.nodup_cons]
        refine ⟨fun again => nd.1 ?_, ih nd.2⟩
        obtain ⟨c, inside, same⟩ := List.mem_map.mp again
        obtain ⟨e', inside', hit⟩ := List.mem_filterMap.mp inside
        rw [ix.ids e.2 b found] at same
        rw [← same, ix.ids e'.2 c hit]
        exact List.mem_map_of_mem inside'
  exact keep _ (sortedIds.nodup_iff.mpr distinct)

end Store

end KeyRelay
