import KeyRelay.Proofs.ByteOrder
import KeyRelay.Proofs.Records

/-! The file holds what the memory holds. Writing every key of the records in memory as its
bytes gives the file (`Store.toFile`); while identifiers and words stay within their widths
(`Store.Bounded`), the byte keys are distinct exactly when the keys are, and they sort as the
keys do. So every call the file answers, it answers as the memory does, and leaves the file of
the records the memory leaves (`Store.answer_toFile`). Main statement: `file_answers_as_memory`.
-/

namespace KeyRelay

namespace Table

variable {κ κ' α β : Type} [DecidableEq κ] [DecidableEq κ']

/-- The table with every key and value written anew, entries in place. -/
def recode (t : Table κ α) (key : κ → κ') (val : α → β) : Table κ' β :=
  ⟨t.entries.map (Prod.map key val)⟩

section Recode

variable {key : κ → κ'} {val : α → β} {P : κ → Prop}
  (inj : ∀ a b, P a → P b → key a = key b → a = b)
include inj

private theorem find?_recode {entries : List (κ × α)} {k : κ} (inside : ∀ e ∈ entries, P e.1)
    (hk : P k) :
    (entries.map (Prod.map key val)).find? (·.1 = key k) = (entries.find? (·.1 = k)).map (Prod.map key val) := by
  induction entries with
  | nil => rfl
  | cons e rest ih =>
    have rest_inside : ∀ e ∈ rest, P e.1 := fun e member => inside e (List.mem_cons_of_mem _ member)
    by_cases hit : e.1 = k
    · simp [hit]
    · have miss : key e.1 ≠ key k := fun same => hit (inj _ _ (inside e (List.mem_cons_self ..)) hk same)
      simp [hit, miss, ih rest_inside]

theorem get?_recode {t : Table κ α} {k : κ} (inside : ∀ e ∈ t.entries, P e.1) (hk : P k) :
    (t.recode key val).get? (key k) = (t.get? k).map val := by
  simp only [get?, recode, find?_recode inj inside hk, Option.map_map]
  rfl

theorem contains_recode {t : Table κ α} {k : κ} (inside : ∀ e ∈ t.entries, P e.1) (hk : P k) :
    (t.recode key val).contains (key k) = t.contains k := by
  rw [contains_eq_isSome, contains_eq_isSome, get?_recode inj inside hk, Option.isSome_map]

theorem recode_insert {t : Table κ α} {k : κ} (inside : ∀ e ∈ t.entries, P e.1) (hk : P k) (v : α) :
    (t.insert k v).recode key val = (t.recode key val).insert (key k) (val v) := by
  unfold insert
  rw [contains_recode inj inside hk]
  split
  · simp only [recode, List.map_map, mk.injEq]
    apply List.map_congr_left
    intro e member
    by_cases hit : e.1 = k
    · simp [hit]
    · have miss : key e.1 ≠ key k := fun same => hit (inj _ _ (inside e member) hk same)
      simp [hit, miss]
  · simp [recode]

theorem recode_erase {t : Table κ α} {k : κ} (inside : ∀ e ∈ t.entries, P e.1) (hk : P k) :
    (t.erase k).recode key val = (t.recode key val).erase (key k) := by
  simp only [erase, recode, List.filter_map, mk.injEq]
  congr 1
  apply List.filter_congr
  intro e member
  have same : key e.1 = key k ↔ e.1 = k :=
    ⟨inj _ _ (inside e member) hk, fun hit => hit ▸ rfl⟩
  simp [same]

/-- Insertions one after another commute with writing the keys anew. -/
theorem recode_foldl_insert {γ : Type} (items : List γ) (keyOf : γ → κ) (valOf : γ → α)
    {t : Table κ α} (inside : ∀ e ∈ t.entries, P e.1) (each : ∀ x ∈ items, P (keyOf x)) :
    (items.foldl (fun t x => t.insert (keyOf x) (valOf x)) t).recode key val =
      items.foldl (fun t x => t.insert (key (keyOf x)) (val (valOf x))) (t.recode key val) := by
  induction items generalizing t with
  | nil => rfl
  | cons x rest ih =>
    have hx := each x (List.mem_cons_self ..)
    have inside' : ∀ e ∈ (t.insert (keyOf x) (valOf x)).entries, P e.1 := by
      intro e member
      obtain ⟨j, w⟩ := e
      rcases Store.mem_insert_entries member with ⟨rfl, -⟩ | ⟨old, -⟩
      · exact hx
      · exact inside _ old
    simp only [List.foldl_cons]
    rw [ih inside' (fun y member => each y (List.mem_cons_of_mem _ member)), recode_insert inj inside hx]

end Recode

section Sorting

variable {κ α β : Type}

/-- The entries between two keys of a table whose keys are written as bytes are the entries a
test keeps, in an order that agrees with the byte order of their keys. -/
theorem between_recode (t : Table κ α) (key : κ → List UInt8) (val : α → β) {lo hi : List UInt8}
    {p : κ × α → Bool} {le : κ × α → κ × α → Bool}
    (range : ∀ e ∈ t.entries, (decide (lo ≤ key e.1) && decide (key e.1 ≤ hi)) = p e)
    (order : ∀ a ∈ t.entries.filter p, ∀ b ∈ t.entries.filter p,
      le a b = decide (key a.1 ≤ key b.1)) :
    (t.recode key val).between lo hi = ((t.entries.filter p).mergeSort le).map (Prod.map key val) := by
  have kept : (t.entries.map (Prod.map key val)).filter
      (fun e => decide (lo ≤ e.1) && decide (e.1 ≤ hi)) = (t.entries.filter p).map (Prod.map key val) := by
    rw [List.filter_map]
    congr 1
    exact List.filter_congr range
  rw [between, recode, kept, List.map_mergeSort (s := fun x y => decide (x.1 ≤ y.1)) order]

theorem inOrder_recode (t : Table κ α) (key : κ → List UInt8) (val : α → β) {le : κ × α → κ × α → Bool}
    (order : ∀ a ∈ t.entries, ∀ b ∈ t.entries, le a b = decide (key a.1 ≤ key b.1)) :
    (t.recode key val).inOrder = (t.entries.mergeSort le).map (Prod.map key val) := by
  rw [inOrder, recode, List.map_mergeSort (s := fun x y => decide (x.1 ≤ y.1)) order]

end Sorting

/-- Removing the keys of some entries one by one keeps the entries of other keys. -/
theorem foldl_erase {κ α β : Type} [DecidableEq κ] (gone : List (κ × β)) (t : Table κ α) :
    gone.foldl (fun t e => t.erase e.1) t = ⟨t.entries.filter fun x => decide (x.1 ∉ gone.map (·.1))⟩ := by
  induction gone generalizing t with
  | nil => simp
  | cons e rest ih =>
    rw [List.foldl_cons, ih]
    simp only [erase, List.filter_filter, mk.injEq]
    apply List.filter_congr
    intro x _
    simp only [List.map_cons, List.mem_cons, not_or, Bool.decide_and, ne_eq, Bool.and_comm]

variable {κ α : Type} [DecidableEq κ]

theorem forall_insert {Q : κ × α → Prop} {t : Table κ α} (all : ∀ e ∈ t.entries, Q e) {k : κ} {v : α}
    (new : Q (k, v)) : ∀ e ∈ (t.insert k v).entries, Q e := by
  intro e member
  obtain ⟨j, w⟩ := e
  rcases Store.mem_insert_entries member with ⟨rfl, rfl⟩ | ⟨old, -⟩
  · exact new
  · exact all _ old

/-- Changing a present key's value is writing its new value over it. -/
theorem modify_eq_insert {t : Table κ α} (distinct : t.KeysNodup) {k : κ} {v : α} (found : t.get? k = some v)
    (f : α → α) : t.modify k f = t.insert k (f v) := by
  have present : t.contains k = true := by rw [contains_eq_isSome, found]; rfl
  simp only [modify, insert, present, ↓reduceIte, mk.injEq]
  apply List.map_congr_left
  intro e member
  by_cases hit : e.1 = k
  · have same : e.2 = v := by
      have filed : (k, e.2) ∈ t.entries := hit ▸ member
      rw [get?_of_mem distinct filed] at found
      exact Option.some.inj found
    simp [hit, same]
  · simp [hit]

theorem forall_foldl_insert {γ : Type} {Q : κ × α → Prop} (items : List γ) (keyOf : γ → κ) (valOf : γ → α)
    {t : Table κ α} (all : ∀ e ∈ t.entries, Q e) (each : ∀ x ∈ items, Q (keyOf x, valOf x)) :
    ∀ e ∈ (items.foldl (fun t x => t.insert (keyOf x) (valOf x)) t).entries, Q e := by
  induction items generalizing t with
  | nil => exact all
  | cons x rest ih =>
    exact ih (forall_insert all (each x (List.mem_cons_self ..)))
      fun y member => each y (List.mem_cons_of_mem _ member)

theorem keysNodup_foldl_insert {γ : Type} (items : List γ) (keyOf : γ → κ) (valOf : γ → α)
    {t : Table κ α} (distinct : t.KeysNodup) :
    (items.foldl (fun t x => t.insert (keyOf x) (valOf x)) t).KeysNodup := by
  induction items generalizing t with
  | nil => exact distinct
  | cons x rest ih => exact ih (keysNodup_insert distinct _ _)

omit [DecidableEq κ] in
theorem keysNodup_filter {t : Table κ α} (distinct : t.KeysNodup) (p : κ → α → Bool) :
    (t.filter p).KeysNodup :=
  List.Nodup.sublist (List.Sublist.map _ List.filter_sublist) distinct

omit [DecidableEq κ] in
theorem forall_filter {Q : κ × α → Prop} {t : Table κ α} (all : ∀ e ∈ t.entries, Q e)
    (p : κ × α → Bool) : ∀ e ∈ t.entries.filter p, Q e :=
  fun e member => all e (List.mem_filter.mp member).1

end Table

namespace Store

/-- A place in a link's index within the widths the file writes. -/
def ChainFits (k : LinkId × Nat × Nat) : Prop :=
  k.1.val < Ident.space ∧ k.2.1 ≤ Env.wordMax ∧ k.2.2 ≤ Env.wordMax

/-- A session and key id within the widths the file writes. -/
def RowFits (k : Ksid × KeyId) : Prop := k.1.val < Ident.space ∧ k.2.val < Ident.space

/-- The key of a place in a link's index. -/
def chainKey (k : LinkId × Nat × Nat) : List UInt8 := linkBlockKey k.1 k.2.1 k.2.2

/-- The key of a row or clear key. -/
def rowKey (k : Ksid × KeyId) : List UInt8 := sessionKey k.1 k.2

theorem ident_inj (a b : Ident) (ha : a.val < Ident.space) (hb : b.val < Ident.space)
    (same : a.toBytes = b.toBytes) : a = b := (Ident.toBytes_inj ha hb).mp same

theorem chainKey_inj (a b : LinkId × Nat × Nat) (ha : ChainFits a) (hb : ChainFits b)
    (same : chainKey a = chainKey b) : a = b := by
  obtain ⟨l, t, r⟩ := a
  obtain ⟨l', t', r'⟩ := b
  obtain ⟨rfl, rfl, rfl⟩ := (linkBlockKey_inj ha.1 hb.1 ha.2.1 ha.2.2 hb.2.1 hb.2.2).mp same
  rfl

theorem rowKey_inj (a b : Ksid × KeyId) (ha : RowFits a) (hb : RowFits b)
    (same : rowKey a = rowKey b) : a = b := by
  obtain ⟨k, i⟩ := a
  obtain ⟨k', i'⟩ := b
  obtain ⟨rfl, rfl⟩ := (sessionKey_inj ha.1 ha.2 hb.1 hb.2).mp same
  rfl

/-- The file that holds the records: every key written as its bytes, and the blocks a link's
index names written as their ids' bytes. -/
def toFile (s : Store) : FileStore where
  blocks := s.blocks.recode Ident.toBytes id
  linkBlocks := s.chain.recode chainKey Ident.toBytes
  links := s.links.recode Ident.toBytes id
  keyRows := s.rows.recode rowKey id
  localKeys := s.locals.recode rowKey id
  sessions := s.sessions.recode Ident.toBytes id

/-- The records stay within the widths the file writes: identifiers below `2 ^ 128`, times and
arrival numbers within a 64-bit word. Blocks, links and sessions are filed under their own ids,
and the tables read entry by entry file no key twice. -/
structure Bounded (s : Store) : Prop where
  blocks : ∀ e ∈ s.blocks.entries,
    e.2.id = e.1 ∧ e.1.val < Ident.space ∧ ChainFits (e.2.link, e.2.timestamp, e.2.arrival)
  blocksDistinct : s.blocks.KeysNodup
  chain : ∀ e ∈ s.chain.entries, ChainFits e.1 ∧ e.2.val < Ident.space
  links : ∀ e ∈ s.links.entries, e.2.link = e.1 ∧ e.1.val < Ident.space
  rows : ∀ e ∈ s.rows.entries, RowFits e.1
  rowsDistinct : s.rows.KeysNodup
  locals : ∀ e ∈ s.locals.entries, RowFits e.1
  localsDistinct : s.locals.KeysNodup
  sessions : ∀ e ∈ s.sessions.entries, e.2.ksid = e.1 ∧ e.1.val < Ident.space

theorem bounded_empty : ({} : Store).Bounded where
  blocks := by simp
  blocksDistinct := List.nodup_nil
  chain := by simp
  links := by simp
  rows := by simp
  rowsDistinct := List.nodup_nil
  locals := by simp
  localsDistinct := List.nodup_nil
  sessions := by simp

theorem toFile_empty : ({} : Store).toFile = {} := rfl

theorem sortedBy2_eq {α : Type} (key : α → Nat × Nat) (xs : List α) :
    sortedBy2 key xs =
      xs.mergeSort fun a b => (key a).1 < (key b).1 || ((key a).1 == (key b).1 && (key a).2 ≤ (key b).2) :=
  rfl

section Blocks

variable {s : Store} (bounded : s.Bounded)
include bounded

theorem Bounded.blockIds : ∀ e ∈ s.blocks.entries, e.1.val < Ident.space :=
  fun e member => (bounded.blocks e member).2.1

theorem Bounded.places : ∀ e ∈ s.chain.entries, ChainFits e.1 :=
  fun e member => (bounded.chain e member).1

theorem toFile_insertBlock {b : Block} (hid : b.id.val < Ident.space)
    (hplace : ChainFits (b.link, b.timestamp, b.arrival)) :
    s.toFile.insertBlock b = ((s.insertBlock b).1, (s.insertBlock b).2.toFile) := by
  have filed : s.toFile.blocks.contains b.id.toBytes = s.blocks.contains b.id :=
    Table.contains_recode ident_inj bounded.blockIds hid
  cases present : s.blocks.contains b.id
  · simp only [FileStore.insertBlock, Store.insertBlock, filed, present, Bool.false_eq_true, ↓reduceIte]
    simp only [toFile, Table.recode_insert ident_inj bounded.blockIds hid,
      Table.recode_insert chainKey_inj bounded.places hplace]
    rfl
  · simp only [FileStore.insertBlock, Store.insertBlock, filed, present, ↓reduceIte]

theorem Bounded.insertBlock {b : Block} (hid : b.id.val < Ident.space)
    (hplace : ChainFits (b.link, b.timestamp, b.arrival)) : (s.insertBlock b).2.Bounded := by
  unfold Store.insertBlock
  split
  · exact bounded
  · exact { bounded with
      blocks := Table.forall_insert bounded.blocks ⟨rfl, hid, hplace⟩
      blocksDistinct := Table.keysNodup_insert bounded.blocksDistinct _ _
      chain := Table.forall_insert bounded.chain ⟨hplace, hid⟩ }

theorem toFile_loadBlock {i : BlockId} (hid : i.val < Ident.space) :
    s.toFile.loadBlock i = s.loadBlock i := by
  simp only [FileStore.loadBlock, Store.loadBlock, toFile]
  rw [Table.get?_recode ident_inj bounded.blockIds hid, Option.map_id, id]

theorem toFile_updateBlock {b : Block} (hid : b.id.val < Ident.space) :
    s.toFile.updateBlock b = (s.updateBlock b).map toFile := by
  simp only [FileStore.updateBlock, Store.updateBlock]
  rw [show s.toFile.blocks = s.blocks.recode Ident.toBytes id from rfl,
    Table.get?_recode ident_inj bounded.blockIds hid]
  cases found : s.blocks.get? b.id with
  | none => rfl
  | some stored =>
    simp only [Option.map_some, id]
    split
    · rfl
    · rw [Table.modify_eq_insert bounded.blocksDistinct found]
      simp only [Except.map, toFile, Table.recode_insert ident_inj bounded.blockIds hid]
      rfl

theorem Bounded.updateBlock {b : Block} {after : Store} (written : s.updateBlock b = .ok after) :
    after.Bounded := by
  unfold Store.updateBlock at written
  cases found : s.blocks.get? b.id with
  | none => simp [found] at written
  | some stored =>
    simp only [found] at written
    split at written
    · cases written
    · cases written
      rw [Table.modify_eq_insert bounded.blocksDistinct found]
      have old := bounded.blocks _ (Table.mem_of_get? found)
      exact { bounded with
        blocks := Table.forall_insert bounded.blocks old
        blocksDistinct := Table.keysNodup_insert bounded.blocksDistinct _ _ }

theorem toFile_deleteBlock {i : BlockId} (hid : i.val < Ident.space) :
    s.toFile.deleteBlock i = (s.deleteBlock i).toFile := by
  simp only [FileStore.deleteBlock, Store.deleteBlock]
  rw [show s.toFile.blocks = s.blocks.recode Ident.toBytes id from rfl,
    Table.get?_recode ident_inj bounded.blockIds hid]
  cases found : s.blocks.get? i with
  | none => rfl
  | some b =>
    have place := (bounded.blocks _ (Table.mem_of_get? found)).2.2
    simp only [Option.map_some, toFile]
    rw [Table.recode_erase ident_inj bounded.blockIds hid, Table.recode_erase chainKey_inj bounded.places place]
    rfl

theorem Bounded.deleteBlock (i : BlockId) : (s.deleteBlock i).Bounded := by
  unfold Store.deleteBlock
  split
  · exact bounded
  · exact { bounded with
      blocks := Table.forall_filter bounded.blocks _
      blocksDistinct := Table.keysNodup_erase bounded.blocksDistinct _
      chain := Table.forall_filter bounded.chain _ }

/-- A link's index, read from its first key to its last, names the link's blocks oldest first:
the bytes of timestamp and arrival sort as the numbers do. -/
theorem toFile_blocksForLink {link : LinkId} (hlink : link.val < Ident.space) :
    s.toFile.blocksForLink link = s.blocksForLink link := by
  have range : ∀ e ∈ s.chain.entries,
      (decide (linkBlockKey link 0 0 ≤ chainKey e.1) &&
        decide (chainKey e.1 ≤ linkBlockKey link Env.wordMax Env.wordMax)) = decide (e.1.1 = link) := by
    intro e member
    have place := bounded.places e member
    rw [← Bool.decide_and, chainKey]
    exact decide_eq_decide.mpr (linkBlockKey_between hlink place.1 place.2.1 place.2.2)
  have order : ∀ a ∈ s.chain.entries.filter (fun e => decide (e.1.1 = link)),
      ∀ b ∈ s.chain.entries.filter (fun e => decide (e.1.1 = link)),
      (a.1.2.1 < b.1.2.1 || (a.1.2.1 == b.1.2.1 && a.1.2.2 ≤ b.1.2.2)) = decide (chainKey a.1 ≤ chainKey b.1) := by
    intro a ha b hb
    obtain ⟨ina, sa⟩ := List.mem_filter.mp ha
    obtain ⟨inb, sb⟩ := List.mem_filter.mp hb
    have pa := bounded.places a ina
    have pb := bounded.places b inb
    have older : chainKey a.1 ≤ chainKey b.1 ↔
        a.1.2.1 < b.1.2.1 ∨ (a.1.2.1 = b.1.2.1 ∧ a.1.2.2 ≤ b.1.2.2) := by
      rw [chainKey, chainKey, of_decide_eq_true sa, of_decide_eq_true sb]
      exact linkBlockKey_le_iff hlink pa.2.1 pa.2.2 pb.2.1 pb.2.2
    rw [Bool.eq_iff_iff, decide_eq_true_iff, older]
    simp
  simp only [FileStore.blocksForLink, Store.blocksForLink]
  rw [sortedBy2_eq]
  rw [show s.toFile.linkBlocks = s.chain.recode chainKey Ident.toBytes from rfl,
    Table.between_recode _ _ _ range order, List.filterMap_map]
  apply List.filterMap_congr
  intro e member
  have inside := (List.mem_filter.mp (List.mem_mergeSort.mp member)).1
  show (s.blocks.recode Ident.toBytes id).get? e.2.toBytes = s.blocks.get? e.2
  rw [Table.get?_recode ident_inj bounded.blockIds (bounded.chain e inside).2, Option.map_id, id]

end Blocks

/-- A table filed under its records' own ids, read in key order, gives its records by ascending
id. -/
theorem inOrder_filed {α : Type} (t : Table Ident α) (idOf : α → Ident)
    (filed : ∀ e ∈ t.entries, idOf e.2 = e.1 ∧ e.1.val < Ident.space) :
    (t.recode Ident.toBytes id).inOrder.map (·.2) = sortedBy (fun x => (idOf x).val) t.values := by
  have order : ∀ a ∈ t.entries, ∀ b ∈ t.entries,
      decide (a.1.val ≤ b.1.val) = decide (a.1.toBytes ≤ b.1.toBytes) := by
    intro a ha b hb
    exact decide_eq_decide.mpr (Ident.toBytes_le_iff (filed a ha).2 (filed b hb).2).symm
  have byId : ∀ a ∈ t.entries, ∀ b ∈ t.entries,
      decide (a.1.val ≤ b.1.val) = decide ((idOf a.2).val ≤ (idOf b.2).val) := by
    intro a ha b hb
    rw [(filed a ha).1, (filed b hb).1]
  rw [Table.inOrder_recode t Ident.toBytes id order, List.map_map, sortedBy, Table.values,
    ← List.map_mergeSort byId]
  rfl

section Links

variable {s : Store} (bounded : s.Bounded)
include bounded

theorem toFile_storeLink {l : LinkRecord} (hl : l.link.val < Ident.space) :
    s.toFile.storeLink l = (s.storeLink l).toFile := by
  have ids : ∀ e ∈ s.links.entries, e.1.val < Ident.space := fun e member => (bounded.links e member).2
  simp only [FileStore.storeLink, Store.storeLink, toFile, Table.recode_insert ident_inj ids hl]
  rfl

theorem Bounded.storeLink {l : LinkRecord} (hl : l.link.val < Ident.space) : (s.storeLink l).Bounded :=
  { bounded with links := Table.forall_insert bounded.links ⟨rfl, hl⟩ }

theorem toFile_listLinks : s.toFile.listLinks = s.listLinks :=
  inOrder_filed s.links (·.link) bounded.links

theorem toFile_linkByCompanion (companion : KmeId) :
    s.toFile.linkByCompanion companion = s.linkByCompanion companion := by
  rw [FileStore.linkByCompanion, Store.linkByCompanion, toFile_listLinks bounded]

end Links

section SessionRecords

variable {s : Store} (bounded : s.Bounded)
include bounded

theorem Bounded.sessionIds : ∀ e ∈ s.sessions.entries, e.1.val < Ident.space :=
  fun e member => (bounded.sessions e member).2

theorem toFile_storeSession {r : SessionRecord} (hr : r.ksid.val < Ident.space) :
    s.toFile.storeSession r = (s.storeSession r).toFile := by
  simp only [FileStore.storeSession, Store.storeSession, toFile,
    Table.recode_insert ident_inj bounded.sessionIds hr]
  rfl

theorem Bounded.storeSession {r : SessionRecord} (hr : r.ksid.val < Ident.space) :
    (s.storeSession r).Bounded :=
  { bounded with sessions := Table.forall_insert bounded.sessions ⟨rfl, hr⟩ }

theorem toFile_deleteSession {ksid : Ksid} (hs : ksid.val < Ident.space) :
    s.toFile.deleteSession ksid = (s.deleteSession ksid).toFile := by
  simp only [FileStore.deleteSession, Store.deleteSession, toFile,
    Table.recode_erase ident_inj bounded.sessionIds hs]

theorem Bounded.deleteSession (ksid : Ksid) : (s.deleteSession ksid).Bounded :=
  { bounded with sessions := Table.forall_filter bounded.sessions _ }

theorem toFile_listSessions : s.toFile.listSessions = s.listSessions :=
  inOrder_filed s.sessions (·.ksid) bounded.sessions

end SessionRecords

section SessionTables

variable {α : Type} {t : Table (Ksid × KeyId) α} {ksid : Ksid}

/-- A session's entries of a table filed by session and key id, by ascending key id. -/
def sessionEntries (t : Table (Ksid × KeyId) α) (ksid : Ksid) : List ((Ksid × KeyId) × α) :=
  (t.entries.filter fun e => decide (e.1.1 = ksid)).mergeSort fun a b => decide (a.1.2.val ≤ b.1.2.val)

theorem mem_sessionEntries {e : (Ksid × KeyId) × α} :
    e ∈ sessionEntries t ksid ↔ e ∈ t.entries ∧ e.1.1 = ksid := by
  simp [sessionEntries]

theorem sessionKeys_eq : sessionKeys t ksid = (sessionEntries t ksid).map (·.1) := by
  unfold sessionKeys sortedBy sessionEntries Table.keys
  rw [List.filter_map]
  exact (List.map_mergeSort (f := fun e : (Ksid × KeyId) × α => e.1) fun _ _ _ _ => rfl).symm

theorem filterMap_sessionKeys (distinct : t.KeysNodup) :
    (sessionKeys t ksid).filterMap t.get? = (sessionEntries t ksid).map (·.2) := by
  rw [sessionKeys_eq, List.filterMap_map, ← List.filterMap_eq_map']
  apply List.filterMap_congr
  intro e member
  exact Table.get?_of_mem distinct (mem_sessionEntries.mp member).1

variable (inside : ∀ e ∈ t.entries, RowFits e.1) (hs : ksid.val < Ident.space)
include inside hs

/-- The file's range of a session holds the session's entries, by ascending key id. -/
theorem between_session :
    (t.recode rowKey id).between (FileStore.sessionRange ksid).1 (FileStore.sessionRange ksid).2 =
      (sessionEntries t ksid).map (Prod.map rowKey id) := by
  have range : ∀ e ∈ t.entries, (decide (sessionKey ksid ⟨0⟩ ≤ rowKey e.1) &&
      decide (rowKey e.1 ≤ sessionKey ksid ⟨Ident.space - 1⟩)) = decide (e.1.1 = ksid) := by
    intro e member
    rw [← Bool.decide_and, rowKey]
    exact decide_eq_decide.mpr (sessionKey_between hs (inside e member).1 (inside e member).2)
  have order : ∀ a ∈ t.entries.filter (fun e => decide (e.1.1 = ksid)),
      ∀ b ∈ t.entries.filter (fun e => decide (e.1.1 = ksid)),
      decide (a.1.2.val ≤ b.1.2.val) = decide (rowKey a.1 ≤ rowKey b.1) := by
    intro a ha b hb
    obtain ⟨ina, sa⟩ := List.mem_filter.mp ha
    obtain ⟨inb, sb⟩ := List.mem_filter.mp hb
    have earlier : rowKey a.1 ≤ rowKey b.1 ↔ a.1.2.val ≤ b.1.2.val := by
      rw [rowKey, rowKey, of_decide_eq_true sa, of_decide_eq_true sb]
      exact sessionKey_le_iff hs (inside a ina).2 (inside b inb).2
    exact decide_eq_decide.mpr earlier.symm
  exact Table.between_recode t rowKey id range order

omit hs in
/-- Removing the keys of a session's entries from the file leaves the other sessions' entries. -/
theorem erase_session :
    ((sessionEntries t ksid).map (Prod.map rowKey id)).foldl (fun t e => t.erase e.1) (t.recode rowKey id) =
      (t.filter fun k _ => k.1 ≠ ksid).recode rowKey id := by
  rw [Table.foldl_erase]
  simp only [Table.recode, Table.filter, Table.mk.injEq, List.filter_map, List.map_map]
  congr 1
  apply List.filter_congr
  intro e member
  have taken : rowKey e.1 ∈ (sessionEntries t ksid).map ((·.1) ∘ Prod.map rowKey id) ↔ e.1.1 = ksid := by
    constructor
    · intro found
      obtain ⟨x, xin, same⟩ := List.mem_map.mp found
      obtain ⟨xentry, xs⟩ := mem_sessionEntries.mp xin
      rw [← rowKey_inj _ _ (inside x xentry) (inside e member) same]
      exact xs
    · intro es
      exact List.mem_map.mpr ⟨e, mem_sessionEntries.mpr ⟨member, es⟩, rfl⟩
  simp only [Function.comp_apply, Prod.map_fst, taken, ne_eq]

theorem takeEntries_all :
    FileStore.takeEntries (t.recode rowKey id) ksid false =
      ((sessionEntries t ksid).map (·.2), (t.filter fun k _ => k.1 ≠ ksid).recode rowKey id) := by
  simp only [FileStore.takeEntries, Bool.false_eq_true, ↓reduceIte]
  rw [between_session inside hs, erase_session inside, List.map_map]
  rfl

theorem takeEntries_first_nil (none : sessionEntries t ksid = []) :
    FileStore.takeEntries (t.recode rowKey id) ksid true = ([], t.recode rowKey id) := by
  simp only [FileStore.takeEntries, ↓reduceIte]
  rw [between_session inside hs, none]
  rfl

theorem takeEntries_first_cons {e : (Ksid × KeyId) × α} {rest : List ((Ksid × KeyId) × α)}
    (first : sessionEntries t ksid = e :: rest) :
    FileStore.takeEntries (t.recode rowKey id) ksid true = ([e.2], (t.erase e.1).recode rowKey id) := by
  have entry := (mem_sessionEntries.mp (first ▸ List.mem_cons_self : e ∈ sessionEntries t ksid)).1
  simp only [FileStore.takeEntries, ↓reduceIte]
  rw [between_session inside hs, first, Table.recode_erase rowKey_inj inside (inside e entry)]
  rfl

end SessionTables

section Rows

variable {s : Store} (bounded : s.Bounded)
include bounded

theorem toFile_storeRows {rows : List KeyRow} (each : ∀ r ∈ rows, RowFits (r.ksid, r.keyId)) :
    s.toFile.storeRows rows = (s.storeRows rows).toFile := by
  simp only [FileStore.storeRows, Store.storeRows, toFile,
    Table.recode_foldl_insert rowKey_inj rows (fun r => (r.ksid, r.keyId)) (fun r => r)
      bounded.rows each]
  rfl

theorem Bounded.storeRows {rows : List KeyRow} (each : ∀ r ∈ rows, RowFits (r.ksid, r.keyId)) :
    (s.storeRows rows).Bounded :=
  { bounded with
    rows := Table.forall_foldl_insert rows _ _ bounded.rows each
    rowsDistinct := Table.keysNodup_foldl_insert rows _ _ bounded.rowsDistinct }

theorem toFile_takeRow {ksid : Ksid} {key : KeyId} (hk : RowFits (ksid, key)) :
    s.toFile.takeRow ksid key = ((s.takeRow ksid key).1, (s.takeRow ksid key).2.toFile) := by
  simp only [FileStore.takeRow, Store.takeRow, toFile, Prod.mk.injEq]
  constructor
  · rw [show sessionKey ksid key = rowKey (ksid, key) from rfl,
      Table.get?_recode rowKey_inj bounded.rows hk, Option.map_id, id]
  · rw [Table.recode_erase rowKey_inj bounded.rows hk]
    rfl

theorem Bounded.takeRow (ksid : Ksid) (key : KeyId) : (s.takeRow ksid key).2.Bounded :=
  { bounded with
    rows := Table.forall_filter bounded.rows _
    rowsDistinct := Table.keysNodup_erase bounded.rowsDistinct _ }

theorem toFile_takeSessionRows {ksid : Ksid} (hs : ksid.val < Ident.space) :
    s.toFile.takeSessionRows ksid = ((s.takeSessionRows ksid).1, (s.takeSessionRows ksid).2.toFile) := by
  simp only [FileStore.takeSessionRows, Store.takeSessionRows]
  rw [show s.toFile.keyRows = s.rows.recode rowKey id from rfl, takeEntries_all bounded.rows hs,
    filterMap_sessionKeys bounded.rowsDistinct]
  rfl

theorem Bounded.takeSessionRows (ksid : Ksid) : (s.takeSessionRows ksid).2.Bounded :=
  { bounded with
    rows := Table.forall_filter bounded.rows _
    rowsDistinct := Table.keysNodup_filter bounded.rowsDistinct _ }

end Rows

section Locals

variable {s : Store} (bounded : s.Bounded)
include bounded

theorem toFile_storeLocals {keys : List LocalKey} (each : ∀ k ∈ keys, RowFits (k.ksid, k.keyId)) :
    s.toFile.storeLocals keys = (s.storeLocals keys).toFile := by
  simp only [FileStore.storeLocals, Store.storeLocals, toFile,
    Table.recode_foldl_insert rowKey_inj keys (fun k => (k.ksid, k.keyId)) (fun k => k)
      bounded.locals each]
  rfl

theorem Bounded.storeLocals {keys : List LocalKey} (each : ∀ k ∈ keys, RowFits (k.ksid, k.keyId)) :
    (s.storeLocals keys).Bounded :=
  { bounded with
    locals := Table.forall_foldl_insert keys _ _ bounded.locals each
    localsDistinct := Table.keysNodup_foldl_insert keys _ _ bounded.localsDistinct }

/-- Taking a session's first clear key reads the first entry of the session's range. -/
theorem toFile_takeLocal {ksid : Ksid} {key : Option KeyId} (hs : ksid.val < Ident.space)
    (hkey : ∀ k ∈ key, k.val < Ident.space) :
    s.toFile.takeLocal ksid key = ((s.takeLocal ksid key).1, (s.takeLocal ksid key).2.toFile) := by
  cases key with
  | some k =>
    have hk : RowFits (ksid, k) := ⟨hs, hkey k rfl⟩
    simp only [FileStore.takeLocal, Store.takeLocal, toFile, Prod.mk.injEq]
    constructor
    · rw [show sessionKey ksid k = rowKey (ksid, k) from rfl,
        Table.get?_recode rowKey_inj bounded.locals hk, Option.map_id, id]
    · rw [Table.recode_erase rowKey_inj bounded.locals hk]
      rfl
  | none =>
    simp only [FileStore.takeLocal, Store.takeLocal, sessionKeys_eq]
    rw [show s.toFile.localKeys = s.locals.recode rowKey id from rfl]
    cases first : sessionEntries s.locals ksid with
    | nil =>
      rw [takeEntries_first_nil bounded.locals hs first]
      rfl
    | cons e rest =>
      have entry := (mem_sessionEntries.mp (first ▸ List.mem_cons_self : e ∈ sessionEntries s.locals ksid)).1
      rw [takeEntries_first_cons bounded.locals hs first]
      simp only [List.map_cons, List.head?_cons, List.getLast?_singleton,
        Table.get?_of_mem bounded.localsDistinct entry]
      rfl

theorem Bounded.eraseLocal (slot : Ksid × KeyId) : { s with locals := s.locals.erase slot }.Bounded :=
  { bounded with
    locals := Table.forall_filter bounded.locals _
    localsDistinct := Table.keysNodup_erase bounded.localsDistinct _ }

theorem Bounded.takeLocal (ksid : Ksid) (key : Option KeyId) : (s.takeLocal ksid key).2.Bounded := by
  cases key with
  | some k => exact bounded.eraseLocal (ksid, k)
  | none =>
    cases first : (sessionKeys s.locals ksid).head? with
    | none =>
      simp only [Store.takeLocal, first]
      exact bounded
    | some slot =>
      simp only [Store.takeLocal, first]
      exact bounded.eraseLocal slot

theorem toFile_purgeLocals {ksid : Ksid} (hs : ksid.val < Ident.space) :
    s.toFile.purgeLocals ksid = ((s.purgeLocals ksid).1, (s.purgeLocals ksid).2.toFile) := by
  simp only [FileStore.purgeLocals, Store.purgeLocals]
  rw [show s.toFile.localKeys = s.locals.recode rowKey id from rfl, takeEntries_all bounded.locals hs,
    sessionKeys_eq, List.length_map, List.length_map]
  rfl

theorem Bounded.purgeLocals (ksid : Ksid) : (s.purgeLocals ksid).2.Bounded :=
  { bounded with
    locals := Table.forall_filter bounded.locals _
    localsDistinct := Table.keysNodup_filter bounded.localsDistinct _ }

theorem toFile_countSessionKeys {ksid : Ksid} (hs : ksid.val < Ident.space) :
    s.toFile.countSessionKeys ksid = s.countSessionKeys ksid := by
  simp only [FileStore.countSessionKeys, Store.countSessionKeys]
  rw [show s.toFile.keyRows = s.rows.recode rowKey id from rfl,
    show s.toFile.localKeys = s.locals.recode rowKey id from rfl,
    between_session bounded.rows hs, between_session bounded.locals hs, sessionKeys_eq, sessionKeys_eq]
  simp only [List.length_map]

end Locals

instance (k : LinkId × Nat × Nat) : Decidable (ChainFits k) := inferInstanceAs (Decidable (_ ∧ _ ∧ _))

instance (k : Ksid × KeyId) : Decidable (RowFits k) := inferInstanceAs (Decidable (_ ∧ _))

end Store

namespace StoreCall

open Store in
/-- The call's identifiers, times and arrival numbers lie within the widths the file writes. -/
def Fits : StoreCall → Prop
  | .insertBlock b => b.id.val < Ident.space ∧ ChainFits (b.link, b.timestamp, b.arrival)
  | .loadBlock i => i.val < Ident.space
  | .updateBlock b => b.id.val < Ident.space
  | .deleteBlock i => i.val < Ident.space
  | .blocksForLink link => link.val < Ident.space
  | .listBlocks => True
  | .storeLink l => l.link.val < Ident.space
  | .listLinks => True
  | .linkByCompanion _ => True
  | .storeKeyRows rows => ∀ r ∈ rows, RowFits (r.ksid, r.keyId)
  | .takeKeyRow ksid key => RowFits (ksid, key)
  | .takeSessionRows ksid => ksid.val < Ident.space
  | .storeLocalKeys keys => ∀ k ∈ keys, RowFits (k.ksid, k.keyId)
  | .takeLocalKey ksid key => ksid.val < Ident.space ∧ ∀ k ∈ key, k.val < Ident.space
  | .purgeLocalKeys ksid => ksid.val < Ident.space
  | .countSessionKeys ksid => ksid.val < Ident.space
  | .storeSession r => r.ksid.val < Ident.space
  | .deleteSession ksid => ksid.val < Ident.space
  | .listSessions => True

instance : DecidablePred Fits := fun c => by
  cases c <;> unfold Fits <;> infer_instance

end StoreCall

namespace Store

variable {s : Store} (bounded : s.Bounded)
include bounded

/-- One call answered from the file of the records gives the memory's reply and leaves the file
of the records the memory leaves. -/
theorem answer_toFile {c : StoreCall} (fits : c.Fits) :
    s.toFile.answer c = ((s.answer c).1, (s.answer c).2.toFile) := by
  cases c with
  | insertBlock b =>
    simp only [FileStore.answer, Store.answer, toFile_insertBlock bounded fits.1 fits.2]
    rfl
  | loadBlock i => simp only [FileStore.answer, Store.answer, toFile_loadBlock bounded fits]
  | updateBlock b =>
    simp only [FileStore.answer, Store.answer, toFile_updateBlock bounded fits]
    cases s.updateBlock b <;> rfl
  | deleteBlock i => simp only [FileStore.answer, Store.answer, toFile_deleteBlock bounded fits]
  | blocksForLink link => simp only [FileStore.answer, Store.answer, toFile_blocksForLink bounded fits]
  | listBlocks =>
    simp only [FileStore.answer, Store.answer, FileStore.listBlocks, Store.listBlocks]
    rw [show s.toFile.blocks = s.blocks.recode Ident.toBytes id from rfl,
      inOrder_filed s.blocks (·.id) fun e member => ⟨(bounded.blocks e member).1, bounded.blockIds e member⟩]
  | storeLink l => simp only [FileStore.answer, Store.answer, toFile_storeLink bounded fits]
  | listLinks => simp only [FileStore.answer, Store.answer, toFile_listLinks bounded]
  | linkByCompanion c => simp only [FileStore.answer, Store.answer, toFile_linkByCompanion bounded]
  | storeKeyRows rows => simp only [FileStore.answer, Store.answer, toFile_storeRows bounded fits]
  | takeKeyRow ksid key =>
    simp only [FileStore.answer, Store.answer, toFile_takeRow bounded fits]
    rfl
  | takeSessionRows ksid =>
    simp only [FileStore.answer, Store.answer, toFile_takeSessionRows bounded fits]
    rfl
  | storeLocalKeys keys => simp only [FileStore.answer, Store.answer, toFile_storeLocals bounded fits]
  | takeLocalKey ksid key =>
    simp only [FileStore.answer, Store.answer, toFile_takeLocal bounded fits.1 fits.2]
    rfl
  | purgeLocalKeys ksid =>
    simp only [FileStore.answer, Store.answer, toFile_purgeLocals bounded fits]
    rfl
  | countSessionKeys ksid => simp only [FileStore.answer, Store.answer, toFile_countSessionKeys bounded fits]
  | storeSession r => simp only [FileStore.answer, Store.answer, toFile_storeSession bounded fits]
  | deleteSession ksid => simp only [FileStore.answer, Store.answer, toFile_deleteSession bounded fits]
  | listSessions => simp only [FileStore.answer, Store.answer, toFile_listSessions bounded]

/-- Every call that fits the file's widths keeps the records within them. -/
theorem Bounded.answer {c : StoreCall} (fits : c.Fits) : (s.answer c).2.Bounded := by
  cases c with
  | insertBlock b => exact bounded.insertBlock fits.1 fits.2
  | updateBlock b =>
    simp only [Store.answer]
    cases written : s.updateBlock b with
    | error e => exact bounded
    | ok after => exact bounded.updateBlock written
  | deleteBlock i => exact bounded.deleteBlock i
  | storeLink l => exact bounded.storeLink fits
  | storeKeyRows rows => exact bounded.storeRows fits
  | takeKeyRow ksid key => exact bounded.takeRow ksid key
  | takeSessionRows ksid => exact bounded.takeSessionRows ksid
  | storeLocalKeys keys => exact bounded.storeLocals fits
  | takeLocalKey ksid key => exact bounded.takeLocal ksid key
  | purgeLocalKeys ksid => exact bounded.purgeLocals ksid
  | storeSession r => exact bounded.storeSession fits
  | deleteSession ksid => exact bounded.deleteSession ksid
  | loadBlock | blocksForLink | listBlocks | listLinks | linkByCompanion | countSessionKeys
  | listSessions => exact bounded

/-- From records within the widths, the file answers every sequence of fitting calls as the
memory does. -/
theorem replies_toFile {calls : List StoreCall} (fits : ∀ c ∈ calls, c.Fits) :
    s.toFile.replies calls = s.replies calls := by
  induction calls generalizing s with
  | nil => rfl
  | cons c rest ih =>
    have here := fits c (List.mem_cons_self ..)
    have later : ∀ c' ∈ rest, c'.Fits := fun c' member => fits c' (List.mem_cons_of_mem _ member)
    rw [FileStore.replies, Store.replies, answer_toFile bounded here, ih (bounded.answer here) later]

end Store

/-- A new file and new records in memory give the same replies to every sequence of calls whose
identifiers fit in sixteen bytes and whose times and arrival numbers fit in a 64-bit word. -/
theorem file_answers_as_memory (calls : List StoreCall) (fits : ∀ c ∈ calls, c.Fits) :
    FileStore.replies {} calls = Store.replies {} calls := by
  rw [← Store.toFile_empty]
  exact Store.replies_toFile Store.bounded_empty fits

/-- Two blocks of one link filed out of order, read back oldest first, and two clear keys of a
session, the lower id taken first. -/
theorem file_answers_as_memory_two_blocks_two_keys :
    let calls : List StoreCall :=
      [.insertBlock ⟨⟨1⟩, ⟨7⟩, 100, 0, [1, 2], 0, 0⟩, .insertBlock ⟨⟨2⟩, ⟨7⟩, 90, 1, [3], 0, 0⟩,
        .blocksForLink ⟨7⟩, .storeLocalKeys [⟨⟨5⟩, ⟨3⟩, ⟨[9]⟩, 0⟩, ⟨⟨5⟩, ⟨1⟩, ⟨[8]⟩, 0⟩],
        .takeLocalKey ⟨5⟩ none, .countSessionKeys ⟨5⟩]
    (∀ c ∈ calls, c.Fits) ∧ FileStore.replies {} calls = Store.replies {} calls :=
  ⟨by decide, file_answers_as_memory _ (by decide)⟩

end KeyRelay
