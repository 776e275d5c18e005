import KeyRelay.Proofs.ScalarRead

/-! Every value that fits its shape is read back from its bytes, and no strict prefix of its
bytes is read. `Holds depth shape v` says which values fit: numbers within their width, lengths
within 64 bits, records named as their fields and variants their enum has, nested no deeper than
`depth`. The reader takes its fuel down by one at every call, so the round trip is proved by
induction on the fuel: `ReadsBelow` is the hypothesis the readers of items and entries take from
it, and `readShape_step` is one step, with a lemma for each kind of shape. Since every reading
fails on a strict prefix whatever its fuel, the refusal of cut input holds at the fuel `readValue`
gives a prefix, which can be less than the whole value needed.
-/

namespace KeyRelay.Wire

open Cbor

/-! ### Fields and variants of a shape -/

theorem Fields.get?_of_names {fields : Fields} {i : Nat} {n : String} (named : fields.names[i]? = some n) :
    ∃ s, fields.get? i = some (n, s) ∧ s.size < fields.size := by
  -- on the number of fields, since `Fields` is one of three mutual types
  induction count : fields.length generalizing fields i with
  | zero =>
    cases fields with
    | nil => simp [Fields.names] at named
    | cons => simp [Fields.length] at count
  | succ k ih =>
    cases fields with
    | nil => simp [Fields.length] at count
    | cons n' s rest =>
      cases i with
      | zero =>
        simp only [Fields.names, List.getElem?_cons_zero, Option.some.injEq] at named
        exact ⟨s, by rw [named]; rfl, by simp [Fields.size]⟩
      | succ i =>
        simp only [Fields.names, List.getElem?_cons_succ] at named
        obtain ⟨s', found, smaller⟩ := ih named (by simpa [Fields.length] using count)
        exact ⟨s', found, by simp [Fields.size]; omega⟩

private theorem index?_go {n : String} {fields : Fields} {j : Nat} (distinct : fields.names.Nodup)
    (named : fields.names[j]? = some n) (i : Nat) : Fields.index?.go (.inl n) fields i = some (i + j) := by
  induction count : fields.length generalizing fields i j with
  | zero =>
    cases fields with
    | nil => simp [Fields.names] at named
    | cons => simp [Fields.length] at count
  | succ k ih =>
    cases fields with
    | nil => simp [Fields.length] at count
    | cons n' s rest =>
      simp only [Fields.names, List.nodup_cons] at distinct named
      rw [Fields.index?.go]
      cases j with
      | zero =>
        simp only [List.getElem?_cons_zero, Option.some.injEq] at named
        simp [Key.is, named]
      | succ j =>
        simp only [List.getElem?_cons_succ] at named
        have other : n' ≠ n := fun same => distinct.1 (same ▸ List.mem_of_getElem? named)
        rw [ih distinct.2 named (i + 1) (by simpa [Fields.length] using count)]
        simp [Key.is, Ne.symm other]
        omega

theorem Fields.index?_of_names {n : String} {fields : Fields} {j : Nat} (distinct : fields.names.Nodup)
    (named : fields.names[j]? = some n) : fields.index? (.inl n) = some j := by
  rw [Fields.index?, index?_go distinct named 0, Nat.zero_add]

/-- The fields read so far: the field at index `i` was read as the `i`-th value. -/
def Recorded (seen : List (Nat × Value)) (values : List Value) : Prop :=
  ∀ i, (seen.find? (·.1 == i)).map (·.2) = values[i]?

theorem recorded_nil : Recorded [] [] := fun _ => rfl

theorem Recorded.snoc {seen : List (Nat × Value)} {values : List Value} (recorded : Recorded seen values)
    (v : Value) : Recorded (seen ++ [(values.length, v)]) (values ++ [v]) := by
  intro i
  have before := recorded i
  rw [List.find?_append]
  rcases Nat.lt_trichotomy i values.length with lt | rfl | gt
  · rw [List.getElem?_append_left lt, ← before]
    cases found : seen.find? (·.1 == i) with
    | none => rw [found] at before; simp [List.getElem?_eq_getElem lt] at before
    | some x => rfl
  · rw [List.getElem?_concat_length]
    rw [List.getElem?_eq_none (le_refl _)] at before
    cases found : seen.find? (·.1 == values.length) with
    | none => simp
    | some x => rw [found] at before; cases before
  · rw [List.getElem?_eq_none (by simp; omega)]
    rw [List.getElem?_eq_none (by omega)] at before
    cases found : seen.find? (·.1 == i) with
    | none => simp [show ¬ values.length = i by omega]
    | some x => rw [found] at before; cases before

theorem Recorded.any {seen : List (Nat × Value)} {values : List Value} (recorded : Recorded seen values)
    (i : Nat) : seen.any (·.1 == i) = decide (i < values.length) := by
  have found := recorded i
  rw [Bool.eq_iff_iff, List.any_eq_true, decide_eq_true_iff]
  constructor
  · rintro ⟨x, mem, same⟩
    cases none : seen.find? (·.1 == i) with
    | none => exact absurd same (by simpa using List.find?_eq_none.mp none x mem)
    | some y => rw [none] at found; exact (List.getElem?_eq_some_iff.mp found.symm).1
  · intro lt
    rw [List.getElem?_eq_getElem lt] at found
    cases some : seen.find? (·.1 == i) with
    | none => rw [some] at found; cases found
    | some y => exact ⟨y, List.mem_of_find?_eq_some some, by simpa using List.find?_some some⟩

/-- Completing a record from recorded fields gives the fields in order with their values. -/
theorem complete_recorded {seen : List (Nat × Value)} {values : List Value} (recorded : Recorded seen values) :
    ∀ (fields : Fields) (k : Nat), values.length = k + fields.length →
      complete fields k seen = pure (fields.names.zip (values.drop k)) := by
  intro fields
  induction count : fields.length generalizing fields with
  | zero =>
    intro k _
    cases fields with
    | nil => rfl
    | cons => simp [Fields.length] at count
  | succ m ih =>
    intro k len
    cases fields with
    | nil => simp [Fields.length] at count
    | cons name shape rest =>
      have present : k < values.length := by omega
      have found := recorded k
      rw [List.getElem?_eq_getElem present] at found
      unfold complete
      simp only [found, pure_bind]
      rw [ih rest (by simpa [Fields.length] using count) (k + 1) (by omega),
        pure_bind, Fields.names, List.drop_eq_getElem_cons present, List.zip_cons_cons]

/-- The variant found by a name, with the size of its body below the enum's. -/
theorem Variants.find?_spec {name : String} {variants : Variants} {body : Body}
    (found : variants.find? name = some body) :
    name ∈ variants.names ∧ (∀ s, body = .newtype s → s.size < variants.size) ∧
      (∀ fs, body = .struct fs → fs.size < variants.size) := by
  induction count : variants.names.length generalizing variants with
  | zero =>
    cases variants <;> simp [Variants.names, Variants.find?] at count found
  | succ k ih =>
    cases variants with
    | nil => simp [Variants.find?] at found
    | unit n rest | newtype n _ rest | struct n _ rest =>
      -- the head's name, or the rest's lookup with the sizes lifted over the head
      rw [Variants.find?] at found
      split_ifs at found with same
      · cases found
        simp [Variants.names, Variants.size, same]
      · obtain ⟨mem, newtype, struct⟩ := ih found (by simpa [Variants.names] using count)
        exact ⟨by simp [Variants.names, mem], fun s h => by have := newtype s h; simp [Variants.size]; omega,
          fun fs h => by have := struct fs h; simp [Variants.size]; omega⟩

theorem find?_is_self {name : String} {names : List String} (mem : name ∈ names) :
    names.find? (Key.is (.inl name)) = some name := by
  induction names with
  | nil => cases mem
  | cons n rest ih =>
    by_cases same : name = n
    · simp [Key.is, same]
    · rw [List.find?_cons_of_neg (by simpa [Key.is] using same)]
      exact ih (List.mem_of_ne_of_mem same mem)

/-! ### A held head reads as the bytes it was read from -/

section Held

variable {α β : Type} {h : Head} (fits : h.Fits) (r : List UInt8) (off : Nat)
include fits

theorem pull_bind_held (k : Head → ReadM α) : (pull >>= k) ⟨r, off, some h⟩ = (pull >>= k) ⟨h.encode ++ r, off, none⟩ := by
  rw [bind_ok (pull_held h r off), bind_ok (pull_encode fits r off)]

omit fits in
theorem bind_congr_state {m : ReadM α} {k : α → ReadM β} {s s' : Reader} (same : m s = m s') :
    (m >>= k) s = (m >>= k) s' := by
  show Except.bind (m s) _ = Except.bind (m s') _
  rw [same]

theorem offset_pull_held (k : Nat → Head → ReadM α) :
    (offset >>= fun o => pull >>= k o) ⟨r, off, some h⟩ =
      (offset >>= fun o => pull >>= k o) ⟨h.encode ++ r, off, none⟩ :=
  pull_bind_held fits r off (k off)

/-- Every reader of a shape starts by taking a head, so a head put back reads as its bytes. -/
theorem readShape_held (g depth : Nat) (shape : Shape) :
    readShape g depth shape ⟨r, off, some h⟩ = readShape g depth shape ⟨h.encode ++ r, off, none⟩ := by
  -- a reader with no fuel left fails alike on both
  rcases g with _ | f
  · rw [readShape]; rfl
  cases shape <;> rw [readShape] <;> cases f <;> try rfl
  · exact bind_congr_state (by rw [readBool]; exact offset_pull_held fits r off _)
  all_goals try exact bind_congr_state (by rw [readInteger]; exact pull_bind_held fits r off _)
  · exact bind_congr_state (by rw [readReal]; exact pull_bind_held fits r off _)
  · exact bind_congr_state (by rw [readTextItem]; exact pull_bind_held fits r off _)
  · rw [readSeq]; rfl
  · rw [readSeq]; exact pull_bind_held fits r off _
  · exact pull_bind_held fits r off _
  · exact pull_bind_held fits r off _
  · rw [readRecord]; rfl
  · rw [readRecord]; exact pull_bind_held fits r off _
  · rw [readEnum]; rfl
  · rw [readEnum]; exact pull_bind_held fits r off _

end Held

/-! ### Values of a shape -/

/-- The entries of a record value are named as the fields of its shape, in order, under distinct
names short enough to be read as keys, and there are fewer than `2 ^ 64` of them. -/
structure Fields.Named (fields : Fields) (entries : List (String × Value)) : Prop where
  names : entries.map Prod.fst = fields.names
  distinct : fields.names.Nodup
  short : ∀ n ∈ fields.names, (Utf8.encode n).length ≤ pieceSize
  count : entries.length < 2 ^ 64

/-- A value the reader takes back as a value of `shape` while it may still enter `depth` arrays,
maps and variants: numbers within the shape's width, lengths within 64 bits, records named as
their shape's fields, and variants that their enum has. -/
inductive Holds : Nat → Shape → Value → Prop
  | bool (depth : Nat) (b : Bool) : Holds depth .bool (.bool b)
  | word {depth bits n : Nat} (fits : n < 2 ^ bits) (word : n < 2 ^ 64) : Holds depth (.word bits) (.nat n)
  | machineWord {depth n : Nat} (word : n < 2 ^ 64) : Holds depth .machineWord (.nat n)
  | wide {depth n : Nat} (wide : n < 2 ^ 128) : Holds depth .wide (.nat n)
  | real (depth : Nat) (bits : UInt64) : Holds depth .real (.real bits)
  | text {depth : Nat} {s : String} (fits : (Utf8.encode s).length < 2 ^ 64) : Holds depth .text (.text s)
  | seq {depth : Nat} {item : Shape} {items : List Value} (count : items.length < 2 ^ 64)
      (each : ∀ v ∈ items, Holds depth item v) : Holds (depth + 1) (.seq item) (.seq items)
  | null (depth : Nat) (inner : Shape) : Holds depth (.option inner) .null
  | some {depth : Nat} {inner : Shape} {v : Value} (present : v ≠ .null) (holds : Holds depth inner v) :
      Holds depth (.option inner) v
  | record {depth : Nat} {name : String} {fields : Fields} {entries : List (String × Value)}
      (named : fields.Named entries)
      (each : ∀ i n s v, fields.get? i = some (n, s) → entries[i]? = some (n, v) → Holds depth s v) :
      Holds (depth + 1) (.record name fields) (.record entries)
  | unitVariant {depth : Nat} {enum name : String} {variants : Variants}
      (found : variants.find? name = some .unit) (short : (Utf8.encode name).length ≤ pieceSize) :
      Holds (depth + 1) (.enum enum variants) (.unitVariant name)
  | newtypeVariant {depth : Nat} {enum name : String} {variants : Variants} {s : Shape} {body : Value}
      (found : variants.find? name = some (.newtype s)) (short : (Utf8.encode name).length ≤ pieceSize)
      (holds : Holds depth s body) : Holds (depth + 1) (.enum enum variants) (.newtypeVariant name body)
  | structVariant {depth : Nat} {enum name : String} {variants : Variants} {fields : Fields}
      {entries : List (String × Value)} (found : variants.find? name = some (.struct fields))
      (short : (Utf8.encode name).length ≤ pieceSize) (named : fields.Named entries)
      (each : ∀ i n s v, fields.get? i = some (n, s) → entries[i]? = some (n, v) → Holds depth s v) :
      Holds (depth + 2) (.enum enum variants) (.structVariant name entries)

/-- Every value is written as a head the reader can take, then what follows it; only the absent
value is written as a null. -/
theorem Holds.head {depth : Nat} {shape : Shape} {v : Value} (holds : Holds depth shape v) :
    ∃ (h : Head) (tail : List UInt8), h.Fits ∧ v.encode = h.encode ++ tail ∧
      (v ≠ .null → h ≠ .simple simpleNull ∧ h ≠ .simple simpleUndefined) := by
  induction holds with
  | bool _ b =>
    exact ⟨.simple (if b then simpleTrue else simpleFalse), [], .simple (by cases b <;> decide),
      by simp [Value.encode], fun _ => by cases b <;> decide⟩
  | word _ word | machineWord word => exact ⟨_, [], .unsigned word, by simp [Value.encode, natBytes_small word], by simp⟩
  | @wide _ n wide =>
    by_cases small : n < 2 ^ 64
    · exact ⟨_, [], .unsigned small, by simp [Value.encode, natBytes_small small], by simp⟩
    · exact ⟨.tag tagBigPositive, Head.encode (.bytes (Option.some ((bigEndian 16 n).dropWhile (· == 0)).length)) ++
        (bigEndian 16 n).dropWhile (· == 0), .tag (by decide), by simp [Value.encode, natBytes_big small], by simp⟩
  | real _ bits => exact ⟨_, [], .float bits, by simp [Value.encode], by simp⟩
  | @text _ s fits => exact ⟨_, Utf8.encode s, .text (length_fits fits), by simp [Value.encode, textBytes], by simp⟩
  | @seq _ _ items count _ _ =>
    exact ⟨_, encodeItems items, .array (length_fits count), by simp [Value.encode], by simp⟩
  | null => exact ⟨.simple simpleNull, [], .simple (by decide), by simp [Value.encode], fun absent => absurd rfl absent⟩
  | some present _ ih => exact ih
  | @record _ _ _ entries named _ _ =>
    exact ⟨_, encodeFields entries, .map (length_fits named.count), by simp [Value.encode], by simp⟩
  | @unitVariant _ _ name _ _ short =>
    exact ⟨.text (Option.some (Utf8.encode name).length), Utf8.encode name,
      .text (length_fits (by simp only [pieceSize] at short; omega)),
      by simp [Value.encode, textBytes], by simp⟩
  | @newtypeVariant _ _ name _ _ body _ _ _ _ =>
    exact ⟨.map (Option.some 1), textBytes name ++ body.encode, .map (length_fits (by decide)), by simp [Value.encode, List.append_assoc],
      by simp⟩
  | @structVariant _ _ name _ fields entries _ _ _ _ _ =>
    exact ⟨.map (Option.some 1), textBytes name ++ Head.encode (.map (Option.some entries.length)) ++ encodeFields entries,
      .map (length_fits (by decide)), by simp [Value.encode, List.append_assoc], by simp⟩

theorem Holds.encode_pos {depth : Nat} {shape : Shape} {v : Value} (holds : Holds depth shape v) :
    0 < v.encode.length := by
  obtain ⟨h, tail, fits, written, -⟩ := holds.head
  obtain ⟨b, digits, first, -, -⟩ := Head.encode_cons fits
  simp [written, first]

theorem Fields.length_names (fields : Fields) : fields.names.length = fields.length := by
  induction count : fields.length generalizing fields with
  | zero => cases fields <;> simp_all [Fields.names, Fields.length]
  | succ k ih =>
    cases fields with
    | nil => simp [Fields.length] at count
    | cons n s rest =>
      simp only [Fields.names, Fields.length, List.length_cons] at count ⊢
      rw [ih rest (by omega)]

theorem Fields.Named.length {fields : Fields} {entries : List (String × Value)} (named : fields.Named entries) :
    entries.length = fields.length := by
  rw [← Fields.length_names, ← named.names, List.length_map]

theorem Head.encode_pos {h : Head} (fits : h.Fits) : 0 < h.encode.length := by
  obtain ⟨b, digits, first, -, -⟩ := Head.encode_cons fits
  simp [first]

/-! ### Reading a value back -/

/-- The round trip for every value of every shape with less fuel than `fuel`: the hypothesis the
readers of items and entries take from the induction on fuel. -/
def ReadsBelow (fuel : Nat) : Prop :=
  ∀ g < fuel, ∀ low depth shape v, Holds depth shape v →
    Reads (4 * v.encode.length + shape.size < g) low (readShape g depth shape) v.encode v

theorem ReadsBelow.mono {fuel fuel' : Nat} (below : ReadsBelow fuel) (le : fuel' ≤ fuel) : ReadsBelow fuel' :=
  fun g lt => below g (by omega)

theorem nextItem_zero : nextItem (some 0) = pure none := rfl

theorem nextItem_succ (k : Nat) : nextItem (some (k + 1)) = pure (some (some k)) := rfl

theorem enter_succ (depth : Nat) : enter (depth + 1) = pure depth := rfl

theorem readItems_reads {depth : Nat} {item : Shape} (items : List Value) :
    ∀ g, (∀ v ∈ items, Holds depth item v) → ReadsBelow g → ∀ low,
      Reads (4 * (encodeItems items).length + item.size + 1 < g) low
        (readItems g depth item (some items.length)) (encodeItems items) items := by
  induction items with
  | nil =>
    intro g _ _ low
    rcases g with _ | g
    · exact Reads.fail (by omega) fun _ => ⟨_, by rw [readItems]; rfl⟩
    rw [readItems, List.length_nil, nextItem_zero, pure_bind]
    exact Reads.pure
  | cons v rest ih =>
    intro g each below low
    rcases g with _ | g
    · exact Reads.fail (by omega) fun _ => ⟨_, by rw [readItems]; rfl⟩
    have first := each v List.mem_cons_self
    have positive := first.encode_pos
    rw [readItems, List.length_cons, nextItem_succ, pure_bind, encodeItems]
    -- the first item and the rest each get the fuel the whole list had
    apply Reads.bind ((below g (by omega) low depth item v first).weaken fun bound => by
      simp only [List.length_append] at bound; omega)
    have more := ih g (fun w mem => each w (List.mem_cons_of_mem v mem)) (below.mono (by omega)) (low + v.encode.length)
    exact Reads.bind_pure (more.weaken fun bound => by simp only [List.length_append] at bound; omega) rfl

theorem zip_fst_snd {α β : Type} (l : List (α × β)) : (l.map Prod.fst).zip (l.map Prod.snd) = l := by
  rw [← List.unzip_fst, ← List.unzip_snd, List.zip_unzip]

theorem textBytes_pos (name : String) : 0 < (textBytes name).length := by
  simp [textBytes, Head.encode, lengthArgument, argument_eq]
  split_ifs <;> simp

/-- The entries of a record's map, read in order: each name is the key of the next field, read
once, and the record is completed from the values read. -/
theorem readEntries_reads {depth : Nat} {target : Target} {entries : List (String × Value)}
    (named : target.fields.Named entries)
    (each : ∀ i n s v, target.fields.get? i = some (n, s) → entries[i]? = some (n, v) → Holds depth s v)
    (post : List (String × Value)) :
    ∀ (pre : List (String × Value)) (seen : List (Nat × Value)) (g : Nat), entries = pre ++ post →
      Recorded seen (pre.map Prod.snd) → ReadsBelow g → ∀ low,
        Reads (4 * (encodeFields post).length + target.fields.size < g) low
          (readEntries g depth target (some post.length) seen) (encodeFields post) entries := by
  induction post with
  | nil =>
    intro pre seen g whole recorded _ low
    rcases g with _ | g
    · exact Reads.fail (by omega) fun _ => ⟨_, by rw [readEntries]; rfl⟩
    rw [List.append_nil] at whole
    subst whole
    have len : (entries.map Prod.snd).length = 0 + target.fields.length := by
      rw [List.length_map, named.length, Nat.zero_add]
    rw [readEntries, List.length_nil, nextItem_zero, pure_bind, complete_recorded recorded _ 0 len,
      List.drop_zero, ← named.names, zip_fst_snd]
    exact Reads.pure
  | cons entry post ih =>
    intro pre seen g whole recorded below low
    obtain ⟨n, v⟩ := entry
    rcases g with _ | g
    · exact Reads.fail (by omega) fun _ => ⟨_, by rw [readEntries]; rfl⟩
    -- the next entry is field number `pre.length`
    have namedAt : target.fields.names[pre.length]? = some n := by
      rw [← named.names, whole]; simp
    obtain ⟨s, get, smaller⟩ := Fields.get?_of_names namedAt
    have holds : Holds depth s v := each _ n s v get (by rw [whole]; simp)
    have short := named.short n (List.mem_of_getElem? namedAt)
    have fresh : seen.any (·.1 == pre.length) = false := by
      rw [recorded.any]; simp
    have positive := holds.encode_pos
    have key := textBytes_pos n
    rw [readEntries, List.length_cons, nextItem_succ, pure_bind, encodeFields, List.append_assoc]
    apply Reads.bind ((readKey_reads short g).weaken fun bound => by
      simp only [List.length_append] at bound; omega)
    rw [Fields.index?_of_names named.distinct namedAt]
    simp only [get, Option.getD_some, fresh, Bool.false_eq_true, ↓reduceIte]
    apply Reads.bind ((below g (by omega) _ depth s v holds).weaken fun bound => by
      simp only [List.length_append] at bound; omega)
    have next : Recorded (seen ++ [(pre.length, v)]) ((pre ++ [(n, v)]).map Prod.snd) := by
      simpa using recorded.snoc v
    have more := ih (pre ++ [(n, v)]) _ g (by simp [whole]) next (below.mono (by omega))
      (low + (textBytes n).length + v.encode.length)
    exact more.weaken fun bound => by simp only [List.length_append] at bound; omega

theorem readShape_reads_held {enough : Prop} {low g depth : Nat} {shape : Shape} {h : Head} (fits : h.Fits)
    {tail : List UInt8} {v : Value} (reads : Reads enough low (readShape g depth shape) (h.encode ++ tail) v) :
    ReadsHeld enough low h (readShape g depth shape) tail v where
  run rest off le := by
    rw [readShape_held fits, ← List.append_assoc, Nat.add_assoc, ← List.length_append]
    exact reads.run rest off le
  cut p off le hp short := by
    rw [readShape_held fits]
    exact reads.cut (h.encode ++ p) off le ((List.prefix_append_right_inj _).mpr hp) (by simp; omega)

section Cases

variable {low depth : Nat}

theorem readShape_bool (b : Bool) (g : Nat) :
    Reads (2 ≤ g) low (readShape g depth .bool) (Value.bool b).encode (.bool b) := by
  rcases g with _ | f
  · exact Reads.fail (by omega) fun _ => ⟨_, by rw [readShape]; rfl⟩
  rw [readShape, Value.encode]
  exact ((readBool_reads b f).weaken fun bound => by omega).map Value.bool

theorem readShape_word {bits n : Nat} (fits : n < 2 ^ bits) (word : n < 2 ^ 64) (g : Nat) :
    Reads (2 ≤ g) low (readShape g depth (.word bits)) (Value.nat n).encode (.nat n) := by
  rcases g with _ | f
  · exact Reads.fail (by omega) fun _ => ⟨_, by rw [readShape]; rfl⟩
  have large : ¬ Nat.pow 2 64 ≤ n := by rw [Nat.pow_eq]; omega
  have notWide : ¬ 2 ^ bits ≤ n := by omega
  rw [readShape, Value.encode, natBytes_small word]
  apply Reads.bind_pure ((readInteger_small word f).weaken fun bound => by omega)
  simp [large, notWide]

theorem readShape_machineWord {n : Nat} (word : n < 2 ^ 64) (g : Nat) :
    Reads (2 ≤ g) low (readShape g depth .machineWord) (Value.nat n).encode (.nat n) := by
  rcases g with _ | f
  · exact Reads.fail (by omega) fun _ => ⟨_, by rw [readShape]; rfl⟩
  have large : ¬ Nat.pow 2 64 ≤ n := by rw [Nat.pow_eq]; omega
  rw [readShape, Value.encode, natBytes_small word]
  apply Reads.bind_pure ((readInteger_small word f).weaken fun bound => by omega)
  simp [large]

theorem readShape_wide {n : Nat} (wide : n < 2 ^ 128) (g : Nat) :
    Reads (3 ≤ g) low (readShape g depth .wide) (Value.nat n).encode (.nat n) := by
  rcases g with _ | f
  · exact Reads.fail (by omega) fun _ => ⟨_, by rw [readShape]; rfl⟩
  rw [readShape, Value.encode]
  by_cases small : n < 2 ^ 64
  · rw [natBytes_small small]
    exact Reads.bind_pure ((readInteger_small small f).weaken fun bound => by omega) rfl
  · exact Reads.bind_pure ((readInteger_big small wide f).weaken fun bound => by omega) rfl

theorem readShape_real (bits : UInt64) (g : Nat) :
    Reads (2 ≤ g) low (readShape g depth .real) (Value.real bits).encode (.real bits) := by
  rcases g with _ | f
  · exact Reads.fail (by omega) fun _ => ⟨_, by rw [readShape]; rfl⟩
  rw [readShape, Value.encode]
  exact ((readReal_reads bits f).weaken fun bound => by omega).map Value.real

theorem readShape_text {s : String} (fits : (Utf8.encode s).length < 2 ^ 64) (g : Nat) :
    Reads (3 ≤ g) low (readShape g depth .text) (Value.text s).encode (.text s) := by
  rcases g with _ | f
  · exact Reads.fail (by omega) fun _ => ⟨_, by rw [readShape]; rfl⟩
  rw [readShape, Value.encode]
  exact ((readTextItem_reads fits f).weaken fun bound => by omega).map Value.text

theorem readShape_null (inner : Shape) (g : Nat) :
    Reads (1 ≤ g) low (readShape g depth (.option inner)) Value.null.encode .null := by
  rcases g with _ | f
  · exact Reads.fail (by omega) fun _ => ⟨_, by rw [readShape]; rfl⟩
  rw [readShape, Value.encode]
  exact Reads.bind_pure (Reads.pull (.simple (by decide))) (by simp)

theorem readShape_some {enough : Prop} {inner : Shape} {v : Value} {h : Head} {tail : List UInt8} (fits : h.Fits)
    (written : v.encode = h.encode ++ tail) (notNull : h ≠ .simple simpleNull)
    (notUndefined : h ≠ .simple simpleUndefined) {f : Nat}
    (reads : Reads enough low (readShape f depth inner) v.encode v) :
    Reads enough low (readShape (f + 1) depth (.option inner)) v.encode v := by
  rw [readShape, written]
  apply Reads.bind (Reads.pull fits)
  rw [if_neg (by simp [notNull, notUndefined])]
  apply Reads.push
  rw [written] at reads
  exact readShape_reads_held fits reads

theorem readShape_seq {item : Shape} {items : List Value} (count : items.length < 2 ^ 64)
    (each : ∀ v ∈ items, Holds depth item v) {g : Nat} (below : ReadsBelow g) :
    Reads (4 * (Value.seq items).encode.length + (Shape.seq item).size < g) low
      (readShape g (depth + 1) (.seq item)) (Value.seq items).encode (.seq items) := by
  rcases g with _ | f
  · exact Reads.fail (by omega) fun _ => ⟨_, by rw [readShape]; rfl⟩
  rw [readShape]
  rcases f with _ | f
  · exact Reads.fail (by simp [Shape.size]) fun _ => ⟨_, by rw [readSeq]; rfl⟩
  have fits : Head.Fits (.array (some items.length)) := .array (length_fits count)
  have head := Head.encode_pos fits
  rw [readSeq, Value.encode]
  apply Reads.bind (Reads.pull fits)
  dsimp only
  rw [enter_succ, pure_bind]
  have items := readItems_reads items f each (below.mono (by omega)) (low + (Head.array (some items.length)).encode.length)
  exact (items.map Value.seq).weaken fun bound => by simp only [Shape.size, List.length_append] at bound; omega

theorem readShape_record {name : String} {fields : Fields} {entries : List (String × Value)}
    (named : fields.Named entries)
    (each : ∀ i n s v, fields.get? i = some (n, s) → entries[i]? = some (n, v) → Holds depth s v)
    {g : Nat} (below : ReadsBelow g) :
    Reads (4 * (Value.record entries).encode.length + (Shape.record name fields).size < g) low
      (readShape g (depth + 1) (.record name fields)) (Value.record entries).encode (.record entries) := by
  rcases g with _ | f
  · exact Reads.fail (by omega) fun _ => ⟨_, by rw [readShape]; rfl⟩
  rw [readShape]
  rcases f with _ | f
  · exact Reads.fail (by simp [Shape.size]) fun _ => ⟨_, by rw [readRecord]; rfl⟩
  have fits : Head.Fits (.map (some entries.length)) := .map (length_fits named.count)
  have head := Head.encode_pos fits
  rw [readRecord, Value.encode]
  apply Reads.bind (Reads.pull fits)
  dsimp only
  rw [enter_succ, pure_bind]
  have read := @readEntries_reads depth ⟨"struct " ++ name, fields⟩ entries named each entries [] [] f (by simp)
    recorded_nil (below.mono (by omega)) (low + (Head.map (some entries.length)).encode.length)
  exact (read.map Value.record).weaken fun bound => by
    simp only [Shape.size, List.length_append] at bound ⊢; omega

theorem readShape_unitVariant {enum name : String} {variants : Variants} (found : variants.find? name = some .unit)
    (short : (Utf8.encode name).length ≤ pieceSize) (g : Nat) :
    Reads (4 ≤ g) low (readShape g (depth + 1) (.enum enum variants)) (Value.unitVariant name).encode
      (.unitVariant name) := by
  rcases g with _ | f
  · exact Reads.fail (by omega) fun _ => ⟨_, by rw [readShape]; rfl⟩
  rw [readShape]
  rcases f with _ | f
  · exact Reads.fail (by omega) fun _ => ⟨_, by rw [readEnum]; rfl⟩
  have fits : Head.Fits (.text (some (Utf8.encode name).length)) :=
    .text (length_fits (by simp only [pieceSize] at short; omega))
  rw [readEnum, Value.encode, textBytes]
  apply Reads.bind (Reads.pull fits)
  apply Reads.push
  rcases f with _ | f
  · exact ReadsHeld.fail (by omega) fun _ => ⟨_, by rw [readVariant]; rfl⟩
  rw [readVariant, enter_succ, pure_bind]
  have mem := (Variants.find?_spec found).1
  exact ReadsHeld.bind_pure ((readKey_held short f).weaken fun bound => by omega)
    (by simp [find?_is_self mem, found])

theorem readShape_newtypeVariant {enum name : String} {variants : Variants} {s : Shape} {body : Value}
    (found : variants.find? name = some (.newtype s)) (short : (Utf8.encode name).length ≤ pieceSize)
    (holds : Holds depth s body) {g : Nat} (below : ReadsBelow g) :
    Reads (4 * (Value.newtypeVariant name body).encode.length + (Shape.enum enum variants).size < g) low
      (readShape g (depth + 1) (.enum enum variants)) (Value.newtypeVariant name body).encode
      (.newtypeVariant name body) := by
  obtain ⟨mem, smaller, -⟩ := Variants.find?_spec found
  have inner := smaller s rfl
  have fits : Head.Fits (.map (some 1)) := .map (length_fits (by decide))
  have head := Head.encode_pos fits
  have key := textBytes_pos name
  rcases g with _ | f
  · exact Reads.fail (by omega) fun _ => ⟨_, by rw [readShape]; rfl⟩
  rw [readShape]
  rcases f with _ | f
  · exact Reads.fail (by simp only [Value.encode, List.length_append]; omega) fun _ => ⟨_, by rw [readEnum]; rfl⟩
  rw [readEnum, Value.encode, List.append_assoc]
  apply Reads.bind (Reads.pull fits)
  rcases f with _ | f
  · exact Reads.fail (by simp only [List.length_append]; omega) fun _ => ⟨_, by rw [readVariant]; rfl⟩
  rw [readVariant, enter_succ, pure_bind]
  apply Reads.bind ((readKey_reads short f).weaken fun bound => by simp only [List.length_append] at bound; omega)
  simp only [find?_is_self mem, found]
  have read := below f (by omega) (low + (Head.map (some 1)).encode.length + (textBytes name).length) depth s body
    holds
  exact (read.map (Value.newtypeVariant name)).weaken fun bound => by
    simp only [Shape.size, List.length_append] at bound; omega

theorem readShape_structVariant {enum name : String} {variants : Variants} {fields : Fields}
    {entries : List (String × Value)} (found : variants.find? name = some (.struct fields))
    (short : (Utf8.encode name).length ≤ pieceSize) (named : fields.Named entries)
    (each : ∀ i n s v, fields.get? i = some (n, s) → entries[i]? = some (n, v) → Holds depth s v)
    {g : Nat} (below : ReadsBelow g) :
    Reads (4 * (Value.structVariant name entries).encode.length + (Shape.enum enum variants).size < g) low
      (readShape g (depth + 2) (.enum enum variants)) (Value.structVariant name entries).encode
      (.structVariant name entries) := by
  obtain ⟨mem, -, smaller⟩ := Variants.find?_spec found
  have inner := smaller fields rfl
  have fits : Head.Fits (.map (some 1)) := .map (length_fits (by decide))
  have fitsRecord : Head.Fits (.map (some entries.length)) := .map (length_fits named.count)
  have head := Head.encode_pos fits
  have headRecord := Head.encode_pos fitsRecord
  have key := textBytes_pos name
  rcases g with _ | f
  · exact Reads.fail (by omega) fun _ => ⟨_, by rw [readShape]; rfl⟩
  rw [readShape]
  rcases f with _ | f
  · exact Reads.fail (by simp only [Value.encode, List.length_append]; omega) fun _ => ⟨_, by rw [readEnum]; rfl⟩
  rw [readEnum, Value.encode, List.append_assoc, List.append_assoc]
  apply Reads.bind (Reads.pull fits)
  rcases f with _ | f
  · exact Reads.fail (by simp only [List.length_append]; omega) fun _ => ⟨_, by rw [readVariant]; rfl⟩
  rw [readVariant, enter_succ, pure_bind]
  apply Reads.bind ((readKey_reads short f).weaken fun bound => by simp only [List.length_append] at bound; omega)
  simp only [find?_is_self mem, found]
  -- the variant's record: its map head is looked at, put back, and taken again
  rcases f with _ | f
  · exact Reads.fail (by simp only [List.length_append]; omega) fun _ => ⟨_, by rw [readVariantRecord]; rfl⟩
  rw [readVariantRecord]
  apply Reads.map
  apply Reads.bind (Reads.pull fitsRecord)
  apply Reads.push
  apply ReadsHeld.pull_bind
  dsimp only
  rw [enter_succ, pure_bind]
  have read := @readEntries_reads depth ⟨"struct variant " ++ enum ++ "::" ++ name, fields⟩ entries named each
    entries [] [] f (by simp) recorded_nil (below.mono (by omega))
    (low + (Head.map (some 1)).encode.length + (textBytes name).length + (Head.map (some entries.length)).encode.length)
  exact read.weaken fun bound => by simp only [Shape.size, List.length_append] at bound ⊢; omega

end Cases

/-- One more unit of fuel: a value of every shape is read back with the fuel its bytes and shape
ask for, given that smaller fuel reads back every value. -/
theorem readShape_step {g : Nat} (below : ReadsBelow g) {low depth : Nat} {shape : Shape} {v : Value}
    (holds : Holds depth shape v) :
    Reads (4 * v.encode.length + shape.size < g) low (readShape g depth shape) v.encode v := by
  have positive := holds.encode_pos
  cases holds with
  | bool _ b => exact (readShape_bool b g).weaken fun bound => by omega
  | word fits word => exact (readShape_word fits word g).weaken fun bound => by omega
  | machineWord word => exact (readShape_machineWord word g).weaken fun bound => by omega
  | wide wide => exact (readShape_wide wide g).weaken fun bound => by omega
  | real _ bits => exact (readShape_real bits g).weaken fun bound => by omega
  | text fits => exact (readShape_text fits g).weaken fun bound => by omega
  | seq count each => exact readShape_seq count each below
  | null _ inner => exact (readShape_null inner g).weaken fun bound => by omega
  | some present holds =>
    obtain ⟨h, tail, fits, written, heads⟩ := holds.head
    rcases g with _ | f
    · exact Reads.fail (by omega) fun _ => ⟨_, by rw [readShape]; rfl⟩
    have inner := below f (by omega) low depth _ v holds
    exact readShape_some fits written (heads present).1 (heads present).2
      (inner.weaken fun bound => by simp only [Shape.size] at bound; omega)
  | record named each => exact readShape_record named each below
  | unitVariant found short => exact (readShape_unitVariant found short g).weaken fun bound => by omega
  | newtypeVariant found short holds => exact readShape_newtypeVariant found short holds below
  | structVariant found short named each => exact readShape_structVariant found short named each below

/-- Every value of a shape is read back from its bytes, taking all of them and nothing after, at
every fuel that its size asks for; and no strict prefix of its bytes is read, at any fuel. -/
theorem readShape_reads {depth : Nat} {shape : Shape} {v : Value} (holds : Holds depth shape v) (g low : Nat) :
    Reads (4 * v.encode.length + shape.size < g) low (readShape g depth shape) v.encode v := by
  -- induction on the fuel: each reader calls the readers of the parts with less
  have below : ∀ g, ReadsBelow g := by
    intro g
    induction g with
    | zero => exact fun _ lt => absurd lt (Nat.not_lt_zero _)
    | succ g ih =>
      intro g' lt
      rcases Nat.lt_succ_iff_lt_or_eq.mp lt with lt | rfl
      · exact ih g' lt
      · exact fun low depth shape v holds => readShape_step ih holds
  exact readShape_step (below g) holds

/-- The bytes of `v` read back as `v` against `shape`, and no strict prefix of them is read. -/
def RoundTrips (shape : Shape) (v : Value) : Prop :=
  readValue shape v.encode = .ok v ∧
    ∀ p, p <+: v.encode → p.length < v.encode.length → ∃ e, readValue shape p = .error e

/-- Every value of a shape of at most 256 nodes, nested no deeper than the reader enters, round
trips. -/
theorem readValue_encode {shape : Shape} {v : Value} (holds : Holds depthLimit shape v) (small : shape.size ≤ 256) :
    RoundTrips shape v := by
  have positive := holds.encode_pos
  constructor
  · have reads := (readShape_reads holds (16 * v.encode.length + 256) 0).weaken fun _ : True => by omega
    have whole := (reads.run [] 0 le_rfl).ok
    rw [List.append_nil] at whole
    rw [readValue, StateT.run', whole]
    rfl
  · intro p hp short
    obtain ⟨e, failed⟩ := (readShape_reads holds (16 * p.length + 256) 0).cut p 0 le_rfl hp short
    exact ⟨e, by rw [readValue, StateT.run', failed]; rfl⟩

end KeyRelay.Wire
