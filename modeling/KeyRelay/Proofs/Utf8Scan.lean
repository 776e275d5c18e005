import KeyRelay.Text.Utf8
import Mathlib

/-! The UTF-8 bytes of a text read back as that text. A text's bytes are the encodings of its
characters one after another; each encoding is recognised at the front whatever follows it, and a
strict piece of one is not a character, so scanning any prefix of encoded text stops at a
character boundary with at most three bytes left over. Main statements: `decode?_encode`,
`prefix_encodeChars` and `stuck_length`.
-/

namespace KeyRelay.Utf8

private theorem toList_loop (data : Array UInt8) (i : Nat) (r : List UInt8) :
    ByteArray.toList.loop ⟨data⟩ i r = r.reverse ++ data.toList.drop i := by
  fun_induction ByteArray.toList.loop ⟨data⟩ i r with
  | case1 i r lt ih =>
    have lt' : i < data.toList.length := lt
    have get : (ByteArray.mk data).get! i = data.toList[i] := by
      show data[i]! = _
      rw [getElem!_pos data i lt]
      rfl
    rw [ih, List.reverse_cons, List.append_assoc, get, List.singleton_append, ← List.drop_eq_getElem_cons]
  | case2 i r ge =>
    have : data.toList.length ≤ i := Nat.le_of_not_lt ge
    rw [List.drop_eq_nil_of_le this, List.append_nil]

theorem encode_eq (s : String) : encode s = s.toList.flatMap String.utf8EncodeChar := by
  rw [encode, String.toUTF8_eq_toByteArray, ← String.utf8Encode_toList, List.utf8Encode, ByteArray.toList,
    toList_loop, List.toList_data_toByteArray]
  rfl


section Front

variable {a b c d : UInt8} (rest : List UInt8)

theorem front?_one (lead : a.toNat < 0x80) : front? (a :: rest) = some (a.toNat, 1) := by
  simp [front?, lead]

theorem front?_two (lead : 0xc2 ≤ a.toNat ∧ a.toNat ≤ 0xdf) (second : tail b.toNat) :
    front? (a :: b :: rest) = some ((a.toNat - 0xc0) * 64 + (b.toNat - 0x80), 2) := by
  simp [front?, lead, second, show ¬ a.toNat < 0x80 by omega]

theorem front?_three (lead : 0xe0 ≤ a.toNat ∧ a.toNat ≤ 0xef) (second : tail b.toNat)
    (low : a.toNat = 0xe0 → 0xa0 ≤ b.toNat) (high : a.toNat = 0xed → b.toNat ≤ 0x9f) (third : tail c.toNat) :
    front? (a :: b :: c :: rest) =
      some ((a.toNat - 0xe0) * 4096 + (b.toNat - 0x80) * 64 + (c.toNat - 0x80), 3) := by
  simp only [tail, decide_eq_true_eq] at second third
  simp only [front?, tail, decide_eq_true_eq]
  split_ifs <;> first | omega | rfl

theorem front?_four (lead : 0xf0 ≤ a.toNat ∧ a.toNat ≤ 0xf4) (second : tail b.toNat)
    (low : a.toNat = 0xf0 → 0x90 ≤ b.toNat) (high : a.toNat = 0xf4 → b.toNat ≤ 0x8f) (third : tail c.toNat)
    (fourth : tail d.toNat) :
    front? (a :: b :: c :: d :: rest) =
      some ((a.toNat - 0xf0) * 262144 + (b.toNat - 0x80) * 4096 + (c.toNat - 0x80) * 64 + (d.toNat - 0x80), 4) := by
  simp only [tail, decide_eq_true_eq] at second third fourth
  simp only [front?, tail, decide_eq_true_eq]
  split_ifs <;> first | omega | rfl

end Front

private theorem toNat_byte {n : Nat} (h : n < 256) : (UInt8.ofNat n).toNat = n := by
  simp [Nat.mod_eq_of_lt h]

/-- The character at the front of its own encoding, whatever follows. -/
theorem front?_encodeChar (c : Char) (rest : List UInt8) :
    front? (String.utf8EncodeChar c ++ rest) = some (c.toNat, c.utf8Size) := by
  have valid : c.toNat < 0xd800 ∨ (0xdfff < c.toNat ∧ c.toNat < 0x110000) := by
    rcases c.valid with h | h <;> simp [Char.toNat_val] at h ⊢ <;> omega
  unfold String.utf8EncodeChar
  simp only [Char.toNat_val]
  set v := c.toNat with hv
  by_cases one : v ≤ 0x7f
  · have len : c.utf8Size = 1 := by rw [Char.utf8Size_eq_one_iff, UInt32.le_iff_toNat_le]; simpa using one
    rw [if_pos one, len, List.cons_append, List.nil_append, front?_one rest (by rw [toNat_byte (by omega)]; omega),
      toNat_byte (by omega)]
  by_cases two : v ≤ 0x7ff
  · have len : c.utf8Size = 2 := by
      rw [Char.utf8Size_eq_two_iff, UInt32.le_iff_toNat_le, UInt32.lt_iff_toNat_lt]; simp only [Char.toNat_val]; simp; omega
    rw [if_neg one, if_pos two, len, List.cons_append, List.cons_append, List.nil_append,
      front?_two rest (by rw [toNat_byte (by omega)]; omega) (by simp only [tail, toNat_byte (show v % 64 + 128 < 256 by omega)]; simp; omega),
      toNat_byte (by omega), toNat_byte (by omega)]
    simp only [Option.some.injEq, Prod.mk.injEq, and_true]
    omega
  by_cases three : v ≤ 0xffff
  · have len : c.utf8Size = 3 := by
      rw [Char.utf8Size_eq_three_iff, UInt32.le_iff_toNat_le, UInt32.lt_iff_toNat_lt]; simp only [Char.toNat_val]; simp; omega
    rw [if_neg one, if_neg two, if_pos three, len, List.cons_append, List.cons_append, List.cons_append,
      List.nil_append, front?_three rest (by rw [toNat_byte (by omega)]; omega)
        (by simp only [tail, toNat_byte (show v / 64 % 64 + 128 < 256 by omega)]; simp; omega)
        (by rw [toNat_byte (by omega), toNat_byte (by omega)]; omega)
        (by rw [toNat_byte (by omega), toNat_byte (by omega)]; omega)
        (by simp only [tail, toNat_byte (show v % 64 + 128 < 256 by omega)]; simp; omega),
      toNat_byte (by omega), toNat_byte (by omega), toNat_byte (by omega)]
    simp only [Option.some.injEq, Prod.mk.injEq, and_true]
    omega
  have len : c.utf8Size = 4 := by
    rw [Char.utf8Size_eq_four_iff, UInt32.lt_iff_toNat_lt]; simp only [Char.toNat_val]; simp; omega
  rw [if_neg one, if_neg two, if_neg three, len, List.cons_append, List.cons_append, List.cons_append,
    List.cons_append, List.nil_append, front?_four rest (by rw [toNat_byte (by omega)]; omega)
      (by simp only [tail, toNat_byte (show v / 4096 % 64 + 128 < 256 by omega)]; simp; omega)
      (by rw [toNat_byte (by omega), toNat_byte (by omega)]; omega)
      (by rw [toNat_byte (by omega), toNat_byte (by omega)]; omega)
      (by simp only [tail, toNat_byte (show v / 64 % 64 + 128 < 256 by omega)]; simp; omega)
      (by simp only [tail, toNat_byte (show v % 64 + 128 < 256 by omega)]; simp; omega),
    toNat_byte (by omega), toNat_byte (by omega), toNat_byte (by omega), toNat_byte (by omega)]
  simp only [Option.some.injEq, Prod.mk.injEq, and_true]
  omega

/-- The lead byte of a character of two or more bytes. -/
theorem encodeChar_lead (c : Char) : ∃ a t, String.utf8EncodeChar c = a :: t ∧
    (2 ≤ c.utf8Size → 0xc2 ≤ a.toNat) ∧ (3 ≤ c.utf8Size → 0xe0 ≤ a.toNat) ∧ (4 ≤ c.utf8Size → 0xf0 ≤ a.toNat) := by
  have sizes := c.utf8Size_eq
  have one := @Char.utf8Size_eq_one_iff c
  have two := @Char.utf8Size_eq_two_iff c
  have three := @Char.utf8Size_eq_three_iff c
  simp only [UInt32.le_iff_toNat_le, UInt32.lt_iff_toNat_lt, Char.toNat_val] at one two three
  unfold String.utf8EncodeChar
  simp only [Char.toNat_val]
  split_ifs with h1 h2 h3
  · exact ⟨_, _, rfl, by simp at one; omega, by simp at one; omega, by simp at one; omega⟩
  · refine ⟨_, _, rfl, ?_, ?_, ?_⟩ <;> intro <;> rw [toNat_byte (by omega)] <;> simp at one two <;> omega
  · refine ⟨_, _, rfl, ?_, ?_, ?_⟩ <;> intro <;> rw [toNat_byte (by omega)] <;> simp at one two three <;> omega
  · refine ⟨_, _, rfl, ?_, ?_, ?_⟩ <;> intro <;> rw [toNat_byte (by omega)] <;> simp at one two three <;> omega

/-- A strict prefix of a character's bytes is not a character. -/
theorem front?_cut (c : Char) {p : List UInt8} (hp : p <+: String.utf8EncodeChar c)
    (short : p.length < c.utf8Size) : front? p = none := by
  obtain ⟨a, t, henc, two, three, four⟩ := encodeChar_lead c
  have size := c.utf8Size_le_four
  rw [henc] at hp
  rcases p with _ | ⟨a', q⟩
  · rfl
  obtain ⟨rfl, -⟩ := List.cons_prefix_cons.mp hp
  simp only [List.length_cons] at short
  rcases q with _ | ⟨b, _ | ⟨b', _ | ⟨b'', q⟩⟩⟩
  · have := two (by simp at short; omega)
    simp [front?]
    omega
  · have := three (by simp at short; omega)
    simp only [front?]
    split_ifs <;> first | omega | rfl
  · have := four (by simp at short; omega)
    simp only [front?]
    split_ifs <;> first | omega | rfl
  · simp at short
    omega

/-- Scanning whole characters followed by bytes that do not start one gives back the characters
and leaves those bytes. -/
theorem scan_append (cs : List Char) {stuck : List UInt8} (none : front? stuck = none) :
    scan (cs.flatMap String.utf8EncodeChar ++ stuck) = (cs, stuck) := by
  induction cs with
  | nil => rw [List.flatMap_nil, List.nil_append, scan, none]
  | cons c cs ih =>
    have len := String.length_utf8EncodeChar c
    rw [List.flatMap_cons, List.append_assoc, scan, front?_encodeChar]
    simp [len, c.utf8Size_pos, List.drop_left' len, ih]

theorem decode?_encode (s : String) : decode? (encode s) = some s := by
  rw [decode?, encode_eq, ← List.append_nil (s.toList.flatMap _), scan_append _ rfl]
  simp [String.ofList_toList]

/-- Any prefix of encoded characters is some whole characters followed by a piece of the next
one, which does not start a character. -/
theorem prefix_encodeChars {cs : List Char} {p : List UInt8} (hp : p <+: cs.flatMap String.utf8EncodeChar) :
    ∃ j left, p = (cs.take j).flatMap String.utf8EncodeChar ++ left ∧ front? left = none ∧
      left <+: (cs.drop j).flatMap String.utf8EncodeChar := by
  induction cs generalizing p with
  | nil =>
    obtain rfl := List.prefix_nil.mp hp
    exact ⟨0, [], rfl, rfl, List.prefix_refl _⟩
  | cons c cs ih =>
    rw [List.flatMap_cons] at hp
    by_cases within : p.length < (String.utf8EncodeChar c).length
    · have cut := List.prefix_of_prefix_length_le hp (List.prefix_append _ _) within.le
      refine ⟨0, p, by simp, front?_cut c cut (by simpa using within), by simpa using hp⟩
    · obtain ⟨q, rfl⟩ := List.prefix_of_prefix_length_le (List.prefix_append _ _) hp (by omega)
      obtain ⟨j, left, rfl, stuck, later⟩ := ih ((List.prefix_append_right_inj _).mp hp)
      exact ⟨j + 1, left, by simp, stuck, by simpa using later⟩

/-- Bytes that do not start a character but begin encoded characters are a piece of the first
one, so at most three bytes. -/
theorem stuck_length {cs : List Char} {left : List UInt8} (stuck : front? left = none)
    (hp : left <+: cs.flatMap String.utf8EncodeChar) : left.length ≤ 3 := by
  rcases cs with _ | ⟨c, cs⟩
  · simp [List.prefix_nil.mp hp]
  · rw [List.flatMap_cons] at hp
    by_cases within : left.length < (String.utf8EncodeChar c).length
    · have := c.utf8Size_le_four
      simp only [String.length_utf8EncodeChar] at within
      omega
    · obtain ⟨q, rfl⟩ := List.prefix_of_prefix_length_le (List.prefix_append _ _) hp (by omega)
      rw [front?_encodeChar] at stuck
      cases stuck

theorem eq_nil_of_stuck {cs : List Char} (stuck : front? (cs.flatMap String.utf8EncodeChar) = none) :
    cs = [] := by
  rcases cs with _ | ⟨c, cs⟩
  · rfl
  · rw [List.flatMap_cons, front?_encodeChar] at stuck
    cases stuck

end KeyRelay.Utf8
