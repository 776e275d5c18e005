import KeyRelay.Proofs.Utf8Scan
import KeyRelay.Material
import Mathlib

/-! Base64 text is canonical: reading accepts exactly the texts that writing produces, so the
transport encoding of key material is a bijection onto canonical padded base64.

The text of a byte string is its six-bit `values`, four for each three bytes, as symbols,
closed by `padding` signs `=`. Four values give back three bytes and the shorter tails give back
one or two, so `bytesOfSextets` undoes `values`; conversely `values` undoes `bytesOfSextets` on
value lists that are `Clean`, whose last value carries no bits past the last whole byte. The
reader is taken apart into its checks (`Parts`): its front of whole groups is symbols only
(`leading_symbols`, `leading_eq_ok`), its last group is symbols and then padding at the third and
fourth place of a quad only (`readTail_symbols`, `readTail_pads`, `readTail_shape`). Main
statements: `Base64.decode_eq_ok_iff` and `Material.decode_ok_iff_encodes`. -/

namespace KeyRelay.Base64

/-! ### The alphabet -/

/-- The byte of the symbol of a six-bit value. -/
def symbolByte (v : Nat) : UInt8 := (symbol v).toNat.toUInt8

theorem sextet?_symbolByte {v : Nat} (small : v < 64) : sextet? (symbolByte v) = some v := by
  have table : ∀ v : Fin 64, sextet? (symbolByte v) = some v := by decide
  exact table ⟨v, small⟩

theorem sextet?_eq_some {b : UInt8} {v : Nat} (h : sextet? b = some v) : v < 64 ∧ symbolByte v = b := by
  have table : ∀ b : UInt8, (sextet? b).all (fun v => v < 64 && symbolByte v == b) := by decide +kernel
  have := table b
  rw [h] at this
  simpa using this

theorem sextet?_pad : sextet? pad = none := by decide

theorem symbolByte_ne_pad {v : Nat} (small : v < 64) : symbolByte v ≠ pad := by
  intro same
  have := sextet?_symbolByte small
  rw [same, sextet?_pad] at this
  cases this

/-- A symbol is one byte of UTF-8. -/
theorem utf8EncodeChar_symbol {v : Nat} (small : v < 64) :
    String.utf8EncodeChar (symbol v) = [symbolByte v] := by
  have table : ∀ v : Fin 64, String.utf8EncodeChar (symbol v) = [symbolByte v] := by decide
  exact table ⟨v, small⟩

theorem utf8EncodeChar_pad : String.utf8EncodeChar '=' = [pad] := by decide

/-! ### Groups of bytes and groups of values -/

/-- The six-bit values of the text of a byte string, padding left out: four for each three
bytes, and three or two for the two or one bytes left over. -/
def values : List UInt8 → List Nat
  | a :: b :: c :: rest =>
    let n := a.toNat * 65536 + b.toNat * 256 + c.toNat
    [n / 262144, n / 4096 % 64, n / 64 % 64, n % 64] ++ values rest
  | [a, b] =>
    let n := a.toNat * 65536 + b.toNat * 256
    [n / 262144, n / 4096 % 64, n / 64 % 64]
  | [a] =>
    let n := a.toNat * 65536
    [n / 262144, n / 4096 % 64]
  | [] => []

/-- The number of `=` that close the text of a byte string. -/
def padding (bytes : List UInt8) : Nat := (3 - bytes.length % 3) % 3

/-- The bytes of the text of a byte string. -/
def text (bytes : List UInt8) : List UInt8 :=
  (values bytes).map symbolByte ++ List.replicate (padding bytes) pad

/-- The last value sets no bit beyond the last whole byte: of the `6 * n` bits of `n` values,
the `6 * n % 8` lowest are left over. -/
def Clean (vs : List Nat) : Prop := ∀ v ∈ vs.getLast?, v % Nat.pow 2 (6 * vs.length % 8) = 0

theorem clean_cons4 {a b c d : Nat} {rest : List Nat} : Clean (a :: b :: c :: d :: rest) ↔ Clean rest := by
  rcases List.eq_nil_or_concat' rest with none | ⟨front, last, rfl⟩
  · subst none
    simp [Clean]
    exact Nat.mod_one d
  · -- four more values are three whole bytes: the bits left over stay the same
    have shift : 6 * (front.length + 1 + 1 + 1 + 1 + 1) % 8 = 6 * (front.length + 1) % 8 := by omega
    simp [Clean, List.getLast?_cons, shift]

/-- Values in front, in whole quads, leave the bits over after a nonempty rest unchanged. -/
theorem clean_append_iff {front rest : List Nat} (aligned : front.length % 4 = 0) (nonempty : rest ≠ []) :
    Clean (front ++ rest) ↔ Clean rest := by
  have shift : 6 * (front.length + rest.length) % 8 = 6 * rest.length % 8 := by omega
  simp only [Clean, List.getLast?_append, List.length_append, shift]
  obtain ⟨v, last⟩ := List.getLast?_isSome.mpr nonempty |> Option.isSome_iff_exists.mp
  simp [last]

theorem encodeGroups_eq (bytes : List UInt8) :
    encodeGroups bytes = (values bytes).map symbol ++ List.replicate (padding bytes) '=' := by
  fun_induction values bytes with
  | case1 a b c rest n ih =>
    have same : padding (a :: b :: c :: rest) = padding rest := by simp [padding]; omega
    rw [encodeGroups, ih, same]
    simp [n]
  | case2 a b n => simp [encodeGroups, padding, n]
  | case3 a n => simp [encodeGroups, padding, n]
  | case4 => simp [encodeGroups, padding]

theorem values_small (bytes : List UInt8) : ∀ v ∈ values bytes, v < 64 := by
  fun_induction values bytes with
  | case1 a b c rest n ih =>
    have := a.toNat_lt; have := b.toNat_lt; have := c.toNat_lt
    simp only [List.cons_append, List.nil_append, List.mem_cons, forall_eq_or_imp]
    exact ⟨by omega, by omega, by omega, by omega, ih⟩
  | case2 a b n =>
    have := a.toNat_lt; have := b.toNat_lt
    simp only [List.mem_cons, List.not_mem_nil, or_false, forall_eq_or_imp, forall_eq]
    omega
  | case3 a n =>
    have := a.toNat_lt
    simp only [List.mem_cons, List.not_mem_nil, or_false, forall_eq_or_imp, forall_eq]
    omega
  | case4 => simp

/-- The text closes its last quad: the values and the padding fill whole groups of four. -/
theorem padding_eq (bytes : List UInt8) : padding bytes = (4 - (values bytes).length % 4) % 4 := by
  fun_induction values bytes with
  | case1 a b c rest n ih => simp [padding] at ih ⊢; omega
  | case2 a b n => simp [padding]
  | case3 a n => simp [padding]
  | case4 => simp [padding]

theorem values_length_mod (bytes : List UInt8) : (values bytes).length % 4 ≠ 1 := by
  fun_induction values bytes with
  | case1 a b c rest n ih => simp at ih ⊢; omega
  | case2 a b n => simp
  | case3 a n => simp
  | case4 => simp

theorem values_clean (bytes : List UInt8) : Clean (values bytes) := by
  fun_induction values bytes with
  | case1 a b c rest n ih => simpa [clean_cons4] using ih
  | case2 a b n =>
    have : (a.toNat * 65536 + b.toNat * 256) / 64 % 64 % 4 = 0 := by omega
    simpa [Clean] using this
  | case3 a n =>
    have : a.toNat * 65536 / 4096 % 64 % 16 = 0 := by omega
    simpa [Clean] using this
  | case4 => simp [Clean]

theorem toNat_toUInt8 (x : Nat) : x.toUInt8.toNat = x % 256 := UInt8.toNat_ofNat'

theorem toUInt8_eq {x : Nat} {a : UInt8} (h : x = a.toNat) : x.toUInt8 = a := by
  subst h
  exact UInt8.ofNat_toNat

theorem bytesOfSextets_values (bytes : List UInt8) : bytesOfSextets (values bytes) = bytes := by
  fun_induction values bytes with
  | case1 a b c rest n ih =>
    have := a.toNat_lt; have := b.toNat_lt; have := c.toNat_lt
    simp only [List.cons_append, List.nil_append, bytesOfSextets, ih, List.cons.injEq]
    refine ⟨toUInt8_eq ?_, toUInt8_eq ?_, toUInt8_eq ?_, trivial⟩ <;> omega
  | case2 a b n =>
    have := a.toNat_lt; have := b.toNat_lt
    simp only [bytesOfSextets, List.cons.injEq]
    refine ⟨toUInt8_eq ?_, toUInt8_eq ?_, trivial⟩ <;> omega
  | case3 a n =>
    have := a.toNat_lt
    simp only [bytesOfSextets, List.cons.injEq]
    exact ⟨toUInt8_eq (by omega), trivial⟩
  | case4 => rfl

/-- Values that close their last byte are the values of the bytes they give. -/
theorem values_bytesOfSextets (vs : List Nat) (small : ∀ v ∈ vs, v < 64) (whole : vs.length % 4 ≠ 1)
    (clean : Clean vs) : values (bytesOfSextets vs) = vs := by
  fun_induction bytesOfSextets vs with
  | case1 a b c d rest n ih =>
    simp only [List.mem_cons, forall_eq_or_imp] at small
    obtain ⟨sa, sb, sc, sd, small⟩ := small
    have rest_whole : rest.length % 4 ≠ 1 := by simp at whole; omega
    rw [List.cons_append, List.cons_append, List.cons_append, List.nil_append, values,
      ih small rest_whole (clean_cons4.mp clean)]
    simp only [List.cons_append, List.nil_append, List.cons.injEq, and_true, toNat_toUInt8]
    omega
  | case2 a b c n =>
    simp only [List.mem_cons, forall_eq_or_imp] at small
    have : c % 4 = 0 := by simpa [Clean] using clean
    simp only [values, List.cons.injEq, and_true, toNat_toUInt8]
    omega
  | case3 a b =>
    simp only [List.mem_cons, forall_eq_or_imp] at small
    have : b % 16 = 0 := by simpa [Clean] using clean
    simp only [values, List.cons.injEq, and_true, toNat_toUInt8]
    omega
  | case4 x longer three two =>
    -- what is left is no value or one, and one value is no whole byte
    rcases x with _ | ⟨a, _ | ⟨b, _ | ⟨c, _ | ⟨d, rest⟩⟩⟩⟩
    · rfl
    · simp at whole
    · exact (two a b rfl).elim
    · exact (three a b c rfl).elim
    · exact (longer a b c d rest rfl).elim

/-! ### The reader, check by check -/

/-- Where the last group of eight symbols starts. -/
def tailStart (len : Nat) : Nat := if len = 0 then 0 else 8 * ((len + 7) / 8 - 1)

/-- A text of bytes that passes every check of the reader, giving `out`. -/
structure Parts (input out : List UInt8) : Prop where
  length : ¬(input.length % 8 = 1 ∨ input.length % 8 = 5)
  parts : ∃ front t, leading 0 (input.take (tailStart input.length)) = .ok front ∧
    readTail (tailStart input.length) 0 (input.drop (tailStart input.length)) ⟨[], 0, 0, 0⟩ = .ok t ∧
    (t.padding + t.values.length) % 4 = 0 ∧
    Clean t.values ∧
    out = bytesOfSextets (front ++ t.values)

theorem decodeBytes_eq_ok_iff {input out : List UInt8} : decodeBytes input = .ok out ↔ Parts input out := by
  constructor
  · intro h
    unfold decodeBytes at h
    dsimp only at h
    by_cases bad : input.length % 8 = 1 ∨ input.length % 8 = 5
    · rw [if_pos bad] at h
      split at h
      · split at h <;> cases h
      · cases h
    · rw [if_neg bad] at h
      refine ⟨bad, ?_⟩
      cases hf : leading 0 (List.take (tailStart input.length) input) with
      | error e =>
        unfold tailStart at hf
        rw [hf] at h
        cases h
      | ok front =>
      cases ht : readTail (tailStart input.length) 0 (input.drop (tailStart input.length)) ⟨[], 0, 0, 0⟩ with
      | error e =>
        unfold tailStart at hf ht
        rw [hf] at h
        simp only [bind, Except.bind] at h
        rw [ht] at h
        cases h
      | ok t =>
        unfold tailStart at hf ht
        rw [hf] at h
        simp only [bind, Except.bind] at h
        rw [ht] at h
        dsimp only at h
        refine ⟨front, t, rfl, rfl, ?_⟩
        by_cases quads : (t.padding + t.values.length) % 4 ≠ 0
        · rw [if_pos quads] at h
          cases h
        · rw [if_neg quads] at h
          refine ⟨not_not.mp quads, ?_⟩
          cases last : t.values.getLast? with
          | none =>
            rw [last] at h
            exact ⟨by simp [Clean, last], (Except.ok.inj h).symm⟩
          | some v =>
            rw [last] at h
            dsimp only at h
            by_cases stray : v % Nat.pow 2 (6 * t.values.length % 8) ≠ 0
            · rw [if_pos stray] at h
              cases h
            · rw [if_neg stray] at h
              refine ⟨fun w found => ?_, (Except.ok.inj h).symm⟩
              rw [last, Option.mem_some_iff] at found
              subst found
              simpa using stray
  · rintro ⟨bad, front, t, hf, ht, quads, clean, rfl⟩
    unfold decodeBytes
    unfold tailStart at hf ht
    dsimp only
    rw [if_neg bad, hf]
    simp only [bind, Except.bind]
    rw [ht]
    dsimp only
    rw [if_neg (not_not.mpr quads)]
    cases last : t.values.getLast? with
    | none => rfl
    | some v =>
      dsimp only
      rw [if_neg (not_not.mpr (clean v (by simp [last])))]
      rfl

theorem leading_symbols {vs : List Nat} (small : ∀ v ∈ vs, v < 64) (offset : Nat) :
    leading offset (vs.map symbolByte) = .ok vs := by
  induction vs generalizing offset with
  | nil => rfl
  | cons v vs ih =>
    simp only [List.mem_cons, forall_eq_or_imp] at small
    simp only [List.map_cons, leading, sextet?_symbolByte small.1, ih small.2]
    rfl

theorem leading_eq_ok {offset : Nat} {bs : List UInt8} {vs : List Nat} (h : leading offset bs = .ok vs) :
    (∀ v ∈ vs, v < 64) ∧ bs = vs.map symbolByte := by
  induction bs generalizing offset vs with
  | nil =>
    cases h
    simp
  | cons b rest ih =>
    cases found : sextet? b with
    | none =>
      simp only [leading, found] at h
      cases h
    | some v =>
      obtain ⟨sv, rfl⟩ := sextet?_eq_some found
      simp only [leading, found] at h
      cases later : leading (offset + 1) rest with
      | error e =>
        rw [later] at h
        cases h
      | ok ws =>
        rw [later] at h
        cases h
        obtain ⟨small, rfl⟩ := ih later
        exact ⟨by simpa [sv] using small, rfl⟩

section Tail

variable (start : Nat)

/-- Symbols before any padding are read as their values. -/
theorem readTail_symbols {vs : List Nat} (small : ∀ v ∈ vs, v < 64) (rest : List UInt8) :
    ∀ (i : Nat) (t : Tail), t.padding = 0 → ∃ l, readTail start i (vs.map symbolByte ++ rest) t =
      readTail start (i + vs.length) rest { t with values := t.values ++ vs, last := l } := by
  induction vs with
  | nil =>
    intro i t _
    exact ⟨t.last, by simp⟩
  | cons v vs ih =>
    intro i t unpadded
    simp only [List.mem_cons, forall_eq_or_imp] at small
    have read : readTail start i (symbolByte v :: (vs.map symbolByte ++ rest)) t =
        readTail start (i + 1) (vs.map symbolByte ++ rest) { t with values := t.values ++ [v], last := symbolByte v } := by
      rw [readTail, if_neg (symbolByte_ne_pad small.1), if_neg (by omega), sextet?_symbolByte small.1]
    obtain ⟨l, later⟩ := ih small.2 (i + 1) { t with values := t.values ++ [v], last := symbolByte v } unpadded
    refine ⟨l, ?_⟩
    rw [List.map_cons, List.cons_append, read, later]
    simp only [List.append_assoc, List.singleton_append, List.length_cons]
    congr 1
    omega

/-- Padding at the third and fourth place of a quad is counted. -/
theorem readTail_pads (p : Nat) : ∀ (i : Nat) (t : Tail), (∀ k < p, 2 ≤ (i + k) % 4) →
    ∃ f, readTail start i (List.replicate p pad) t = .ok { t with padding := t.padding + p, firstPad := f } := by
  induction p with
  | zero =>
    intro i t _
    exact ⟨t.firstPad, by simp [readTail]⟩
  | succ p ih =>
    intro i t placed
    have first : ¬(i % 4 < 2) := by have := placed 0 (by omega); omega
    obtain ⟨f, later⟩ := ih (i + 1) { t with padding := t.padding + 1, firstPad := if t.padding = 0 then i else t.firstPad }
      (fun k below => by have := placed (k + 1) (by omega); omega)
    refine ⟨f, ?_⟩
    rw [List.replicate_succ, readTail, if_pos rfl, if_neg first, later]
    simp only [Except.ok.injEq]
    congr 1
    omega

/-- Once padding has started, only padding at the third and fourth place of a quad is read. -/
theorem readTail_padded {bs : List UInt8} : ∀ {i : Nat} {t t' : Tail}, readTail start i bs t = .ok t' →
    0 < t.padding → ∃ p, bs = List.replicate p pad ∧ (∀ k < p, 2 ≤ (i + k) % 4) ∧
      t'.values = t.values ∧ t'.padding = t.padding + p := by
  induction bs with
  | nil =>
    intro i t t' read _
    cases read
    exact ⟨0, rfl, by simp, rfl, rfl⟩
  | cons b rest ih =>
    intro i t t' read padded
    rw [readTail] at read
    by_cases sign : b = pad
    · rw [if_pos sign] at read
      by_cases early : i % 4 < 2
      · rw [if_pos early] at read
        cases read
      · rw [if_neg early] at read
        obtain ⟨p, rfl, placed, values, count⟩ := ih read (by simp)
        refine ⟨p + 1, by rw [sign, List.replicate_succ], fun k below => ?_, values, by simp [count]; omega⟩
        rcases k with _ | k
        · omega
        · have := placed k (by omega); omega
    · rw [if_neg sign, if_pos padded] at read
      cases read

/-- A last group that is read is symbols, then padding at the third and fourth place of a quad
only. -/
theorem readTail_shape {bs : List UInt8} : ∀ {i : Nat} {t t' : Tail}, readTail start i bs t = .ok t' →
    t.padding = 0 → ∃ vs p, bs = vs.map symbolByte ++ List.replicate p pad ∧ (∀ v ∈ vs, v < 64) ∧
      (∀ k < p, 2 ≤ (i + vs.length + k) % 4) ∧ t'.values = t.values ++ vs ∧ t'.padding = p := by
  induction bs with
  | nil =>
    intro i t t' read unpadded
    cases read
    exact ⟨[], 0, rfl, by simp, by simp, by simp, unpadded⟩
  | cons b rest ih =>
    intro i t t' read unpadded
    rw [readTail] at read
    by_cases sign : b = pad
    · rw [if_pos sign] at read
      by_cases early : i % 4 < 2
      · rw [if_pos early] at read
        cases read
      · rw [if_neg early] at read
        obtain ⟨p, rfl, placed, values, count⟩ := readTail_padded start read (by simp)
        refine ⟨[], p + 1, by rw [sign, List.replicate_succ]; rfl, by simp, fun k below => ?_,
          by simp [values], by simp [count, unpadded]; omega⟩
        rcases k with _ | k
        · simp only [List.length_nil]; omega
        · have := placed k (by omega); simp only [List.length_nil]; omega
    · rw [if_neg sign, if_neg (by omega)] at read
      cases found : sextet? b with
      | none =>
        rw [found] at read
        cases read
      | some v =>
        rw [found] at read
        obtain ⟨small, rfl⟩ := sextet?_eq_some found
        obtain ⟨vs, p, rfl, smalls, placed, values, count⟩ := ih read unpadded
        refine ⟨v :: vs, p, rfl, ?_, fun k below => ?_, by simp [values], count⟩
        · simpa [small] using smalls
        · have := placed k below; simp only [List.length_cons]; omega

end Tail

/-! ### Reading accepts exactly what writing produces -/

theorem tailStart_le (len : Nat) : tailStart len ≤ len := by
  unfold tailStart
  split <;> omega

theorem tailStart_lt {len : Nat} (nonempty : 0 < len) : tailStart len < len := by
  unfold tailStart
  split <;> omega

theorem tailStart_mod (len : Nat) : tailStart len % 8 = 0 := by
  unfold tailStart
  split <;> omega

/-- The last group of a written text holds its padding. -/
theorem tailStart_text_le (bytes : List UInt8) : tailStart (text bytes).length ≤ (values bytes).length := by
  have fill := padding_eq bytes
  have whole := values_length_mod bytes
  have : (text bytes).length = (values bytes).length + padding bytes := by simp [text]
  rw [this]
  unfold tailStart
  split <;> omega

theorem decodeBytes_text (bytes : List UInt8) : decodeBytes (text bytes) = .ok bytes := by
  have fill := padding_eq bytes
  have whole := values_length_mod bytes
  have small := values_small bytes
  have length : (text bytes).length = (values bytes).length + padding bytes := by simp [text]
  have within := tailStart_text_le bytes
  have aligned := tailStart_mod (text bytes).length
  refine decodeBytes_eq_ok_iff.mpr ⟨by omega, ?_⟩
  generalize tailStart (text bytes).length = start at within aligned ⊢
  have front : (text bytes).take start = ((values bytes).take start).map symbolByte := by
    rw [text, List.take_append_of_le_length (by simpa using within), List.map_take]
  have back : (text bytes).drop start =
      ((values bytes).drop start).map symbolByte ++ List.replicate (padding bytes) pad := by
    rw [text, List.drop_append_of_le_length (by simpa using within), List.map_drop]
  -- the symbols of the last group are read, then its padding
  obtain ⟨l, symbols⟩ := readTail_symbols start (fun v member => small v (List.mem_of_mem_drop member))
    (List.replicate (padding bytes) pad) 0 ⟨[], 0, 0, 0⟩ rfl
  obtain ⟨f, pads⟩ := readTail_pads start (padding bytes) (0 + ((values bytes).drop start).length)
    ⟨[] ++ (values bytes).drop start, 0, 0, l⟩ (fun k below => by simp only [List.length_drop]; omega)
  have clean : Clean ((values bytes).drop start) := by
    rcases List.eq_nil_or_concat' ((values bytes).drop start) with none | ⟨_, _, some⟩
    · rw [none]
      simp [Clean]
    · have := values_clean bytes
      rw [← List.take_append_drop start (values bytes), clean_append_iff (by simp; omega) (by simp [some])] at this
      exact this
  refine ⟨(values bytes).take start, ⟨(values bytes).drop start, padding bytes, f, l⟩, ?_, ?_, ?_, clean, ?_⟩
  · rw [front]
    exact leading_symbols (fun v member => small v (List.mem_of_mem_take member)) 0
  · rw [back, symbols, pads]
    simp
  · simp only [List.length_drop]
    omega
  · rw [List.take_append_drop, bytesOfSextets_values]

theorem text_of_decodeBytes {input out : List UInt8} (h : decodeBytes input = .ok out) : input = text out := by
  obtain ⟨bad, front, t, hf, ht, quads, clean, rfl⟩ := decodeBytes_eq_ok_iff.mp h
  have aligned := tailStart_mod input.length
  have within := tailStart_le input.length
  have shorter := @tailStart_lt input.length
  generalize tailStart input.length = start at aligned within shorter hf ht
  obtain ⟨small₁, hfront⟩ := leading_eq_ok hf
  obtain ⟨tv, p, hback, small₂, placed, values_eq, count⟩ := readTail_shape start ht rfl
  simp only [List.nil_append] at values_eq
  subst values_eq count
  have front_length : front.length = start := by
    have := congrArg List.length hfront
    simp only [List.length_take, List.length_map] at this
    omega
  have back_length := congrArg List.length hback
  simp only [List.length_drop, List.length_append, List.length_map, List.length_replicate] at back_length
  -- padding stands at the third and fourth place of a quad only, so there are two signs at most
  have few : t.padding ≤ 2 := by
    by_contra many
    have := placed 0 (by omega)
    have := placed 1 (by omega)
    have := placed 2 (by omega)
    omega
  have input_eq : input = (front ++ t.values).map symbolByte ++ List.replicate t.padding pad := by
    rw [← List.take_append_drop start input, hfront, hback, List.map_append, List.append_assoc]
  have whole : (front ++ t.values).length % 4 ≠ 1 := by
    simp only [List.length_append]
    omega
  have cleaned : Clean (front ++ t.values) := by
    rcases List.eq_nil_or_concat' t.values with none | ⟨_, _, some⟩
    · -- an empty last group is an empty text
      rw [none] at quads back_length
      simp only [List.length_nil, Nat.add_zero, Nat.zero_add] at quads back_length
      have : front = [] := List.eq_nil_of_length_eq_zero (by omega)
      simp [this, none, Clean]
    · exact (clean_append_iff (by omega) (by simp [some])).mpr clean
  have back := values_bytesOfSextets (front ++ t.values)
    (fun v member => (List.mem_append.mp member).elim (small₁ v) (small₂ v)) whole cleaned
  have count : t.padding = (4 - (front ++ t.values).length % 4) % 4 := by
    simp only [List.length_append]
    omega
  rw [input_eq, text, back, padding_eq, back, ← count]

/-- The UTF-8 bytes of a written text. -/
theorem utf8_encode (bytes : List UInt8) : Utf8.encode (encode bytes) = text bytes := by
  rw [Utf8.encode_eq, encode, String.toList_ofList, encodeGroups_eq, List.flatMap_append, text,
    List.flatMap_map, List.flatMap_replicate, utf8EncodeChar_pad]
  congr 1
  · rw [List.flatMap_congr (fun v member => utf8EncodeChar_symbol (values_small bytes v member))]
    exact List.map_eq_flatMap.symm
  · simp

theorem decode_encode (bytes : List UInt8) : decode (encode bytes) = .ok bytes := by
  show decodeBytes (Utf8.encode (encode bytes)) = .ok bytes
  rw [utf8_encode, decodeBytes_text]

theorem encode_of_decode {s : String} {bytes : List UInt8} (h : decode s = .ok bytes) : encode bytes = s := by
  have same : Utf8.encode s = Utf8.encode (encode bytes) := by
    rw [utf8_encode]
    exact text_of_decodeBytes h
  have back := Utf8.decode?_encode s
  rw [same, Utf8.decode?_encode] at back
  exact Option.some.inj back

/-- Reading accepts exactly the texts that writing produces. -/
theorem decode_eq_ok_iff {s : String} {bytes : List UInt8} : decode s = .ok bytes ↔ encode bytes = s :=
  ⟨encode_of_decode, fun written => written ▸ decode_encode bytes⟩

end KeyRelay.Base64

namespace KeyRelay.Material

/-- The transport encoding of key material is a bijection onto canonical padded base64: a text
decodes to the material whose encoding it is, and to nothing when it is no encoding. -/
theorem decode_ok_iff_encodes {s : String} {m : Material} : decode s = .ok m ↔ m.encode = s := by
  unfold decode encode
  cases read : Base64.decode s with
  | ok bytes =>
    have written := Base64.encode_of_decode read
    constructor
    · rintro ⟨⟩
      exact written
    · intro same
      have := Base64.decode_eq_ok_iff.mpr same
      rw [read] at this
      cases this
      rfl
  | error e =>
    refine ⟨fun h => (by cases h), fun same => ?_⟩
    have := Base64.decode_eq_ok_iff.mpr same
    rw [read] at this
    cases this

end KeyRelay.Material
