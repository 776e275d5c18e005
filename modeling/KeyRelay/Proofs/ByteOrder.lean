import KeyRelay.Store.File

/-! Byte order against number order. Big-endian bytes of a fixed width compare, byte by byte,
as the numbers they spell, and so two keys that join such parts compare as the tuples of their
numbers. This is what lets a table of byte-string keys read its entries in the order of the
identifiers, times and arrival numbers behind them. -/

namespace KeyRelay

/-- Joined lists whose first parts have one length compare by the first parts, then the
second. -/
theorem append_lt_append_iff {α : Type} [LT α] {a a' b b' : List α} (same : a.length = a'.length) :
    a ++ b < a' ++ b' ↔ a < a' ∨ (a = a' ∧ b < b') := by
  induction a generalizing a' with
  | nil =>
    obtain rfl : a' = [] := List.eq_nil_of_length_eq_zero same.symm
    simp
  | cons x a ih =>
    obtain ⟨y, a', rfl⟩ : ∃ y a'', a' = y :: a'' := List.exists_cons_of_length_eq_add_one same.symm
    simp only [List.cons_append, List.cons_lt_cons_iff, List.cons.injEq]
    rw [ih (by simpa using same)]
    constructor
    · rintro (lt | ⟨rfl, lt | ⟨rfl, lt⟩⟩)
      · exact .inl (.inl lt)
      · exact .inl (.inr ⟨rfl, lt⟩)
      · exact .inr ⟨⟨rfl, rfl⟩, lt⟩
    · rintro ((lt | ⟨rfl, lt⟩) | ⟨⟨rfl, rfl⟩, lt⟩)
      · exact .inl lt
      · exact .inr ⟨rfl, .inl lt⟩
      · exact .inr ⟨rfl, .inr ⟨rfl, lt⟩⟩

theorem append_eq_append_iff_of_length {α : Type} {a a' b b' : List α} (same : a.length = a'.length) :
    a ++ b = a' ++ b' ↔ a = a' ∧ b = b' :=
  ⟨fun joined => List.append_inj joined same, fun ⟨first, second⟩ => first ▸ second ▸ rfl⟩

namespace Ident

@[simp] theorem length_bigEndian (n v : Nat) : (bigEndian n v).length = n := by
  induction n generalizing v with
  | zero => rfl
  | succ n ih => simp [bigEndian, ih]

private theorem toUInt8_mod_toNat (v : Nat) : (v % 256).toUInt8.toNat = v % 256 := by
  simp [Nat.toUInt8, UInt8.toNat_ofNat', Nat.mod_mod_of_dvd]

section Bounded

variable {n v w : Nat}

private theorem div_lt_of_lt_pow (bounded : v < Nat.pow 256 (n + 1)) : v / 256 < Nat.pow 256 n := by
  have step : Nat.pow 256 (n + 1) = Nat.pow 256 n * 256 := rfl
  omega

/-- Big-endian bytes of one width are equal exactly when their numbers are. -/
theorem bigEndian_inj (hv : v < Nat.pow 256 n) (hw : w < Nat.pow 256 n) :
    bigEndian n v = bigEndian n w ↔ v = w := by
  induction n generalizing v w with
  | zero =>
    change v < 1 at hv
    change w < 1 at hw
    simp only [bigEndian, true_iff]
    omega
  | succ n ih =>
    simp only [bigEndian]
    rw [append_eq_append_iff_of_length (by simp), ih (div_lt_of_lt_pow hv) (div_lt_of_lt_pow hw)]
    have low : (v % 256).toUInt8 = (w % 256).toUInt8 ↔ v % 256 = w % 256 := by
      rw [← UInt8.toNat_inj, toUInt8_mod_toNat, toUInt8_mod_toNat]
    simp only [List.cons.injEq, and_true, low]
    omega

/-- Big-endian bytes of one width compare as their numbers. -/
theorem bigEndian_lt_iff (hv : v < Nat.pow 256 n) (hw : w < Nat.pow 256 n) :
    bigEndian n v < bigEndian n w ↔ v < w := by
  induction n generalizing v w with
  | zero =>
    change v < 1 at hv
    change w < 1 at hw
    simp only [bigEndian, List.lt_irrefl, false_iff]
    omega
  | succ n ih =>
    simp only [bigEndian]
    have high := div_lt_of_lt_pow hv
    have high' := div_lt_of_lt_pow hw
    rw [append_lt_append_iff (by simp), ih high high', bigEndian_inj high high']
    have low : [(v % 256).toUInt8] < [(w % 256).toUInt8] ↔ v % 256 < w % 256 := by
      simp only [List.cons_lt_cons_iff, List.not_lt_nil, and_false, or_false, UInt8.lt_iff_toNat_lt,
        toUInt8_mod_toNat]
    rw [low]
    omega

end Bounded

@[simp] theorem length_toBytes (i : Ident) : i.toBytes.length = 16 := length_bigEndian 16 i.val

theorem val_inj {i j : Ident} : i.val = j.val ↔ i = j :=
  ⟨fun same => by cases i; cases j; cases same; rfl, fun same => same ▸ rfl⟩

theorem toBytes_inj {i j : Ident} (hi : i.val < space) (hj : j.val < space) :
    i.toBytes = j.toBytes ↔ i = j := by
  rw [toBytes, toBytes, bigEndian_inj hi hj, val_inj]

theorem toBytes_lt_iff {i j : Ident} (hi : i.val < space) (hj : j.val < space) :
    i.toBytes < j.toBytes ↔ i.val < j.val :=
  bigEndian_lt_iff hi hj

theorem toBytes_le_iff {i j : Ident} (hi : i.val < space) (hj : j.val < space) :
    i.toBytes ≤ j.toBytes ↔ i.val ≤ j.val := by
  rw [← List.not_lt, toBytes_lt_iff hj hi, Nat.not_lt]

end Ident

@[simp] theorem length_wordBytes (v : Nat) : (wordBytes v).length = 8 := Ident.length_bigEndian 8 v

section Keys

variable {t a t' a' : Nat}

private theorem word_bound (bounded : t ≤ Env.wordMax) : t < Nat.pow 256 8 := by
  have top : Nat.pow 256 8 = Env.wordMax + 1 := rfl
  omega

theorem wordBytes_inj (ht : t ≤ Env.wordMax) (ht' : t' ≤ Env.wordMax) :
    wordBytes t = wordBytes t' ↔ t = t' :=
  Ident.bigEndian_inj (word_bound ht) (word_bound ht')

theorem wordBytes_lt_iff (ht : t ≤ Env.wordMax) (ht' : t' ≤ Env.wordMax) :
    wordBytes t < wordBytes t' ↔ t < t' :=
  Ident.bigEndian_lt_iff (word_bound ht) (word_bound ht')

/-- A link's index compares its keys by link, then timestamp, then arrival. -/
theorem linkBlockKey_lt_iff {l l' : LinkId} (hl : l.val < Ident.space) (hl' : l'.val < Ident.space)
    (ht : t ≤ Env.wordMax) (ha : a ≤ Env.wordMax) (ht' : t' ≤ Env.wordMax) (ha' : a' ≤ Env.wordMax) :
    linkBlockKey l t a < linkBlockKey l' t' a' ↔
      l.val < l'.val ∨ (l = l' ∧ (t < t' ∨ (t = t' ∧ a < a'))) := by
  simp only [linkBlockKey, List.append_assoc]
  rw [append_lt_append_iff (by simp), Ident.toBytes_lt_iff hl hl', Ident.toBytes_inj hl hl',
    append_lt_append_iff (by simp), wordBytes_lt_iff ht ht', wordBytes_inj ht ht', wordBytes_lt_iff ha ha']

theorem linkBlockKey_inj {l l' : LinkId} (hl : l.val < Ident.space) (hl' : l'.val < Ident.space)
    (ht : t ≤ Env.wordMax) (ha : a ≤ Env.wordMax) (ht' : t' ≤ Env.wordMax) (ha' : a' ≤ Env.wordMax) :
    linkBlockKey l t a = linkBlockKey l' t' a' ↔ l = l' ∧ t = t' ∧ a = a' := by
  simp only [linkBlockKey, List.append_assoc]
  rw [append_eq_append_iff_of_length (by simp), Ident.toBytes_inj hl hl',
    append_eq_append_iff_of_length (by simp), wordBytes_inj ht ht', wordBytes_inj ha ha']

/-- A link's blocks are the index entries from its first possible key to its last. -/
theorem linkBlockKey_between {link l : LinkId} (hlink : link.val < Ident.space) (hl : l.val < Ident.space)
    (ht : t ≤ Env.wordMax) (ha : a ≤ Env.wordMax) :
    linkBlockKey link 0 0 ≤ linkBlockKey l t a ∧ linkBlockKey l t a ≤ linkBlockKey link Env.wordMax Env.wordMax ↔
      l = link := by
  have zero : (0 : Nat) ≤ Env.wordMax := Nat.zero_le _
  have top : Env.wordMax ≤ Env.wordMax := Nat.le_refl _
  rw [← List.not_lt, ← List.not_lt, linkBlockKey_lt_iff hl hlink ht ha zero zero,
    linkBlockKey_lt_iff hlink hl top top ht ha, ← Ident.val_inj]
  omega

/-- Within one link, the index orders blocks by timestamp, then arrival. -/
theorem linkBlockKey_le_iff {l : LinkId} (hl : l.val < Ident.space) (ht : t ≤ Env.wordMax)
    (ha : a ≤ Env.wordMax) (ht' : t' ≤ Env.wordMax) (ha' : a' ≤ Env.wordMax) :
    linkBlockKey l t a ≤ linkBlockKey l t' a' ↔ t < t' ∨ (t = t' ∧ a ≤ a') := by
  rw [← List.not_lt, linkBlockKey_lt_iff hl hl ht' ha' ht ha]
  simp only [Nat.lt_irrefl, true_and, false_or]
  omega

end Keys

section Sessions

variable {ksid ksid' : Ksid} {key key' : KeyId}

/-- Rows and clear keys compare their keys by session, then key id. -/
theorem sessionKey_lt_iff (hs : ksid.val < Ident.space) (hk : key.val < Ident.space)
    (hs' : ksid'.val < Ident.space) (hk' : key'.val < Ident.space) :
    sessionKey ksid key < sessionKey ksid' key' ↔
      ksid.val < ksid'.val ∨ (ksid = ksid' ∧ key.val < key'.val) := by
  rw [sessionKey, sessionKey, append_lt_append_iff (by simp), Ident.toBytes_lt_iff hs hs',
    Ident.toBytes_inj hs hs', Ident.toBytes_lt_iff hk hk']

theorem sessionKey_inj (hs : ksid.val < Ident.space) (hk : key.val < Ident.space)
    (hs' : ksid'.val < Ident.space) (hk' : key'.val < Ident.space) :
    sessionKey ksid key = sessionKey ksid' key' ↔ ksid = ksid' ∧ key = key' := by
  rw [sessionKey, sessionKey, append_eq_append_iff_of_length (by simp), Ident.toBytes_inj hs hs',
    Ident.toBytes_inj hk hk']

/-- A session's rows and clear keys are the entries from its first possible key to its last. -/
theorem sessionKey_between (hs : ksid.val < Ident.space) (hs' : ksid'.val < Ident.space)
    (hk' : key'.val < Ident.space) :
    sessionKey ksid ⟨0⟩ ≤ sessionKey ksid' key' ∧ sessionKey ksid' key' ≤ sessionKey ksid ⟨Ident.space - 1⟩ ↔
      ksid' = ksid := by
  have zero : (⟨0⟩ : KeyId).val < Ident.space := Nat.pos_of_ne_zero (by decide)
  have top : (⟨Ident.space - 1⟩ : KeyId).val < Ident.space := Nat.sub_lt zero Nat.one_pos
  rw [← List.not_lt, ← List.not_lt, sessionKey_lt_iff hs' hk' hs zero, sessionKey_lt_iff hs top hs' hk',
    ← Ident.val_inj]
  dsimp only
  omega

/-- Within one session, rows and clear keys come by key id. -/
theorem sessionKey_le_iff (hs : ksid.val < Ident.space) (hk : key.val < Ident.space)
    (hk' : key'.val < Ident.space) :
    sessionKey ksid key ≤ sessionKey ksid key' ↔ key.val ≤ key'.val := by
  rw [← List.not_lt, sessionKey_lt_iff hs hk' hs hk]
  simp only [Nat.lt_irrefl, true_and, false_or, Nat.not_lt]

end Sessions

end KeyRelay
