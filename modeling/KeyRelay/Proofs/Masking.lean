import KeyRelay.Proofs.Base64Canonical
import KeyRelay.Relay

/-! Masking a relayed key and unmasking it. XOR with a one-time key of the same length undoes
itself, and the transport text is canonical base64, so unmasking inverts masking for every key
and accepts a cipher text exactly when it is the text of material with the announced number of
bits and the one-time key's length. Its failures are protocol violations that name the first
check the cipher fails: its text, its size, then its length (`Unmasks`). Main statement:
`Relay.unmask_inverts_mask`. -/

namespace KeyRelay

namespace Material

theorem xor_of_len_eq {m mask : Material} (same : m.len = mask.len) :
    m.xor mask = .ok ⟨List.zipWith (· ^^^ ·) m.bytes mask.bytes⟩ := by
  simp [xor, same]

theorem xor_of_len_ne {m mask : Material} (differ : m.len ≠ mask.len) :
    m.xor mask = .error (.violation (.lengthMismatch m.len mask.len)) := by
  simp [xor, differ]

theorem zipWith_xor_cancel {bytes mask : List UInt8} (same : bytes.length = mask.length) :
    List.zipWith (· ^^^ ·) (List.zipWith (· ^^^ ·) bytes mask) mask = bytes := by
  induction bytes generalizing mask with
  | nil => rfl
  | cons b bytes ih =>
    cases mask with
    | nil => cases same
    | cons e mask =>
      -- each byte is masked twice with the same byte
      simp only [List.zipWith_cons_cons, UInt8.xor_assoc, UInt8.xor_self, UInt8.xor_zero, List.cons.injEq,
        true_and]
      exact ih (by simpa using same)

/-- Masking with a key of the same length keeps the length and is undone by masking again. -/
theorem xor_xor {m mask : Material} (same : m.len = mask.len) :
    ∃ c, m.xor mask = .ok c ∧ c.len = m.len ∧ c.xor mask = .ok m := by
  have lengths : m.bytes.length = mask.bytes.length := same
  refine ⟨_, xor_of_len_eq same, ?kept, ?undone⟩
  case kept => simp [len, List.length_zipWith, lengths]
  case undone =>
    have kept : (⟨List.zipWith (· ^^^ ·) m.bytes mask.bytes⟩ : Material).len = mask.len := by
      simp [len, List.length_zipWith, lengths]
    rw [xor_of_len_eq kept, zipWith_xor_cancel same]

/-- What decoding a text can fail with: the base64 fault, as a protocol violation. -/
theorem decode_error {s : String} {f : Fault} (failed : decode s = .error f) :
    ∃ e, f = .violation (.badEncoding e) := by
  unfold decode at failed
  split at failed
  · cases failed
  · rename_i e _
    cases failed
    exact ⟨e, rfl⟩

end Material

namespace Relay

theorem wrap_eq (key otk : Material) : wrap key otk = (key.xor otk).map Material.encode := by
  unfold wrap
  cases key.xor otk <;> rfl

theorem unwrap_of_decode {cipher : String} {otk c : Material} {size : Nat} (read : Material.decode cipher = .ok c) :
    unwrap cipher otk size =
      if c.bitLen ≠ size then .error (.violation (.cipherSize c.bitLen size)) else c.xor otk := by
  unfold unwrap
  rw [read]
  rfl

theorem unwrap_of_decode_error {cipher : String} {otk : Material} {size : Nat} {f : Fault}
    (failed : Material.decode cipher = .error f) : unwrap cipher otk size = .error f := by
  unfold unwrap
  rw [failed]
  rfl

/-- Every outcome of unmasking `cipher` with `otk` against an announced `size`, check by check:
a text that is no material's encoding, material of another size, material of another length
than the one-time key, or the key, which masks back to the same text. -/
inductive Unmasks (cipher : String) (otk : Material) (size : Nat) : Except Fault Material → Prop
  | notBase64 (e : Base64.Error) (none : ∀ c : Material, c.encode ≠ cipher) :
      Unmasks cipher otk size (.error (.violation (.badEncoding e)))
  | wrongSize (c : Material) (text : c.encode = cipher) (bits : c.bitLen ≠ size) :
      Unmasks cipher otk size (.error (.violation (.cipherSize c.bitLen size)))
  | wrongLength (c : Material) (text : c.encode = cipher) (bits : c.bitLen = size) (differ : c.len ≠ otk.len) :
      Unmasks cipher otk size (.error (.violation (.lengthMismatch c.len otk.len)))
  | recovered (c key : Material) (text : c.encode = cipher) (bits : c.bitLen = size) (same : c.len = otk.len)
      (masks : wrap key otk = .ok cipher) : Unmasks cipher otk size (.ok key)

theorem unwrap_unmasks (cipher : String) (otk : Material) (size : Nat) :
    Unmasks cipher otk size (unwrap cipher otk size) := by
  cases read : Material.decode cipher with
  | error f =>
    obtain ⟨e, rfl⟩ := Material.decode_error read
    rw [unwrap_of_decode_error read]
    refine .notBase64 e fun c text => ?_
    rw [← Material.decode_ok_iff_encodes] at text
    rw [text] at read
    cases read
  | ok c =>
    have text := Material.decode_ok_iff_encodes.mp read
    rw [unwrap_of_decode read]
    by_cases bits : c.bitLen = size
    · rw [if_neg (not_not.mpr bits)]
      by_cases same : c.len = otk.len
      · obtain ⟨key, unmasked, kept, masked⟩ := Material.xor_xor same
        rw [unmasked]
        refine .recovered c key text bits same ?_
        rw [wrap_eq, masked, ← text]
        rfl
      · rw [Material.xor_of_len_ne same]
        exact .wrongLength c text bits same
    · rw [if_pos bits]
      exact .wrongSize c text bits

/-- Unmasking succeeds exactly on the text of material with the announced number of bits and
the one-time key's length. -/
theorem unwrap_ok_iff {cipher : String} {otk : Material} {size : Nat} :
    (∃ key, unwrap cipher otk size = .ok key) ↔
      ∃ c : Material, c.encode = cipher ∧ c.bitLen = size ∧ c.len = otk.len := by
  constructor
  · rintro ⟨key, unmasked⟩
    have outcome := unwrap_unmasks cipher otk size
    rw [unmasked] at outcome
    cases outcome with
    | recovered c _ text bits same => exact ⟨c, text, bits, same⟩
  · rintro ⟨c, text, bits, same⟩
    obtain ⟨key, unmasked, -, -⟩ := Material.xor_xor same
    refine ⟨key, ?_⟩
    rw [unwrap_of_decode (Material.decode_ok_iff_encodes.mpr text), if_neg (not_not.mpr bits), unmasked]

theorem unwrap_wrap {key otk : Material} (same : key.len = otk.len) :
    ∃ cipher, wrap key otk = .ok cipher ∧ unwrap cipher otk key.bitLen = .ok key := by
  obtain ⟨c, masked, kept, unmasked⟩ := Material.xor_xor same
  refine ⟨c.encode, by rw [wrap_eq, masked]; rfl, ?_⟩
  have bits : c.bitLen = key.bitLen := by simp [Material.bitLen, kept]
  rw [unwrap_of_decode (Material.decode_ok_iff_encodes.mpr rfl), if_neg (not_not.mpr bits), unmasked]

/-- Masking a key with a one-time key of its length gives a text that unmasks to the key at
the key's size; unmasking accepts exactly the canonical texts of material with the announced
number of bits and the one-time key's length, whose key masks back to the same text; and every
failure is a protocol violation naming the first failed check of text, size and length. -/
theorem unmask_inverts_mask :
    (∀ key otk : Material, key.len = otk.len →
      ∃ cipher, wrap key otk = .ok cipher ∧ unwrap cipher otk key.bitLen = .ok key) ∧
    (∀ (cipher : String) (otk : Material) (size : Nat),
      (∃ key, unwrap cipher otk size = .ok key) ↔
        ∃ c : Material, c.encode = cipher ∧ c.bitLen = size ∧ c.len = otk.len) ∧
    (∀ (cipher : String) (otk : Material) (size : Nat), Unmasks cipher otk size (unwrap cipher otk size)) :=
  ⟨fun _ _ same => unwrap_wrap same, fun _ _ _ => unwrap_ok_iff, unwrap_unmasks⟩

/-- A key of four bytes, masked and unmasked at its 32 bits. -/
theorem unmask_inverts_mask_on_four_bytes :
    (⟨[1, 2, 3, 4]⟩ : Material).len = (⟨[0xf0, 0x0f, 0xff, 0x00]⟩ : Material).len ∧
      ∃ cipher, wrap ⟨[1, 2, 3, 4]⟩ ⟨[0xf0, 0x0f, 0xff, 0x00]⟩ = .ok cipher ∧
        unwrap cipher ⟨[0xf0, 0x0f, 0xff, 0x00]⟩ (⟨[1, 2, 3, 4]⟩ : Material).bitLen = .ok ⟨[1, 2, 3, 4]⟩ :=
  ⟨by decide, unmask_inverts_mask.1 _ _ (by decide)⟩

end Relay

end KeyRelay
