import KeyRelay.Fault

/-!
Key material: the raw bytes of a key. It travels as standard padded base64, and a relayed key
is masked by a strict byte-wise XOR with a one-time key of the same length; operands of
different lengths are a protocol violation, never padded or cut.
-/
namespace KeyRelay

/-- The bytes of a key. -/
structure Material where
  bytes : List UInt8
deriving DecidableEq, Repr, Inhabited

namespace Material

/-- Length in bytes. -/
def len (m : Material) : Nat := m.bytes.length

/-- Length in bits. -/
def bitLen (m : Material) : Nat := 8 * m.len

/-- Parts joined in order. -/
def concat (parts : List (List UInt8)) : Material := ⟨parts.flatten⟩

/-- Byte-wise XOR with a mask of the same length. -/
def xor (m mask : Material) : Except Fault Material :=
  if m.len ≠ mask.len then .error (.violation (.lengthMismatch m.len mask.len))
  else .ok ⟨List.zipWith (· ^^^ ·) m.bytes mask.bytes⟩

/-- The base64 text of the material. -/
def encode (m : Material) : String := Base64.encode m.bytes

/-- Material from its base64 text. -/
def decode (text : String) : Except Fault Material :=
  match Base64.decode text with
  | .ok bytes => .ok ⟨bytes⟩
  | .error e => .error (.violation (.badEncoding e))

/-- How diagnostics show material: its length only. -/
def describe (m : Material) : String := s!"KeyMaterial({m.len} bytes)"

end Material

end KeyRelay
