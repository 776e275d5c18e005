/-!
Binary floating-point numbers as bit patterns. A pattern of one of the interchange formats
(binary16, binary32, binary64) is read as a sign and a magnitude: a finite value `m * 2 ^ e`,
an infinity, or a NaN with its payload. The other direction writes a finite value into a
format only when the format holds it exactly, which is the question a compact encoder asks
when it picks the narrowest of the three.

NaN payloads follow the widening rule of the hardware: widening sets the quiet bit and keeps
the payload in the leading fraction bits, so a binary64 NaN is held exactly by a narrower
format when it is quiet and the dropped low fraction bits are zero.
-/
namespace KeyRelay.Binary

/-- A binary interchange format, by the bits of its significand (the leading one included)
and of its exponent field. -/
structure Format where
  precision : Nat
  exponentBits : Nat
deriving Repr, DecidableEq

/-- IEEE 754 binary16. -/
def half : Format := ⟨11, 5⟩

/-- IEEE 754 binary32. -/
def single : Format := ⟨24, 8⟩

/-- IEEE 754 binary64. -/
def double : Format := ⟨53, 11⟩

/-- The magnitude that a bit pattern stands for. -/
inductive Magnitude where
  /-- The finite value `m * 2 ^ e`. -/
  | finite (m : Nat) (e : Int)
  | infinite
  /-- A NaN with the fraction bits of its pattern. -/
  | nan (payload : Nat)
deriving Repr, DecidableEq

namespace Format

/-- Bits of the fraction field. -/
def fractionBits (f : Format) : Nat := f.precision - 1

def bias (f : Format) : Nat := Nat.pow 2 (f.exponentBits - 1) - 1

/-- Every field set: the exponent field of infinities and NaNs. -/
def topField (f : Format) : Nat := Nat.pow 2 f.exponentBits - 1

/-- The exponent of the last fraction bit of the smallest subnormal. -/
def leastExponent (f : Format) : Int := 1 - (f.bias : Int) - (f.fractionBits : Int)

/-- The sign of a pattern. -/
def negative (f : Format) (bits : Nat) : Bool :=
  bits / Nat.pow 2 (f.exponentBits + f.fractionBits) % 2 == 1

/-- The magnitude of a pattern. -/
def magnitude (f : Format) (bits : Nat) : Magnitude :=
  let frac := bits % Nat.pow 2 f.fractionBits
  let field := bits / Nat.pow 2 f.fractionBits % Nat.pow 2 f.exponentBits
  if field = f.topField then
    if frac = 0 then .infinite else .nan frac
  else if field = 0 then .finite frac f.leastExponent
  else .finite (frac + Nat.pow 2 f.fractionBits) ((field : Int) - f.bias - f.fractionBits)

end Format

/-- Splits `m` into an odd part and the number of factors two taken out; zero stays zero. -/
def oddPart (m : Nat) : Nat × Nat :=
  if h : m ≠ 0 ∧ m % 2 = 0 then
    let r := oddPart (m / 2)
    (r.1, r.2 + 1)
  else (m, 0)
termination_by m
decreasing_by omega

/-- Bits of a positive number. -/
def bitLength (m : Nat) : Nat := if m = 0 then 0 else Nat.log2 m + 1

namespace Format

/-- The pattern of a finite value `m * 2 ^ e` with the given sign, if the format holds it
exactly. -/
def finiteBits? (f : Format) (neg : Bool) (m : Nat) (e : Int) : Option Nat :=
  let sign := if neg then Nat.pow 2 (f.exponentBits + f.fractionBits) else 0
  if m = 0 then some sign else
  let (odd, z) := oddPart m
  let low : Int := e + z
  let len := bitLength odd
  let lead : Int := low + len - 1
  let emin : Int := 1 - (f.bias : Int)
  if len > f.precision ∨ low < f.leastExponent ∨ lead > f.bias then none
  else if lead ≥ emin then
    let field := (lead + f.bias).toNat
    let frac := odd * Nat.pow 2 (f.precision - len) - Nat.pow 2 f.fractionBits
    some (sign + field * Nat.pow 2 f.fractionBits + frac)
  else
    some (sign + odd * Nat.pow 2 (low - f.leastExponent).toNat)

/-- The pattern of infinity with the given sign. -/
def infinityBits (f : Format) (neg : Bool) : Nat :=
  (if neg then Nat.pow 2 (f.exponentBits + f.fractionBits) else 0) + f.topField * Nat.pow 2 f.fractionBits

end Format

/-- The quiet bit of a binary64 NaN fraction. -/
def quietBit : Nat := Nat.pow 2 51

/-- Widens a pattern of `f` to binary64: exact for finite values and infinities, and a NaN
keeps its payload in the leading fraction bits with the quiet bit set. -/
def widen (f : Format) (bits : Nat) : Nat :=
  let neg := f.negative bits
  match f.magnitude bits with
  | .finite m e => (double.finiteBits? neg m e).getD 0
  | .infinite => double.infinityBits neg
  | .nan payload =>
    double.infinityBits neg ||| quietBit ||| payload * Nat.pow 2 (52 - f.fractionBits)

/-- The pattern of `f` that holds the binary64 pattern `bits` exactly, if there is one. -/
def narrow? (f : Format) (bits : Nat) : Option Nat :=
  let neg := double.negative bits
  match double.magnitude bits with
  | .finite m e => f.finiteBits? neg m e
  | .infinite => some (f.infinityBits neg)
  | .nan payload =>
    let dropped := 52 - f.fractionBits
    if payload &&& quietBit ≠ 0 ∧ payload % Nat.pow 2 dropped = 0 then
      some (f.infinityBits neg ||| payload / Nat.pow 2 dropped)
    else none

/-- `num / den` rounded to a whole number, a tie going to the even one. -/
def roundHalfEven (num den : Nat) : Nat :=
  let q := num / den
  let r := num % den
  if 2 * r > den ∨ (2 * r = den ∧ q % 2 = 1) then q + 1 else q

/-- The exponent `L` with `2 ^ L ≤ num / den < 2 ^ (L + 1)`, for positive `num` and `den`. -/
def binaryExponent (num den : Nat) : Int :=
  let guess : Int := (bitLength num : Int) - bitLength den
  let below := num * Nat.pow 2 (-guess).toNat < den * Nat.pow 2 guess.toNat
  if below then guess - 1 else guess

/-- The binary64 pattern nearest to `num / den` with the given sign, a tie going to the even
significand; a magnitude past the largest finite value is infinite. -/
def nearest (neg : Bool) (num den : Nat) : Nat :=
  if num = 0 ∨ den = 0 then (if neg then Nat.pow 2 63 else 0) else
  let scale : Int := max (binaryExponent num den - 52) (-1074)
  let q := roundHalfEven (num * Nat.pow 2 (-scale).toNat) (den * Nat.pow 2 scale.toNat)
  let (q, scale) := if q ≥ Nat.pow 2 53 then (q / 2, scale + 1) else (q, scale)
  if scale > 971 then double.infinityBits neg
  else (double.finiteBits? neg q scale).getD 0

/-- The binary64 value nearest to a natural number. -/
def ofNat (n : Nat) : Float := Float.ofBits (nearest false n 1).toUInt64

end KeyRelay.Binary
