import KeyRelay.Decimal.Binary

/-!
Reading numerals from text the way the standard text-to-number conversions read them.

An unsigned integer is an optional `+` and decimal digits, read from the left: the first
character that is not a digit refuses the text as an invalid digit, and the first digit that
takes the value to the width's bound refuses it as too large. An empty text is refused as
empty, and a lone sign as an invalid digit.

A float is an optional sign followed by `inf`, `infinity` or `nan` in any case, or by digits
with an optional point and an optional exponent (`e` or `E`, an optional sign, and digits),
with at least one digit before the exponent. It is rounded to the nearest binary64 value, ties
to even; past the largest finite value it is infinite, and a negative numeral keeps its sign
even when it rounds to zero.
-/
namespace KeyRelay.Decimal

open KeyRelay.Binary

/-- Why a text is not an unsigned integer. -/
inductive IntError where
  | empty
  | invalidDigit
  | tooLarge
deriving Repr, DecidableEq

/-- The text of a refusal, as the conversion states it. -/
def IntError.message : IntError → String
  | .empty => "cannot parse integer from empty string"
  | .invalidDigit => "invalid digit found in string"
  | .tooLarge => "number too large to fit in target type"

/-- Reads digits onto `acc`: refused at the first character that is not a digit, or at the
first digit that brings the value to `bound`. -/
def readDigits (bound : Nat) : List Char → Nat → Except IntError Nat
  | [], acc => .ok acc
  | c :: rest, acc =>
    if c.isDigit then
      let next := 10 * acc + (c.toNat - 48)
      if next ≥ bound then .error .tooLarge else readDigits bound rest next
    else .error .invalidDigit

/-- An unsigned integer below `2 ^ bits` from its decimal text. -/
def parseWord (bits : Nat) (s : String) : Except IntError Nat :=
  match s.toList with
  | [] => .error .empty
  | ['+'] => .error .invalidDigit
  | ['-'] => .error .invalidDigit
  | '+' :: ds => readDigits (Nat.pow 2 bits) ds 0
  | ds => readDigits (Nat.pow 2 bits) ds 0

/-- The binary64 pattern nearest to `± m * 10 ^ e`. Past `10 ^ 400` every nonzero value is
infinite, and below `10 ^ -400` it is zero, so such exponents need no power. -/
def nearestBits (neg : Bool) (m : Nat) (e : Int) : UInt64 :=
  let zero : UInt64 := if neg then 0x8000000000000000 else 0
  if m = 0 then zero
  else if e > 400 then (double.infinityBits neg).toUInt64
  else if e + (toString m).length < -400 then zero
  else if e ≥ 0 then (nearest neg (m * Nat.pow 10 e.toNat) 1).toUInt64
  else (nearest neg m (Nat.pow 10 (-e).toNat)).toUInt64

/-- The binary64 pattern of an integer. -/
def intBits (n : Int) : UInt64 := nearestBits (n < 0) n.natAbs 0

/-- Why a text is not a float. -/
inductive FloatError where
  | empty
  | invalid
deriving Repr, DecidableEq

/-- The text of a refusal, as the conversion states it. -/
def FloatError.message : FloatError → String
  | .empty => "cannot parse float from empty string"
  | .invalid => "invalid float literal"

/-- The value of decimal digits. -/
def digitsValue (ds : List Char) : Nat := ds.foldl (fun n d => 10 * n + (d.toNat - 48)) 0

/-- The leading decimal digits and the rest. -/
def splitDigits (cs : List Char) : List Char × List Char :=
  (cs.takeWhile Char.isDigit, cs.dropWhile Char.isDigit)

/-- The exponent part after the mantissa: nothing, or `e`/`E`, a sign and at least one digit,
ending the text. -/
def exponentOf? : List Char → Option Int
  | [] => some 0
  | e :: rest =>
    if e == 'e' || e == 'E' then
      let (neg, rest) := match rest with
        | '-' :: r => (true, r)
        | '+' :: r => (false, r)
        | r => (false, r)
      let (ds, tail) := splitDigits rest
      if ds.isEmpty || !tail.isEmpty then none
      else
        let v : Int := digitsValue ds
        some (if neg then -v else v)
    else none

/-- The pattern of a numeral without its sign: the named values, or digits, an optional
point and fraction, and an optional exponent. -/
def unsignedBits? (neg : Bool) (body : List Char) : Option UInt64 :=
  let lower := body.map Char.toLower
  if lower = "inf".toList || lower = "infinity".toList then
    some (double.infinityBits neg).toUInt64
  else if lower = "nan".toList then
    some ((if neg then 0xfff8000000000000 else 0x7ff8000000000000 : UInt64))
  else
    let (whole, rest) := splitDigits body
    let (fraction, rest) := match rest with
      | '.' :: r => splitDigits r
      | r => ([], r)
    if whole.isEmpty && fraction.isEmpty then none
    else do
      let shift ← exponentOf? rest
      pure (nearestBits neg (digitsValue (whole ++ fraction)) (shift - fraction.length))

/-- A float from its text. -/
def parseFloat (s : String) : Except FloatError UInt64 :=
  let signed (neg : Bool) (body : List Char) : Except FloatError UInt64 :=
    match unsignedBits? neg body with
    | some bits => .ok bits
    | none => .error .invalid
  match s.toList with
  | [] => .error .empty
  | '-' :: body => signed true body
  | '+' :: body => signed false body
  | body => signed false body

end KeyRelay.Decimal
