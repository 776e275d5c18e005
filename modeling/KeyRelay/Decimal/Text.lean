import KeyRelay.Decimal.Shortest

/-!
Text of binary64 values in the three layouts this library writes: every digit and no exponent
(`positional`), the compact layout of JSON documents (`compact`), and a fixed number of places
(`fixed`). Non-finite values are `NaN`, `inf` and `-inf`; a negative value, negative zero
included, carries a minus sign.
-/
namespace KeyRelay.Decimal

open KeyRelay.Binary

/-- The shortest decimal of a binary64 magnitude, zero for a non-finite one. -/
def ofMagnitude : Magnitude → Numeral
  | .finite m e => if m = 0 then ⟨0, 0⟩ else shortest m e
  | _ => ⟨0, 0⟩

/-- The sign and the text of the magnitude, or the name of a non-finite value. -/
private def withSign (bits : UInt64) (finite : Nat → Int → String) : String :=
  let neg := double.negative bits.toNat
  match double.magnitude bits.toNat with
  | .nan _ => "NaN"
  | .infinite => if neg then "-inf" else "inf"
  | .finite m e => (if neg then "-" else "") ++ finite m e

/-- Every significant digit and no exponent: `1e21` is `1000000000000000000000`, `0.1` is
`0.1`, and a whole value has no point. -/
def positional (bits : UInt64) : String :=
  withSign bits fun m e => (ofMagnitude (.finite m e)).positional

/-- The compact layout of a finite value: `8000.0`, `0.1`, `1e300`, `5e-324`. -/
def compact (bits : UInt64) : String :=
  withSign bits fun m e => (ofMagnitude (.finite m e)).compact

/-- The exact value rounded half to even to `places` digits after the point. -/
def fixed (places : Nat) (bits : UInt64) : String :=
  withSign bits fun m e =>
    let units := fixedUnits m e places
    let whole := units / Nat.pow 10 places
    let frac := toString (units % Nat.pow 10 places)
    if places = 0 then toString whole
    else toString whole ++ "." ++ zeros (places - frac.length) ++ frac

/-- `positional`, with `.0` added when the text has no point, as type-error messages write a
float. -/
def positionalPointed (bits : UInt64) : String :=
  let s := positional bits
  match double.magnitude bits.toNat with
  | .finite _ _ => if s.toList.contains '.' then s else s ++ ".0"
  | _ => s

end KeyRelay.Decimal
