import KeyRelay.Decimal.Binary

/-!
Decimal text of binary64 values.

`shortest` finds, for a finite positive value, the decimal with the fewest significant digits
that reads back as the same value, and of two such the one nearer to it. A decimal reads back
as the value when it lies in the value's rounding interval, whose ends belong to it when the
significand is even. The search tries one, two, ... seventeen digits; with `n` digits only the
two neighbours of the value on the grid of that many digits can lie in the interval.

`fixed` rounds the exact binary value to a number of places, a tie going to the even digit.

Two layouts print a decimal: `positional` writes every digit and never an exponent, and
`compact` switches to an exponent outside sixteen integer digits and five leading zeros, and
keeps a fraction point on integers.
-/
namespace KeyRelay.Decimal

/-- A decimal numeral: the value `digits * 10 ^ exponent`. -/
structure Numeral where
  digits : Nat
  exponent : Int
deriving Repr, DecidableEq

/-- `a * 2 ^ q ≤ b * 10 ^ k`, in whole numbers. -/
def scaledLe (a : Nat) (q : Int) (b : Nat) (k : Int) : Bool :=
  a * Nat.pow 2 q.toNat * Nat.pow 10 (-k).toNat ≤ b * Nat.pow 10 k.toNat * Nat.pow 2 (-q).toNat

/-- `a * 2 ^ q < b * 10 ^ k`, in whole numbers. -/
def scaledLt (a : Nat) (q : Int) (b : Nat) (k : Int) : Bool :=
  a * Nat.pow 2 q.toNat * Nat.pow 10 (-k).toNat < b * Nat.pow 10 k.toNat * Nat.pow 2 (-q).toNat

/-- `⌊a * 2 ^ q / 10 ^ k⌋`. -/
def scaledFloor (a : Nat) (q : Int) (k : Int) : Nat :=
  a * Nat.pow 2 q.toNat * Nat.pow 10 (-k).toNat / (Nat.pow 10 k.toNat * Nat.pow 2 (-q).toNat)

/-- Number of decimal digits of a positive number. -/
def digitCount (n : Nat) : Nat := (Nat.toDigits 10 n).length

/-- The exponent `E` with `10 ^ E ≤ a * 2 ^ q < 10 ^ (E + 1)`, for `a > 0`. -/
def decimalExponent (a : Nat) (q : Int) : Int :=
  let num := a * Nat.pow 2 q.toNat
  let den := Nat.pow 2 (-q).toNat
  if den ≤ num then (digitCount (num / den) : Int) - 1
  else
    -- the least `j` with `num * 10 ^ j ≥ den` is the digit count of `⌈den / num⌉ - 1`
    -(digitCount ((den + num - 1) / num - 1) : Int)

/-- The reals that round to a positive binary64 value `m * 2 ^ e`: numerators of its low end,
of the value and of its high end over `2 ^ scale`, and whether the ends belong to it. -/
structure Interval where
  low : Nat
  mid : Nat
  high : Nat
  scale : Int
  closed : Bool
deriving Repr

/-- The rounding interval: halfway to each neighbour, the lower gap halved where the
significand is a power of two above the subnormal range. -/
def Interval.around (m : Nat) (e : Int) : Interval :=
  let asymmetric := m = Nat.pow 2 52 ∧ e > -1074
  { low := if asymmetric then 4 * m - 1 else 4 * m - 2
    mid := 4 * m
    high := 4 * m + 2
    scale := e - 2
    closed := m % 2 == 0 }

namespace Interval

/-- The decimal `t * 10 ^ k` lies above the low end. -/
def aboveLow (r : Interval) (t : Nat) (k : Int) : Bool :=
  if r.closed then scaledLe r.low r.scale t k else scaledLt r.low r.scale t k

/-- The decimal `t * 10 ^ k` lies below the high end. -/
def belowHigh (r : Interval) (t : Nat) (k : Int) : Bool :=
  let lhs := t * Nat.pow 10 k.toNat * Nat.pow 2 (-r.scale).toNat
  let rhs := r.high * Nat.pow 2 r.scale.toNat * Nat.pow 10 (-k).toNat
  if r.closed then lhs ≤ rhs else lhs < rhs

end Interval

/-- Removes trailing zero digits, raising the exponent. -/
def Numeral.trim (d : Numeral) : Numeral :=
  if h : d.digits ≠ 0 ∧ d.digits % 10 = 0 then
    Numeral.trim ⟨d.digits / 10, d.exponent + 1⟩
  else d
termination_by d.digits
decreasing_by omega

/-- Searches the grids of `n`, `n + 1`, ... significant digits for a decimal in the interval;
`fuel` bounds the number of grids. -/
def search (r : Interval) (top : Int) : Nat → Nat → Option Numeral
  | 0, _ => none
  | fuel + 1, n =>
    let k := top + 1 - n
    let lo := scaledFloor r.mid r.scale k
    let hi := lo + 1
    let loIn := r.aboveLow lo k
    let hiIn := r.belowHigh hi k
    if loIn ∧ hiIn then
      -- the nearer of the two; an exact tie goes to the even one
      if scaledLt (2 * r.mid) r.scale (lo + hi) k then some ⟨lo, k⟩
      else if scaledLe (2 * r.mid) r.scale (lo + hi) k then
        some ⟨if lo % 2 = 0 then lo else hi, k⟩
      else some ⟨hi, k⟩
    else if loIn then some ⟨lo, k⟩
    else if hiIn then some ⟨hi, k⟩
    else search r top fuel (n + 1)

/-- The shortest decimal that reads back as the positive finite value `m * 2 ^ e`. -/
def shortest (m : Nat) (e : Int) : Numeral :=
  let r := Interval.around m e
  let top := decimalExponent r.mid r.scale
  ((search r top 17 1).getD ⟨scaledFloor r.mid r.scale 0, 0⟩).trim

/-- The value `m * 2 ^ e` in units of `10 ^ -places`, rounded half to even. -/
def fixedUnits (m : Nat) (e : Int) (places : Nat) : Nat :=
  Binary.roundHalfEven (m * Nat.pow 2 e.toNat * Nat.pow 10 places) (Nat.pow 2 (-e).toNat)

/-- `n` zeros. -/
def zeros (n : Nat) : String := String.ofList (List.replicate n '0')

/-- Every digit of a decimal, with a point only where the value has a fraction. -/
def Numeral.positional (d : Numeral) : String :=
  let s := toString d.digits
  if d.exponent ≥ 0 then s ++ zeros d.exponent.toNat
  else
    let frac := (-d.exponent).toNat
    if frac < s.length then
      String.ofList (s.toList.take (s.length - frac)) ++ "." ++ String.ofList (s.toList.drop (s.length - frac))
    else "0." ++ zeros (frac - s.length) ++ s

/-- The digits of a decimal with an exponent outside sixteen integer digits and five leading
zeros, and with a point on every number. -/
def Numeral.compact (d : Numeral) : String :=
  let s := toString d.digits
  let len := s.length
  let kk : Int := len + d.exponent
  if 0 ≤ d.exponent ∧ kk ≤ 16 then s ++ zeros d.exponent.toNat ++ ".0"
  else if 0 < kk ∧ kk ≤ 16 then
    String.ofList (s.toList.take kk.toNat) ++ "." ++ String.ofList (s.toList.drop kk.toNat)
  else if -5 < kk ∧ kk ≤ 0 then "0." ++ zeros (-kk).toNat ++ s
  else if len = 1 then s ++ "e" ++ toString (kk - 1)
  else String.ofList (s.toList.take 1) ++ "." ++ String.ofList (s.toList.drop 1) ++ "e" ++ toString (kk - 1)

end KeyRelay.Decimal
