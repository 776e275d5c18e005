import KeyRelay.Decimal.Binary
import KeyRelay.Text.Escape

/-!
CBOR data item heads (RFC 8949, section 3): the major type and its argument, as a reader meets
them one at a time, with the writing of a head in its shortest form. Floats are held as
binary64 patterns; a float head is written in the narrowest of binary16, binary32 and binary64
that holds the value exactly.

`ReadError` names the ways reading stops: the input ends, a head is malformed (by the offset
of its first byte), the data does not fit the type being read (with an offset where the
reader knows one), or items nest too deeply.
-/
namespace KeyRelay.Cbor

/-- A data item head. A length of `none` opens an indefinite-length item. -/
inductive Head where
  | unsigned (n : Nat)
  /-- The negative integer `-1 - n`. -/
  | negative (n : Nat)
  | bytes (len : Option Nat)
  | text (len : Option Nat)
  | array (len : Option Nat)
  | map (len : Option Nat)
  | tag (n : Nat)
  | simple (n : Nat)
  /-- A float, widened to a binary64 pattern. -/
  | float (bits : UInt64)
  /-- The break that closes an indefinite-length item. -/
  | stop
deriving Repr, DecidableEq, Inhabited

/-- Simple values of the data model. -/
def simpleFalse : Nat := 20
def simpleTrue : Nat := 21
def simpleNull : Nat := 22
def simpleUndefined : Nat := 23

/-- Tag of an unsigned bignum. -/
def tagBigPositive : Nat := 2
/-- Tag of a negative bignum. -/
def tagBigNegative : Nat := 3

/-- The initial byte and argument bytes of a major type with an argument, shortest form. -/
def argument (major : Nat) (n : Nat) : List UInt8 :=
  let first (minor : Nat) : UInt8 := (major * 32 + minor).toUInt8
  let big (k : Nat) : List UInt8 := (List.range k).reverse.map fun i => (n / Nat.pow 256 i % 256).toUInt8
  if n < 24 then [first n]
  else if n < Nat.pow 2 8 then first 24 :: big 1
  else if n < Nat.pow 2 16 then first 25 :: big 2
  else if n < Nat.pow 2 32 then first 26 :: big 4
  else first 27 :: big 8

/-- The argument bytes of an optional length; `none` is the indefinite marker 31. -/
def lengthArgument (major : Nat) : Option Nat → List UInt8
  | some n => argument major n
  | none => [(major * 32 + 31).toUInt8]

/-- The big-endian bytes of `v` in `k` bytes. -/
def bigEndian (k v : Nat) : List UInt8 :=
  (List.range k).reverse.map fun i => (v / Nat.pow 256 i % 256).toUInt8

/-- The shortest encoding of a float: binary16 or binary32 when they hold the value exactly. -/
def floatBytes (bits : UInt64) : List UInt8 :=
  match Binary.narrow? Binary.half bits.toNat with
  | some h => 0xf9 :: bigEndian 2 h
  | none =>
    match Binary.narrow? Binary.single bits.toNat with
    | some s => 0xfa :: bigEndian 4 s
    | none => 0xfb :: bigEndian 8 bits.toNat

/-- The bytes of a head, shortest form. -/
def Head.encode : Head → List UInt8
  | .unsigned n => argument 0 n
  | .negative n => argument 1 n
  | .bytes len => lengthArgument 2 len
  | .text len => lengthArgument 3 len
  | .array len => lengthArgument 4 len
  | .map len => lengthArgument 5 len
  | .tag n => argument 6 n
  | .simple n => if n < 24 then [(224 + n).toUInt8] else [0xf8, n.toUInt8]
  | .float bits => floatBytes bits
  | .stop => [0xff]

/-- Why reading stopped. -/
inductive ReadError where
  /-- The input ended inside an item. -/
  | truncated
  /-- A malformed head at this offset. -/
  | malformed (offset : Nat)
  /-- The data does not fit the type being read. -/
  | semantic (offset : Option Nat) (message : String)
  /-- Items nest deeper than the reader allows. -/
  | tooDeep
deriving Repr, DecidableEq

/-- The diagnostic text of a read error. -/
def ReadError.message : ReadError → String
  | .truncated =>
    "Io(Error \x7b kind: UnexpectedEof, message: \"failed to fill whole buffer\" \x7d)"
  | .malformed offset => s!"Syntax({offset})"
  | .semantic none text => "Semantic(None, " ++ Escape.quote text ++ ")"
  | .semantic (some offset) text => s!"Semantic(Some({offset}), " ++ Escape.quote text ++ ")"
  | .tooDeep => "RecursionLimitExceeded"

end KeyRelay.Cbor
