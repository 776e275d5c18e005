import KeyRelay.Json.Basic
import KeyRelay.Decimal.Read
import KeyRelay.Text.Hex

/-!
Reading JSON text (RFC 8259). Blanks are space, tab, line feed and carriage return; a string
holds no raw control character, and a `\u` escape of a high surrogate must be followed by one
of a low surrogate. An integer literal is read exactly and any other numeral is kept as
written. The members of an object are held in key order, and of a repeated key the last value
counts. Text after the document other than blanks is refused.
-/
namespace KeyRelay.Json

/-- The blanks between tokens. -/
def isBlank (c : Char) : Bool := c == ' ' || c == '\t' || c == '\n' || c == '\r'

/-- The text after leading blanks. -/
def skipBlank (cs : List Char) : List Char := cs.dropWhile isBlank

/-- Reads a number. An integer literal is exact (`-0` is zero); any other numeral is kept as
written. -/
def readNumber (cs : List Char) : Except String (Json × List Char) := do
  let (neg, body) := match cs with
    | '-' :: r => (true, r)
    | r => (false, r)
  let (whole, rest) := Decimal.splitDigits body
  if whole.isEmpty then throw "expected value"
  if whole.length > 1 ∧ whole.head? = some '0' then throw "invalid number"
  let (fraction, rest) ← match rest with
    | '.' :: r =>
      let (f, r) := Decimal.splitDigits r
      if f.isEmpty then throw "invalid number" else pure ('.' :: f, r)
    | r => pure ([], r)
  let (exponent, rest) ← match rest with
    | c :: r =>
      if c == 'e' || c == 'E' then
        let (sign, r) := match r with
          | '-' :: r => (['-'], r)
          | '+' :: r => (['+'], r)
          | r => ([], r)
        let (ds, r) := Decimal.splitDigits r
        if ds.isEmpty then throw "invalid number"
        pure (c :: sign ++ ds, r)
      else pure ([], c :: r)
    | [] => pure ([], [])
  if fraction.isEmpty && exponent.isEmpty then
    let m : Int := Decimal.digitsValue whole
    pure (.int (if neg then -m else m), rest)
  else
    let numeral := (if neg then ['-'] else []) ++ whole ++ fraction ++ exponent
    pure (.num (String.ofList numeral), rest)

/-- The value of four hex digits. -/
def hex4 (a b c d : Char) : Option Nat := do
  pure ((((← Hex.value? a) * 16 + (← Hex.value? b)) * 16 + (← Hex.value? c)) * 16 +
    (← Hex.value? d))

/-- Reads the rest of a string after its opening quote; `acc` holds the characters read,
last first. -/
def readString : List Char → List Char → Except String (String × List Char)
  | [], _ => throw "EOF while parsing a string"
  | '"' :: r, acc => pure (String.ofList acc.reverse, r)
  | '\\' :: '"' :: r, acc => readString r ('"' :: acc)
  | '\\' :: '\\' :: r, acc => readString r ('\\' :: acc)
  | '\\' :: '/' :: r, acc => readString r ('/' :: acc)
  | '\\' :: 'b' :: r, acc => readString r ('\x08' :: acc)
  | '\\' :: 'f' :: r, acc => readString r ('\x0c' :: acc)
  | '\\' :: 'n' :: r, acc => readString r ('\n' :: acc)
  | '\\' :: 'r' :: r, acc => readString r ('\r' :: acc)
  | '\\' :: 't' :: r, acc => readString r ('\t' :: acc)
  | '\\' :: 'u' :: a :: b :: c :: d :: '\\' :: 'u' :: e :: f :: g :: h :: r, acc =>
    match hex4 a b c d, hex4 e f g h with
    | some hi, some lo =>
      if 0xD800 ≤ hi ∧ hi < 0xDC00 then
        if 0xDC00 ≤ lo ∧ lo < 0xE000 then
          readString r (Char.ofNat (0x10000 + (hi - 0xD800) * 0x400 + (lo - 0xDC00)) :: acc)
        else throw "lone leading surrogate in hex escape"
      else if 0xDC00 ≤ hi ∧ hi < 0xE000 then throw "lone leading surrogate in hex escape"
      else if 0xD800 ≤ lo ∧ lo < 0xE000 then throw "lone leading surrogate in hex escape"
      else readString r (Char.ofNat lo :: Char.ofNat hi :: acc)
    | _, _ => throw "invalid escape"
  | '\\' :: 'u' :: a :: b :: c :: d :: r, acc =>
    match hex4 a b c d with
    | some n =>
      if 0xD800 ≤ n ∧ n < 0xE000 then throw "lone leading surrogate in hex escape"
      else readString r (Char.ofNat n :: acc)
    | none => throw "invalid escape"
  | '\\' :: _, _ => throw "invalid escape"
  | c :: r, acc =>
    if c.toNat < 0x20 then throw "control character while parsing a string"
    else readString r (c :: acc)

mutual

/-- Reads a value. Each call consumes fuel, and two calls per character suffice. -/
def readValue : Nat → List Char → Except String (Json × List Char)
  | 0, _ => throw "recursion limit exceeded"
  | fuel + 1, cs =>
    match skipBlank cs with
    | 'n' :: 'u' :: 'l' :: 'l' :: r => pure (.null, r)
    | 't' :: 'r' :: 'u' :: 'e' :: r => pure (.bool true, r)
    | 'f' :: 'a' :: 'l' :: 's' :: 'e' :: r => pure (.bool false, r)
    | '"' :: r => do
      let (s, r) ← readString r []
      pure (.str s, r)
    | '[' :: r =>
      match skipBlank r with
      | ']' :: r => pure (.arr [], r)
      | r => readItems fuel r []
    | '\x7b' :: r =>
      match skipBlank r with
      | '\x7d' :: r => pure (.obj [], r)
      | r => readMembers fuel r []
    | cs => readNumber cs

/-- Reads the items of an array after its first one begins; `acc` holds those read, last
first. -/
def readItems : Nat → List Char → List Json → Except String (Json × List Char)
  | 0, _, _ => throw "recursion limit exceeded"
  | fuel + 1, cs, acc => do
    let (v, r) ← readValue fuel cs
    match skipBlank r with
    | ',' :: r => readItems fuel r (v :: acc)
    | ']' :: r => pure (.arr (v :: acc).reverse, r)
    | _ => throw "expected `,` or `]`"

/-- Reads the members of an object after its first one begins. -/
def readMembers : Nat → List Char → List (String × Json) → Except String (Json × List Char)
  | 0, _, _ => throw "recursion limit exceeded"
  | fuel + 1, cs, acc =>
    match skipBlank cs with
    | '"' :: r => do
      let (key, r) ← readString r []
      match skipBlank r with
      | ':' :: r => do
        let (v, r) ← readValue fuel r
        let acc := insertMember key v acc
        match skipBlank r with
        | ',' :: r => readMembers fuel r acc
        | '\x7d' :: r => pure (.obj acc, r)
        | _ => throw "expected `,` or `\x7d`"
      | _ => throw "expected `:`"
    | _ => throw "key must be a string"

end

/-- Reads a whole document. -/
def parse (text : String) : Except String Json := do
  let cs := text.toList
  let (v, rest) ← readValue (2 * cs.length + 2) cs
  if (skipBlank rest).isEmpty then pure v else throw "trailing characters"

end KeyRelay.Json
