/-!
Base64 with the standard alphabet and padding (RFC 4648, section 4).

Writing turns three bytes into four symbols and pads the last group with `=`. Reading accepts
exactly the canonical texts: every group but the last of four symbols, the last one padded to
four, and no bits set beyond the last whole byte. A refused text names its fault as a reader
that works in groups of eight symbols finds it: a length that leaves six bits over, the first
symbol outside the alphabet (a `=` that is not final padding among them), padding of the wrong
length, or a final symbol with stray bits.
-/
namespace KeyRelay.Base64

/-- Why a text is not canonical base64. -/
inductive Error where
  | invalidByte (offset : Nat) (byte : UInt8)
  | invalidLength
  | invalidLastSymbol (offset : Nat) (byte : UInt8)
  | invalidPadding
deriving Repr, DecidableEq

/-- The text of a fault. -/
def Error.message : Error → String
  | .invalidByte offset byte => s!"Invalid byte {byte}, offset {offset}."
  | .invalidLength => "Encoded text cannot have a 6-bit remainder."
  | .invalidLastSymbol offset byte => s!"Invalid last symbol {byte}, offset {offset}."
  | .invalidPadding => "Invalid padding"

/-- The symbol of a six-bit value. -/
def symbol (n : Nat) : Char :=
  if n < 26 then Char.ofNat (65 + n)
  else if n < 52 then Char.ofNat (71 + n)
  else if n < 62 then Char.ofNat (n - 4)
  else if n = 62 then '+' else '/'

/-- The six-bit value of a byte of the alphabet. -/
def sextet? (b : UInt8) : Option Nat :=
  let n := b.toNat
  if 65 ≤ n ∧ n ≤ 90 then some (n - 65)
  else if 97 ≤ n ∧ n ≤ 122 then some (n - 71)
  else if 48 ≤ n ∧ n ≤ 57 then some (n + 4)
  else if n = 43 then some 62
  else if n = 47 then some 63
  else none

/-- The byte of the padding symbol `=`. -/
def pad : UInt8 := 61

/-- Symbols of whole groups of three bytes, the last group padded. -/
def encodeGroups : List UInt8 → List Char
  | a :: b :: c :: rest =>
    let n := a.toNat * 65536 + b.toNat * 256 + c.toNat
    [symbol (n / 262144), symbol (n / 4096 % 64), symbol (n / 64 % 64), symbol (n % 64)] ++
      encodeGroups rest
  | [a, b] =>
    let n := a.toNat * 65536 + b.toNat * 256
    [symbol (n / 262144), symbol (n / 4096 % 64), symbol (n / 64 % 64), '=']
  | [a] =>
    let n := a.toNat * 65536
    [symbol (n / 262144), symbol (n / 4096 % 64), '=', '=']
  | [] => []

/-- The padded base64 text of a byte string. -/
def encode (bytes : List UInt8) : String := String.ofList (encodeGroups bytes)

/-- Bytes from six-bit values, four values giving three bytes; bits left over after the last
whole byte are dropped. -/
def bytesOfSextets : List Nat → List UInt8
  | a :: b :: c :: d :: rest =>
    let n := a * 262144 + b * 4096 + c * 64 + d
    [(n / 65536).toUInt8, (n / 256 % 256).toUInt8, (n % 256).toUInt8] ++ bytesOfSextets rest
  | [a, b, c] =>
    let n := a * 262144 + b * 4096 + c * 64
    [(n / 65536).toUInt8, (n / 256 % 256).toUInt8]
  | [a, b] => [((a * 262144 + b * 4096) / 65536).toUInt8]
  | _ => []

/-- Values of the symbols before the last group of eight, or the first that is not one. -/
def leading (offset : Nat) : List UInt8 → Except Error (List Nat)
  | [] => .ok []
  | b :: rest =>
    match sextet? b with
    | some v => (v :: ·) <$> leading (offset + 1) rest
    | none => .error (.invalidByte offset b)

/-- The symbols and padding of the last group. -/
structure Tail where
  values : List Nat
  padding : Nat
  firstPad : Nat
  last : UInt8

/-- Reads the last group starting at `start`, `i` symbols in. Padding may stand only in the
third and fourth place of a quad and must end the text. -/
def readTail (start : Nat) : Nat → List UInt8 → Tail → Except Error Tail
  | _, [], t => .ok t
  | i, b :: rest, t =>
    if b = pad then
      if i % 4 < 2 then
        .error (.invalidByte (start + (if t.padding > 0 then t.firstPad else i)) b)
      else
        readTail start (i + 1) rest
          { t with padding := t.padding + 1, firstPad := if t.padding = 0 then i else t.firstPad }
    else if t.padding > 0 then .error (.invalidByte (start + t.firstPad) pad)
    else
      match sextet? b with
      | none => .error (.invalidByte (start + i) b)
      | some v => readTail start (i + 1) rest { t with values := t.values ++ [v], last := b }

/-- Reads canonical padded base64 from the bytes of a text. -/
def decodeBytes (input : List UInt8) : Except Error (List UInt8) := do
  let len := input.length
  if len % 8 = 1 ∨ len % 8 = 5 then
    match input.getLast? with
    | some b => if b ≠ pad ∧ sextet? b = none then throw (.invalidByte (len - 1) b)
                else throw .invalidLength
    | none => throw .invalidLength
  let start := if len = 0 then 0 else 8 * ((len + 7) / 8 - 1)
  let front ← leading 0 (input.take start)
  let t ← readTail start 0 (input.drop start) ⟨[], 0, 0, 0⟩
  if (t.padding + t.values.length) % 4 ≠ 0 then throw .invalidPadding
  let unused := 6 * t.values.length % 8
  match t.values.getLast? with
  | some v => if v % Nat.pow 2 unused ≠ 0 then
      throw (.invalidLastSymbol (start + t.values.length - 1) t.last)
  | none => pure ()
  pure (bytesOfSextets (front ++ t.values))

/-- Reads canonical padded base64 text. -/
def decode (text : String) : Except Error (List UInt8) :=
  decodeBytes text.toUTF8.toList

end KeyRelay.Base64
