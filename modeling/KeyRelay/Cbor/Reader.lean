import KeyRelay.Cbor.Head
import KeyRelay.Text.Utf8

/-!
Reading CBOR heads and string contents from a byte string.

The reader keeps the unread bytes, the offset of the next byte, and at most one head put back
for a second look. Putting a head back moves the offset back by the length of the head's
shortest form, and taking it again moves it forward by the same amount, so offsets reported
while a head is held count that head in its shortest form.

Byte and text strings are read in segments: one definite-length string, or an
indefinite-length string of definite chunks closed by a break. Contents are read in pieces of
at most 4096 bytes; a piece of text is checked as UTF-8 as soon as it is read, a character cut
by the end of a piece being finished by the next one.
-/
namespace KeyRelay.Cbor

/-- The state of a reader. -/
structure Reader where
  rest : List UInt8
  offset : Nat
  held : Option Head := none
deriving Inhabited

/-- Reading with failure. -/
abbrev ReadM := StateT Reader (Except ReadError)

/-- Size of the reader's buffer for a piece of string content. -/
def pieceSize : Nat := 4096

/-- Takes exactly `n` bytes, or fails when fewer remain. -/
def readExact (n : Nat) : ReadM (List UInt8) := do
  let r ← get
  if r.rest.length < n then
    set { r with rest := [] }
    throw .truncated
  set { r with rest := r.rest.drop n, offset := r.offset + n }
  pure (r.rest.take n)

/-- The number that big-endian bytes spell. -/
def ofBigEndian (bytes : List UInt8) : Nat :=
  bytes.foldl (fun acc b => acc * 256 + b.toNat) 0

/-- Takes the next head: a held one, or one read from the bytes. A reserved additional
information value, or an indefinite length where none is allowed, is a syntax error at the
head's first byte. -/
def pull : ReadM Head := do
  let r ← get
  match r.held with
  | some h =>
    set { r with held := none, offset := r.offset + h.encode.length }
    pure h
  | none =>
    let start := r.offset
    let first ← readExact 1
    let b := (first.headD 0).toNat
    let major := b / 32
    let minor := b % 32
    if 28 ≤ minor ∧ minor ≤ 30 then throw (.malformed start)
    let argLen := if minor < 24 then 0 else if minor = 24 then 1 else if minor = 25 then 2
      else if minor = 26 then 4 else if minor = 27 then 8 else 0
    let argBytes ← readExact argLen
    let arg : Option Nat :=
      if minor < 24 then some minor else if minor = 31 then none else some (ofBigEndian argBytes)
    match major, arg with
    | 0, some n => pure (.unsigned n)
    | 1, some n => pure (.negative n)
    | 2, len => pure (.bytes len)
    | 3, len => pure (.text len)
    | 4, len => pure (.array len)
    | 5, len => pure (.map len)
    | 6, some n => pure (.tag n)
    | 7, none => pure .stop
    | 7, some n =>
      if minor < 25 then pure (.simple n)
      else if minor = 25 then pure (.float (Binary.widen Binary.half n).toUInt64)
      else if minor = 26 then pure (.float (Binary.widen Binary.single n).toUInt64)
      else pure (.float n.toUInt64)
    | _, _ => throw (.malformed start)

/-- Puts a head back for the next `pull`. -/
def push (h : Head) : ReadM Unit :=
  modify fun r => { r with held := some h, offset := r.offset - h.encode.length }

/-- The offset of the next byte. -/
def offset : ReadM Nat := do pure (← get).offset

/-- Reads the content of one definite segment of `len` bytes in pieces. Text pieces are
checked as UTF-8 with `carry`, the start of a character cut by the previous piece; a piece
that leaves more than three bytes unchecked is malformed. -/
def readPieces (isText : Bool) (segmentOffset : Nat) :
    Nat → Nat → List UInt8 → List UInt8 → ReadM (List UInt8)
  | 0, _, _, acc => pure acc
  | fuel + 1, unread, carry, acc => do
    if unread = 0 then
      if carry.isEmpty then pure acc else throw (.malformed segmentOffset)
    else
      let size := min pieceSize (carry.length + unread)
      let fresh ← readExact (size - min size carry.length)
      let piece := carry ++ fresh
      let unread := unread - fresh.length
      if isText then
        let (_, left) := Utf8.scan piece
        if left.length > 3 then throw (.malformed segmentOffset)
        let good := piece.take (piece.length - left.length)
        readPieces isText segmentOffset fuel unread left (acc ++ good)
      else readPieces isText segmentOffset fuel unread [] (acc ++ piece)

/-- Reads a byte or text string whose head has been taken and put back: its definite chunks
up to the closing break. A chunk of the wrong major type is a syntax error at its head. -/
def readSegments (isText : Bool) : Nat → Nat → ReadM (List UInt8)
  | 0, _ => throw .truncated
  | fuel + 1, nested => do
    let at_ ← offset
    let h ← pull
    let unwrap : Option (Option Nat) :=
      match h, isText with
      | .text len, true => some len
      | .bytes len, false => some len
      | _, _ => none
    match h with
    | .stop =>
      if nested = 1 then pure []
      else if nested > 1 then readSegments isText fuel (nested - 1)
      else throw (.malformed at_)
    | _ =>
      match unwrap with
      | none => throw (.malformed at_)
      | some none => readSegments isText fuel (nested + 1)
      | some (some len) =>
        let content ← readPieces isText at_ (len + 2) len [] []
        if nested = 0 then pure content
        else do
          let more ← readSegments isText fuel nested
          pure (content ++ more)

end KeyRelay.Cbor
