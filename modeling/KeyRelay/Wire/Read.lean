import KeyRelay.Wire.Value
import KeyRelay.Cbor.Reader
import KeyRelay.Decimal.Text

/-!
Reading a value of a given shape from CBOR.

The reader is lenient where the data allows one reading: tags before a value are skipped,
lengths may be indefinite, floats may be of any width, a sequence of small integers may come as
a byte string, a record of a variant may come as an array of its fields in order, and fields
of a record that the shape does not name are skipped. A variant is a one-entry map from its
name to its body, or its name alone followed by its body. Only the first value of the input is
read; bytes after it are left alone.

A value that does not fit its shape is refused with a message of the form
`invalid type: map, expected enum`, `missing field ...`, `duplicate field ...`,
`unknown variant ...`, `invalid value: integer 256, expected u8` (numbers and names in
backquotes); a boolean that is not one is refused with the offset where it was expected.
Nesting deeper than 256 arrays, maps and variants is refused.
-/
namespace KeyRelay.Wire

open KeyRelay.Cbor

/-- The most nested arrays, maps and variants the reader enters. -/
def depthLimit : Nat := 256

/-- A piece of a bignum is read sixteen bytes at a time. -/
def bigPieceSize : Nat := 16

/-- A message of the data model that the reader refuses. -/
def refuse (message : String) : ReadError := .semantic none message

/-- What a type error says was found instead. -/
def headFound : Head → String
  | .unsigned n => "integer `" ++ toString n ++ "`"
  | .negative n =>
    let v : Int := if n < Nat.pow 2 63 then -1 - (n : Int) else (Nat.pow 2 64 : Int) - 1 - n
    "integer `" ++ toString v ++ "`"
  | .bytes _ => "bytes"
  | .text _ => "string"
  | .array _ => "sequence"
  | .map _ => "map"
  | .tag _ => "tag"
  | .simple n =>
    if n = simpleFalse then "boolean `false`" else if n = simpleTrue then "boolean `true`"
    else if n = simpleNull then "null" else if n = simpleUndefined then "undefined"
    else "simple"
  | .float bits => "floating point `" ++ Decimal.positionalPointed bits ++ "`"
  | .stop => "break"

/-- `invalid type: <found>, expected <expected>`. -/
def invalidType (found expected : String) : ReadError :=
  refuse ("invalid type: " ++ found ++ ", expected " ++ expected)

/-- The refusal of a head where another kind of item was expected. -/
def refuseHead (h : Head) (kind : String) : ReadError := invalidType (headFound h) kind

/-- The refusal of an unknown variant name. -/
def unknownVariant (name : String) (names : List String) : ReadError :=
  refuse (unknownVariantMessage name names)

/-- How a shape describes itself when it refuses a value of another kind. -/
def Shape.expecting : Shape → String
  | .bool => "a boolean"
  | .word bits => "u" ++ toString bits
  | .machineWord => "usize"
  | .wide => "u128"
  | .real => "f64"
  | .text => "a string"
  | .seq _ => "a sequence"
  | .option _ => "option"
  | .record name _ => "struct " ++ name
  | .enum name _ => "enum " ++ name

/-- The value of one byte of a byte string read as a sequence item of this shape. -/
def Shape.ofByte (s : Shape) (b : Nat) : Except ReadError Value :=
  match s with
  | .word _ => .ok (.nat b)
  | .machineWord => .ok (.nat b)
  | .wide => .ok (.nat b)
  | .real => .ok (.real ((Binary.double.finiteBits? false b 0).getD 0).toUInt64)
  | s => .error (invalidType ("integer `" ++ toString b ++ "`") s.expecting)

/-- What a record reader is reading: a record of a type, or the record of a variant. -/
structure Target where
  expecting : String
  fields : Fields

/-- A field name read as text or as bytes. -/
abbrev Key := String ⊕ List UInt8

/-- Whether a key names this field. -/
def Key.is (k : Key) (name : String) : Bool :=
  match k with
  | .inl s => s == name
  | .inr b => b == Utf8.encode name

/-- The name of a key as a refusal shows it. -/
def Key.show (k : Key) : String :=
  match k with
  | .inl s => s
  | .inr b => String.ofList (Utf8.lossy b)

/-- The index of the field a key names. -/
def Fields.index? (fs : Fields) (k : Key) : Option Nat :=
  let rec go : Fields → Nat → Option Nat
    | .nil, _ => none
    | .cons n _ rest, i => if k.is n then some i else go rest (i + 1)
  go fs 0

/-- The shape and name of the field at an index. -/
def Fields.get? : Fields → Nat → Option (String × Shape)
  | .nil, _ => none
  | .cons n s _, 0 => some (n, s)
  | .cons _ _ rest, i + 1 => rest.get? i

/-- Reads the significant bytes of a bignum's segments in pieces of sixteen, refusing a
seventeenth significant byte as soon as it is read. -/
def readBigPieces : Nat → Nat → Nat × Nat → ReadM (Nat × Nat)
  | 0, _, acc => pure acc
  | fuel + 1, unread, (count, value) => do
    if unread = 0 then pure (count, value) else
    let piece ← readExact (min bigPieceSize unread)
    let step : Except ReadError (Nat × Nat) :=
      List.foldlM (fun (acc : Nat × Nat) b =>
        if acc.1 = 16 then .error (refuse "bigint too large")
        else if acc.1 = 0 ∧ b = 0 then .ok acc
        else .ok (acc.1 + 1, acc.2 * 256 + b.toNat)) (count, value) piece
    match step with
    | .error e => throw e
    | .ok acc => readBigPieces fuel (unread - piece.length) acc

/-- Reads the segments of a bignum's byte string, whose head has been put back. -/
def readBigSegments : Nat → Nat → Nat × Nat → ReadM (Nat × Nat)
  | 0, _, _ => throw .truncated
  | fuel + 1, nested, acc => do
    let headAt ← offset
    match ← pull with
    | .stop =>
      if nested = 1 then pure acc
      else if nested > 1 then readBigSegments fuel (nested - 1) acc
      else throw (.malformed headAt)
    | .bytes none => readBigSegments fuel (nested + 1) acc
    | .bytes (some len) =>
      let acc ← readBigPieces (len + 1) len acc
      if nested = 0 then pure acc else readBigSegments fuel nested acc
    | _ => throw (.malformed headAt)

/-- Reads an integer of any sign and size, skipping tags, as (negative, magnitude); a
negative magnitude `n` stands for `-1 - n`. `first` is a head already taken. -/
def readInteger : Nat → Option Head → ReadM (Bool × Nat)
  | 0, _ => throw .truncated
  | fuel + 1, first => do
    let h ← match first with
      | some h => pure h
      | none => pull
    match h with
    | .unsigned n => pure (false, n)
    | .negative n => pure (true, n)
    | .tag t =>
      if t = tagBigPositive ∨ t = tagBigNegative then
        match ← pull with
        | .bytes len =>
          push (.bytes len)
          let (_, v) ← readBigSegments fuel 0 (0, 0)
          pure (t = tagBigNegative, v)
        | h => throw (refuseHead h "bytes")
      else readInteger fuel none
    | h => throw (refuseHead h "integer")

/-- Reads a text, skipping tags, into its characters. -/
def readTextItem : Nat → ReadM String
  | 0 => throw .truncated
  | fuel + 1 => do
    match ← pull with
    | .tag _ => readTextItem fuel
    | .text len =>
      push (.text len)
      let bytes ← readSegments true fuel 0
      pure (Utf8.decode? bytes |>.getD "")
    | h => throw (refuseHead h "string")

/-- Reads a field or variant name: a text or byte string of at most 4096 bytes. -/
def readKey : Nat → ReadM Key
  | 0 => throw .truncated
  | fuel + 1 => do
    let headAt ← offset
    match ← pull with
    | .tag _ => readKey fuel
    | .text (some len) =>
      if len ≤ pieceSize then
        let bytes ← readExact len
        match Utf8.decode? bytes with
        | some s => pure (.inl s)
        | none => throw (.malformed headAt)
      else throw (refuseHead (.text (some len)) "str or bytes")
    | .bytes (some len) =>
      if len ≤ pieceSize then pure (.inr (← readExact len))
      else throw (refuseHead (.bytes (some len)) "str or bytes")
    | h => throw (refuseHead h "str or bytes")

/-- Reads a boolean, skipping tags; anything else is refused at its own offset, after the
tags before it. -/
def readBool : Nat → ReadM Bool
  | 0 => throw .truncated
  | fuel + 1 => do
    let here ← offset
    match ← pull with
    | .tag _ => readBool fuel
    | .simple n =>
      if n = simpleFalse then pure false else if n = simpleTrue then pure true
      else throw (.semantic (some here) "expected bool")
    | _ => throw (.semantic (some here) "expected bool")

/-- Reads a float, skipping tags. -/
def readReal : Nat → ReadM UInt64
  | 0 => throw .truncated
  | fuel + 1 => do
    match ← pull with
    | .tag _ => readReal fuel
    | .float bits => pure bits
    | h => throw (refuseHead h "float")

/-- Takes the next item of an array or map of `left` items (`none`: until a break), or
reports the end. -/
def nextItem (left : Option Nat) : ReadM (Option (Option Nat)) := do
  match left with
  | some 0 => pure none
  | some n => pure (some (some (n - 1)))
  | none =>
    match ← pull with
    | .stop => pure none
    | h => push h; pure (some none)

/-- Enters one level of nesting, refusing to go below the limit. -/
def enter (depth : Nat) : ReadM Nat :=
  if depth = 0 then throw .tooDeep else pure (depth - 1)

/-- Completes a record from the fields read: a missing optional field is absent, another
missing field is refused. -/
def complete : Fields → Nat → List (Nat × Value) → ReadM (List (String × Value))
  | .nil, _, _ => pure []
  | .cons name shape rest, i, seen => do
    let v ← match (seen.find? (·.1 == i)).map (·.2), shape with
      | some v, _ => pure v
      | none, .option _ => pure .null
      | none, _ => throw (refuse ("missing field `" ++ name ++ "`"))
    let more ← complete rest (i + 1) seen
    pure ((name, v) :: more)

mutual

/-- Reads a value of a shape. -/
def readShape : Nat → Nat → Shape → ReadM Value
  | 0, _, _ => throw .truncated
  | fuel + 1, depth, shape =>
    match shape with
    | .bool => do pure (.bool (← readBool fuel))
    | .word bits => do
      let (neg, raw) ← readInteger fuel none
      if neg then throw (refuse "unexpected negative integer")
      if raw ≥ Nat.pow 2 64 then throw (refuse "integer too large")
      if bits < 64 ∧ raw ≥ Nat.pow 2 bits then
        throw (refuse ("invalid value: integer `" ++ toString raw ++ "`, expected u" ++ toString bits))
      pure (.nat raw)
    | .machineWord => do
      let (neg, raw) ← readInteger fuel none
      if neg then throw (refuse "unexpected negative integer")
      if raw ≥ Nat.pow 2 64 then throw (refuse "integer too large")
      pure (.nat raw)
    | .wide => do
      let (neg, raw) ← readInteger fuel none
      if neg then throw (refuse "unexpected negative integer")
      pure (.nat raw)
    | .real => do pure (.real (← readReal fuel))
    | .text => do pure (.text (← readTextItem fuel))
    | .seq item => readSeq fuel depth item
    | .option inner => do
      let h ← pull
      if h = .simple simpleNull ∨ h = .simple simpleUndefined then pure .null
      else
        push h
        readShape fuel depth inner
    | .record name fields => readRecord fuel depth ⟨"struct " ++ name, fields⟩
    | .enum name variants => readEnum fuel depth name variants

/-- Reads a sequence: an array of items, or a byte string of small integers. -/
def readSeq : Nat → Nat → Shape → ReadM Value
  | 0, _, _ => throw .truncated
  | fuel + 1, depth, item => do
    match ← pull with
    | .tag _ => readSeq fuel depth item
    | .array len =>
      let inner ← enter depth
      let items ← readItems fuel inner item len
      pure (.seq items)
    | .bytes len =>
      push (.bytes len)
      let bytes ← readSegments false fuel 0
      match bytes.mapM (fun b => item.ofByte b.toNat) with
      | .ok items => pure (.seq items)
      | .error e => throw e
    | h => throw (refuseHead h "array")

/-- Reads the items of an array of `left` items (`none`: until a break). -/
def readItems : Nat → Nat → Shape → Option Nat → ReadM (List Value)
  | 0, _, _, _ => throw .truncated
  | fuel + 1, depth, item, left => do
    match ← nextItem left with
    | none => pure []
    | some left =>
      let v ← readShape fuel depth item
      let rest ← readItems fuel depth item left
      pure (v :: rest)

/-- Reads a record of a type: a map of its fields. -/
def readRecord : Nat → Nat → Target → ReadM Value
  | 0, _, _ => throw .truncated
  | fuel + 1, depth, target => do
    match ← pull with
    | .tag _ => readRecord fuel depth target
    | .map len =>
      let inner ← enter depth
      pure (.record (← readEntries fuel inner target len []))
    | h => throw (refuseHead h "map")

/-- Reads the entries of a record's map and completes the record: a missing optional field
is absent, any other missing field is refused. `seen` holds the fields read so far. -/
def readEntries : Nat → Nat → Target → Option Nat → List (Nat × Value) →
    ReadM (List (String × Value))
  | 0, _, _, _, _ => throw .truncated
  | fuel + 1, depth, target, left, seen => do
    match ← nextItem left with
    | none => complete target.fields 0 seen
    | some left =>
      let key ← readKey fuel
      match target.fields.index? key with
      | some i =>
        let (name, shape) := (target.fields.get? i).getD ("", .bool)
        if seen.any (·.1 == i) then throw (refuse ("duplicate field `" ++ name ++ "`"))
        let v ← readShape fuel depth shape
        readEntries fuel depth target left (seen ++ [(i, v)])
      | none =>
        skipAny fuel depth
        readEntries fuel depth target left seen

/-- Reads the fields of a record from an array, in order; a missing one is refused. -/
def readPositional : Nat → Nat → Target → Fields → Nat → Option Nat →
    ReadM (List (String × Value))
  | 0, _, _, _, _, _ => throw .truncated
  | fuel + 1, depth, target, fields, i, left =>
    match fields with
    | .nil => pure []
    | .cons name shape rest => do
      match ← nextItem left with
      | none =>
        throw (refuse ("invalid length " ++ toString i ++ ", expected " ++ target.expecting ++
          " with " ++ toString target.fields.length ++ " elements"))
      | some left =>
        let v ← readShape fuel depth shape
        let more ← readPositional fuel depth target rest (i + 1) left
        pure ((name, v) :: more)

/-- Reads the record of a variant: a map or an array of its fields. Any other item is refused
by what it is. -/
def readVariantRecord : Nat → Nat → Target → ReadM (List (String × Value))
  | 0, _, _ => throw .truncated
  | fuel + 1, depth, target => do
    let h ← pull
    push h
    let refuseAs (found : String) : ReadError := invalidType found target.expecting
    match h with
    | .array _ => do
      match ← pull with
      | .array len =>
        let inner ← enter depth
        readPositional fuel inner target target.fields 0 len
      | h => throw (refuseHead h "array")
    | .map _ => do
      match ← pull with
      | .map len =>
        let inner ← enter depth
        readEntries fuel inner target len []
      | h => throw (refuseHead h "map")
    | .unsigned n => do
      let _ ← pull
      throw (refuseAs ("integer `" ++ toString n ++ "`"))
    | .negative n => do
      let _ ← pull
      if n < Nat.pow 2 63 then throw (refuseAs ("integer `" ++ toString (-1 - (n : Int)) ++ "`"))
      else throw (refuseAs ("integer `" ++ toString (-1 - (n : Int)) ++ "` as i128"))
    | .bytes len => do
      let _ ← readByteContent fuel len
      throw (refuseAs "byte array")
    | .text len => do
      let s ← readTextContent fuel len
      throw (refuseAs ("string " ++ Escape.quote s))
    | .tag t => do
      let _ ← pull
      let next ← pull
      push next
      match next with
      | .bytes (some l) =>
        if (t = tagBigPositive ∨ t = tagBigNegative) ∧ l ≤ 16 then
          let (neg, raw) ← readInteger fuel (some (.tag t))
          if !neg then throw (refuseAs ("integer `" ++ toString raw ++ "` as u128"))
          else if raw < Nat.pow 2 127 then
            throw (refuseAs ("integer `" ++ toString (-1 - (raw : Int)) ++ "` as i128"))
          else throw (refuse "integer too large")
        else
          let _ ← enter depth
          throw (refuseAs "enum")
      | _ =>
        let _ ← enter depth
        throw (refuseAs "enum")
    | .float bits => do
      let _ ← pull
      throw (refuseAs ("floating point `" ++ Decimal.positionalPointed bits ++ "`"))
    | .simple n => do
      if n = simpleFalse ∨ n = simpleTrue then
        let _ ← pull
        throw (refuseAs ("boolean `" ++ (if n = simpleTrue then "true" else "false") ++ "`"))
      else if n = simpleNull ∨ n = simpleUndefined then
        let _ ← pull
        throw (refuseAs "Option value")
      else throw (invalidType "simple" "known simple value")
    | .stop => throw (invalidType "break" "non-break")

/-- Reads the content of a byte string whose head is next: at most 4096 bytes at once, a
longer or indefinite one by segments. -/
def readByteContent : Nat → Option Nat → ReadM (List UInt8)
  | 0, _ => throw .truncated
  | fuel + 1, len => do
    match len with
    | some n =>
      if n ≤ pieceSize then
        let _ ← pull
        readExact n
      else readSegments false fuel 0
    | none => readSegments false fuel 0

/-- Reads the content of a text whose head is next. -/
def readTextContent : Nat → Option Nat → ReadM String
  | 0, _ => throw .truncated
  | fuel + 1, len => do
    match len with
    | some n =>
      if n ≤ pieceSize then
        let headAt ← offset
        let _ ← pull
        let bytes ← readExact n
        match Utf8.decode? bytes with
        | some s => pure s
        | none => throw (.malformed headAt)
      else pure (Utf8.decode? (← readSegments true fuel 0) |>.getD "")
    | none => pure (Utf8.decode? (← readSegments true fuel 0) |>.getD "")

/-- Reads a variant of an enum: its name as a text (followed by its body) or as the key of a
one-entry map. -/
def readEnum : Nat → Nat → String → Variants → ReadM Value
  | 0, _, _, _ => throw .truncated
  | fuel + 1, depth, enumName, variants => do
    match ← pull with
    | .tag _ => readEnum fuel depth enumName variants
    | .map (some 1) => readVariant fuel depth enumName variants
    | .text len =>
      push (.text len)
      readVariant fuel depth enumName variants
    | h => throw (refuseHead h "enum")

/-- Reads the name and body of a variant. A unit variant reads nothing after its name. -/
def readVariant : Nat → Nat → String → Variants → ReadM Value
  | 0, _, _, _ => throw .truncated
  | fuel + 1, depth, enumName, variants => do
    let inner ← enter depth
    let key ← readKey fuel
    let name := key.show
    let found := variants.names.find? key.is
    match found with
    | none => throw (unknownVariant name variants.names)
    | some vname =>
      match variants.find? vname with
      | some .unit => pure (.unitVariant vname)
      | some (.newtype shape) => pure (.newtypeVariant vname (← readShape fuel inner shape))
      | some (.struct fields) =>
        let fs ← readVariantRecord fuel inner ⟨"struct variant " ++ enumName ++ "::" ++ vname, fields⟩
        pure (.structVariant vname fs)
      | none => throw (unknownVariant name variants.names)

/-- Skips one item of any kind, with everything nested in it. -/
def skipAny : Nat → Nat → ReadM Unit
  | 0, _ => throw .truncated
  | fuel + 1, depth => do
    let h ← pull
    push h
    match h with
    | .unsigned _ => let _ ← readInteger fuel none; pure ()
    | .negative _ => let _ ← readInteger fuel none; pure ()
    | .bytes len => let _ ← readByteContent fuel len; pure ()
    | .text len => let _ ← readTextContent fuel len; pure ()
    | .array _ => do
      let _ ← pull
      match h with
      | .array len =>
        let inner ← enter depth
        skipItems fuel inner len
      | _ => pure ()
    | .map _ => do
      let _ ← pull
      match h with
      | .map len =>
        let inner ← enter depth
        skipEntries fuel inner len
      | _ => pure ()
    | .tag t => do
      let _ ← pull
      let next ← pull
      push next
      match next with
      | .bytes (some l) =>
        if (t = tagBigPositive ∨ t = tagBigNegative) ∧ l ≤ 16 then
          let (neg, raw) ← readInteger fuel (some (.tag t))
          if neg ∧ raw ≥ Nat.pow 2 127 then throw (refuse "integer too large")
        else
          let inner ← enter depth
          skipAny fuel inner
      | _ =>
        let inner ← enter depth
        skipAny fuel inner
    | .float _ => let _ ← pull; pure ()
    | .simple n =>
      if n = simpleFalse ∨ n = simpleTrue ∨ n = simpleNull ∨ n = simpleUndefined then
        let _ ← pull; pure ()
      else throw (invalidType "simple" "known simple value")
    | .stop => throw (invalidType "break" "non-break")

/-- Skips the items of an array. -/
def skipItems : Nat → Nat → Option Nat → ReadM Unit
  | 0, _, _ => throw .truncated
  | fuel + 1, depth, left => do
    match ← nextItem left with
    | none => pure ()
    | some left => skipAny fuel depth; skipItems fuel depth left

/-- Skips the entries of a map. -/
def skipEntries : Nat → Nat → Option Nat → ReadM Unit
  | 0, _, _ => throw .truncated
  | fuel + 1, depth, left => do
    match ← nextItem left with
    | none => pure ()
    | some left => skipAny fuel depth; skipAny fuel depth; skipEntries fuel depth left

end

/-- Reads the first value of a shape from bytes; what follows it is ignored. -/
def readValue (shape : Shape) (bytes : List UInt8) : Except ReadError Value :=
  (readShape (16 * bytes.length + 256) depthLimit shape).run' ⟨bytes, 0, none⟩

end KeyRelay.Wire
