import KeyRelay.Wire.Value
import KeyRelay.Json.Basic
import KeyRelay.Decimal.Read
import KeyRelay.Text.Escape

/-!
Values of the data model as JSON, and JSON documents read as values of a shape.

A record is an object of its fields, a unit variant is its name, any other variant is a
one-member object from its name to its body, the absent optional value is null, and a float
that is not finite is null too.

Reading a document against a shape goes by the kind of the document node:
- a number is read by its numeral: as an integer of a width only when the numeral is an
  integer of that width, else it is refused as `invalid number`, and as a float always;
- a record is read from an object, member by member in key order (members it does not name
  are skipped; once all are read, a missing optional field is absent and any other missing
  field is refused), or from an array of its fields in order, refused when too short or too
  long;
- an enum is read from the name of a unit variant, or from a one-member object from a
  variant's name to its body: the body of a unit variant must be null, and that of a record
  variant an object;
- a node of another kind is refused as `invalid type: <found>, expected <what>`, where a
  number is found as `number`, a text as `string` with its quoted text, and null as
  `unit value`.
-/
namespace KeyRelay.Wire

mutual
/-- The JSON of a value. -/
def Value.toJson : Value → Json
  | .bool b => .bool b
  | .nat n => .int n
  | .real bits => .float bits
  | .text s => .str s
  | .seq items => .arr (itemsJson items)
  | .null => .null
  | .record fields => .obj (fieldsJson fields)
  | .unitVariant name => .str name
  | .newtypeVariant name body => .obj [(name, body.toJson)]
  | .structVariant name fields => .obj [(name, .obj (fieldsJson fields))]
/-- The JSON of the items of a sequence. -/
def itemsJson : List Value → List Json
  | [] => []
  | v :: rest => v.toJson :: itemsJson rest
/-- The JSON members of a record's fields. -/
def fieldsJson : List (String × Value) → List (String × Json)
  | [] => []
  | (n, v) :: rest => (n, v.toJson) :: fieldsJson rest
end

/-- What a refusal says it found in place of the expected value. -/
def found : Json → String
  | .null => "unit value"
  | .bool b => "boolean `" ++ (if b then "true" else "false") ++ "`"
  | .int _ => "number"
  | .num _ => "number"
  | .str s => "string " ++ Escape.quote s
  | .arr _ => "sequence"
  | .obj _ => "map"

/-- The refusal of a node where another kind of value was expected. -/
def mismatch (j : Json) (expected : String) : String :=
  "invalid type: " ++ found j ++ ", expected " ++ expected

/-- The refusal of a number whose numeral does not fit. -/
def invalidNumber : String := "invalid number"

/-- An integer below `2 ^ bits` from a number; `expected` names the width for other nodes. -/
def wordOf (bits : Nat) (expected : String) : Json → Except String Nat
  | .int n => if n < 0 ∨ n.toNat ≥ Nat.pow 2 bits then throw invalidNumber else pure n.toNat
  | .num _ => throw invalidNumber
  | j => throw (mismatch j expected)

/-- A float from a number: the binary64 value nearest to its numeral. -/
def realOf : Json → Except String UInt64
  | .int n => pure (Decimal.intBits n)
  | .num text =>
    match Decimal.parseFloat text with
    | .ok bits => pure bits
    | .error _ => throw invalidNumber
  | j => throw (mismatch j "f64")

/-- The refusal of an array of `got` items read as a record of `count` fields. -/
def shortRecord (name : String) (got count : Nat) : String :=
  "invalid length " ++ toString got ++ ", expected struct " ++ name ++ " with " ++
    toString count ++ " elements"

mutual

/-- Reads JSON against a shape. Every call takes one unit of fuel; a path of calls meets each
node of the document and of the shape at most once. -/
def ofJsonWithin : Nat → Shape → Json → Except String Value
  | 0, _, _ => throw "recursion limit exceeded"
  | fuel + 1, shape, j =>
    match shape, j with
    | .bool, .bool b => pure (.bool b)
    | .bool, j => throw (mismatch j "a boolean")
    | .word bits, j => do pure (.nat (← wordOf bits ("u" ++ toString bits) j))
    | .machineWord, j => do pure (.nat (← wordOf 64 "usize" j))
    | .wide, j => do pure (.nat (← wordOf 128 "u128" j))
    | .real, j => do pure (.real (← realOf j))
    | .text, .str s => pure (.text s)
    | .text, j => throw (mismatch j "a string")
    | .seq item, .arr items => do pure (.seq (← ofJsonItems fuel item items))
    | .seq _, j => throw (mismatch j "a sequence")
    | .option _, .null => pure .null
    | .option inner, j => ofJsonWithin fuel inner j
    | .record _ fields, .obj members => do
      pure (.record (← ofJsonMembers fuel fields members))
    | .record name fields, .arr items => do
      let values ← ofJsonPositional fuel name fields.length 0 fields items
      pure (.record values)
    | .record name _, j => throw (mismatch j ("struct " ++ name))
    | .enum _ variants, .str v =>
      match variants.find? v with
      | some .unit => pure (.unitVariant v)
      | some (.newtype _) => throw "invalid type: unit variant, expected newtype variant"
      | some (.struct _) => throw "invalid type: unit variant, expected struct variant"
      | none => throw (unknownVariantMessage v variants.names)
    | .enum _ variants, .obj [(v, body)] =>
      match variants.find? v with
      | some .unit =>
        match body with
        | .null => pure (.unitVariant v)
        | j => throw (mismatch j "unit")
      | some (.newtype shape) => do pure (.newtypeVariant v (← ofJsonWithin fuel shape body))
      | some (.struct fields) =>
        match body with
        | .obj members => do pure (.structVariant v (← ofJsonMembers fuel fields members))
        | j => throw (mismatch j "struct variant")
      | none => throw (unknownVariantMessage v variants.names)
    | .enum _ _, .obj _ => throw "invalid value: map, expected map with a single key"
    | .enum _ _, j => throw (mismatch j "string or map")

/-- Reads the items of a sequence. -/
def ofJsonItems : Nat → Shape → List Json → Except String (List Value)
  | 0, _, _ => throw "recursion limit exceeded"
  | _ + 1, _, [] => pure []
  | fuel + 1, s, j :: rest => do
    pure ((← ofJsonWithin fuel s j) :: (← ofJsonItems fuel s rest))

/-- Reads the members of an object that name fields, in the object's order: the fields read,
in that order. -/
def ofJsonNamed : Nat → Fields → List (String × Json) → Except String (List (String × Value))
  | 0, _, _ => throw "recursion limit exceeded"
  | _ + 1, _, [] => pure []
  | fuel + 1, fields, (k, j) :: rest =>
    match fields.shape? k with
    | some s => do pure ((k, ← ofJsonWithin fuel s j) :: (← ofJsonNamed fuel fields rest))
    | none => ofJsonNamed fuel fields rest

/-- Reads a record from the members of an object: the members that name fields are read in
key order, then every field takes its value, an optional field being absent when missing. -/
def ofJsonMembers : Nat → Fields → List (String × Json) → Except String (List (String × Value))
  | 0, _, _ => throw "recursion limit exceeded"
  | fuel + 1, fields, members => do
    let read ← ofJsonNamed fuel fields members
    fields.names.mapM fun n =>
      match field? read n, fields.shape? n with
      | some v, _ => pure (n, v)
      | none, some (.option _) => pure (n, .null)
      | none, _ => throw ("missing field `" ++ n ++ "`")

/-- Reads the fields of a record from an array, in order; `index` counts the fields read. -/
def ofJsonPositional : Nat → String → Nat → Nat → Fields → List Json →
    Except String (List (String × Value))
  | 0, _, _, _, _, _ => throw "recursion limit exceeded"
  | _ + 1, _, _, _, .nil, [] => pure []
  | _ + 1, _, _, index, .nil, extra =>
    throw ("invalid length " ++ toString (index + extra.length) ++
      ", expected fewer elements in array")
  | _ + 1, name, count, index, .cons _ _ _, [] => throw (shortRecord name index count)
  | fuel + 1, name, count, index, .cons n s rest, j :: items => do
    let v ← ofJsonWithin fuel s j
    pure ((n, v) :: (← ofJsonPositional fuel name count (index + 1) rest items))

end

/-- Reads JSON against a shape, with fuel for every node of both, twice over. -/
def ofJson (shape : Shape) (j : Json) : Except String Value :=
  ofJsonWithin (2 * (j.size + shape.size) + 2) shape j

end KeyRelay.Wire
