import KeyRelay.Cbor.Head
import KeyRelay.Text.Utf8

/-!
The data model of wire messages. A `Value` is a message as a tree of named records, variants,
sequences, texts, numbers and booleans; a `Shape` is the type a value is read against. Every
message type of the library maps to and from values of its shape, and values are written as
CBOR and shown as JSON.

Writing a value as CBOR (`Value.encode`): integers below `2 ^ 64` as plain integers and larger
ones as tag-2 bignums without leading zero bytes, records as maps of field name to value in
field order, a unit variant as its name, any other variant as a one-entry map from its name to
its body, the absent optional value as null, and floats in the narrowest exact width.
-/
namespace KeyRelay.Wire

/-- A message in the data model. -/
inductive Value where
  | bool (b : Bool)
  | nat (n : Nat)
  /-- A float, as its binary64 pattern. -/
  | real (bits : UInt64)
  | text (s : String)
  | seq (items : List Value)
  /-- The absent optional value. -/
  | null
  | record (fields : List (String × Value))
  | unitVariant (name : String)
  | newtypeVariant (name : String) (body : Value)
  | structVariant (name : String) (fields : List (String × Value))
deriving Repr, Inhabited

mutual
/-- The type a value is read against. -/
inductive Shape where
  | bool
  /-- An unsigned integer of the given bits, at most 64. -/
  | word (bits : Nat)
  /-- An unsigned integer of the machine's word: 64 bits, named `usize` by refusals. -/
  | machineWord
  /-- A 128-bit unsigned integer. -/
  | wide
  | real
  | text
  | seq (item : Shape)
  | option (inner : Shape)
  | record (name : String) (fields : Fields)
  | enum (name : String) (variants : Variants)
/-- The fields of a record, in order. -/
inductive Fields where
  | nil
  | cons (name : String) (shape : Shape) (rest : Fields)
/-- The variants of an enum, in order. -/
inductive Variants where
  | nil
  | unit (name : String) (rest : Variants)
  | newtype (name : String) (shape : Shape) (rest : Variants)
  | struct (name : String) (fields : Fields) (rest : Variants)
end

mutual
/-- The number of nodes of a shape. -/
def Shape.size : Shape → Nat
  | .seq item => item.size + 1
  | .option inner => inner.size + 1
  | .record _ fields => fields.size + 1
  | .enum _ variants => variants.size + 1
  | _ => 1
/-- The nodes of the shapes of fields, one more per field. -/
def Fields.size : Fields → Nat
  | .nil => 0
  | .cons _ s rest => s.size + rest.size + 1
/-- The nodes of the bodies of variants, one more per variant. -/
def Variants.size : Variants → Nat
  | .nil => 0
  | .unit _ rest => rest.size + 1
  | .newtype _ s rest => s.size + rest.size + 1
  | .struct _ f rest => f.size + rest.size + 1
end

/-- The fields of a record from a list. -/
def Fields.ofList : List (String × Shape) → Fields
  | [] => .nil
  | (n, s) :: rest => .cons n s (Fields.ofList rest)

/-- Field names in order. -/
def Fields.names : Fields → List String
  | .nil => []
  | .cons n _ rest => n :: rest.names

/-- Number of fields. -/
def Fields.length : Fields → Nat
  | .nil => 0
  | .cons _ _ rest => rest.length + 1

/-- The shape of the field with this name. -/
def Fields.shape? : Fields → String → Option Shape
  | .nil, _ => none
  | .cons n s rest, name => if n = name then some s else rest.shape? name

/-- Variant names in order. -/
def Variants.names : Variants → List String
  | .nil => []
  | .unit n rest => n :: rest.names
  | .newtype n _ rest => n :: rest.names
  | .struct n _ rest => n :: rest.names

/-- The names of a variant list as a refusal lists them. -/
def oneOf : List String → String
  | [] => "there are no variants"
  | [a] => "`" ++ a ++ "`"
  | [a, b] => "`" ++ a ++ "` or `" ++ b ++ "`"
  | names => "one of " ++ ", ".intercalate (names.map fun n => "`" ++ n ++ "`")

/-- The refusal of a variant name that an enum does not have. -/
def unknownVariantMessage (name : String) (names : List String) : String :=
  if names.isEmpty then "unknown variant `" ++ name ++ "`, there are no variants"
  else "unknown variant `" ++ name ++ "`, expected " ++ oneOf names

/-- What a variant carries. -/
inductive Body where
  | unit
  | newtype (shape : Shape)
  | struct (fields : Fields)

/-- The body of the variant with this name. -/
def Variants.find? (name : String) : Variants → Option Body
  | .nil => none
  | .unit n rest => if n = name then some .unit else rest.find? name
  | .newtype n s rest => if n = name then some (.newtype s) else rest.find? name
  | .struct n f rest => if n = name then some (.struct f) else rest.find? name

/-- The text item of a string. -/
def textBytes (s : String) : List UInt8 :=
  let bytes := Utf8.encode s
  Cbor.Head.encode (.text (some bytes.length)) ++ bytes

/-- The CBOR bytes of an unsigned integer: plain below `2 ^ 64`, else a tag-2 bignum. -/
def natBytes (n : Nat) : List UInt8 :=
  if n < Nat.pow 2 64 then Cbor.Head.encode (.unsigned n)
  else
    let digits := (Cbor.bigEndian 16 n).dropWhile (· == 0)
    Cbor.Head.encode (.tag Cbor.tagBigPositive) ++ Cbor.Head.encode (.bytes (some digits.length)) ++
      digits

mutual
/-- The CBOR bytes of a value. -/
def Value.encode : Value → List UInt8
  | .bool b => Cbor.Head.encode (.simple (if b then Cbor.simpleTrue else Cbor.simpleFalse))
  | .nat n => natBytes n
  | .real bits => Cbor.Head.encode (.float bits)
  | .text s => textBytes s
  | .seq items => Cbor.Head.encode (.array (some items.length)) ++ encodeItems items
  | .null => Cbor.Head.encode (.simple Cbor.simpleNull)
  | .record fields => Cbor.Head.encode (.map (some fields.length)) ++ encodeFields fields
  | .unitVariant name => textBytes name
  | .newtypeVariant name body =>
    Cbor.Head.encode (.map (some 1)) ++ textBytes name ++ body.encode
  | .structVariant name fields =>
    Cbor.Head.encode (.map (some 1)) ++ textBytes name ++
      Cbor.Head.encode (.map (some fields.length)) ++ encodeFields fields
/-- The bytes of the items of a sequence. -/
def encodeItems : List Value → List UInt8
  | [] => []
  | v :: rest => v.encode ++ encodeItems rest
/-- The bytes of the entries of a map of named fields. -/
def encodeFields : List (String × Value) → List UInt8
  | [] => []
  | (n, v) :: rest => textBytes n ++ v.encode ++ encodeFields rest
end

/-- The field of a record value with this name. -/
def field? (fields : List (String × Value)) (name : String) : Option Value :=
  (fields.find? (·.1 == name)).map (·.2)

end KeyRelay.Wire
