import KeyRelay.Decimal.Text

/-!
JSON documents as the scenarios read and answer them. An integer is exact; any other number is
kept as the text of its numeral, so that a document read and shown again shows the number as
it was written (`1.50` stays `1.50`), and a reader rounds it only when it wants a float. Read
documents hold the members of an object in ascending order of their keys, each key once.
-/
namespace KeyRelay

/-- A JSON document. -/
inductive Json where
  | null
  | bool (b : Bool)
  /-- An integer, exact. -/
  | int (n : Int)
  /-- A number that is not an integer literal, as the text of its numeral. -/
  | num (text : String)
  | str (s : String)
  | arr (items : List Json)
  | obj (fields : List (String × Json))
deriving Repr, Inhabited

namespace Json

mutual
/-- The number of nodes of a document. -/
def size : Json → Nat
  | .arr items => itemsSize items + 1
  | .obj fields => membersSize fields + 1
  | _ => 1
/-- The nodes of the items of an array. -/
def itemsSize : List Json → Nat
  | [] => 0
  | j :: rest => j.size + itemsSize rest
/-- The nodes of the members of an object. -/
def membersSize : List (String × Json) → Nat
  | [] => 0
  | (_, j) :: rest => j.size + membersSize rest
end

/-- Whether one text comes before another: characters compared from the left by code point, a
proper prefix first. This is also the order of their UTF-8 bytes. -/
def charsBefore : List Char → List Char → Bool
  | [], [] => false
  | [], _ :: _ => true
  | _ :: _, [] => false
  | a :: as, b :: bs =>
    if a.toNat < b.toNat then true else if a.toNat = b.toNat then charsBefore as bs else false

/-- Whether one key comes before another. -/
def keyBefore (a b : String) : Bool := charsBefore a.toList b.toList

/-- Sets a member of an object kept in key order: a key already present takes the new value. -/
def insertMember (key : String) (v : Json) : List (String × Json) → List (String × Json)
  | [] => [(key, v)]
  | (k, w) :: rest =>
    if k = key then (key, v) :: rest
    else if keyBefore key k then (key, v) :: (k, w) :: rest
    else (k, w) :: insertMember key v rest

/-- The member of an object with this key: the last one when keys repeat. -/
def get? (j : Json) (key : String) : Option Json :=
  match j with
  | .obj fields => (fields.reverse.find? (·.1 == key)).map (·.2)
  | _ => none

/-- The keys of an object in order. -/
def keys : Json → List String
  | .obj fields => fields.map (·.1)
  | _ => []

/-- The member with this key unless it is missing or null. -/
def present? (j : Json) (key : String) : Option Json :=
  match j.get? key with
  | some .null => none
  | other => other

/-- A float: the compact numeral of a finite value, and null for a value that is not finite,
which JSON cannot write. -/
def float (bits : UInt64) : Json :=
  if bits &&& 0x7ff0000000000000 = 0x7ff0000000000000 then .null else .num (Decimal.compact bits)

/-- A natural number as an integer. -/
def nat (n : Nat) : Json := .int n

/-- An optional value, null when absent. -/
def opt {α : Type} (f : α → Json) : Option α → Json
  | some a => f a
  | none => .null

/-- A one-member object. -/
def single (key : String) (v : Json) : Json := .obj [(key, v)]

/-- The object with a member added at the end. -/
def push (j : Json) (key : String) (v : Json) : Json :=
  match j with
  | .obj fields => .obj (fields ++ [(key, v)])
  | other => other

end Json

end KeyRelay
