import KeyRelay.Text.Hex

/-!
Identifiers. Every entity of the network (node, link, block, key, session, application) is
named by a 128-bit number, written in the five-group layout of a UUID and stored as its sixteen
big-endian bytes, so that byte order and numeric order agree.
-/
namespace KeyRelay

/-- A 128-bit identifier. -/
structure Ident where
  val : Nat
deriving DecidableEq, Repr, Hashable, Inhabited

namespace Ident

instance : Ord Ident := ⟨fun a b => compare a.val b.val⟩
instance : LT Ident := ⟨fun a b => a.val < b.val⟩
instance : LE Ident := ⟨fun a b => a.val ≤ b.val⟩
instance (a b : Ident) : Decidable (a < b) := inferInstanceAs (Decidable (a.val < b.val))
instance (a b : Ident) : Decidable (a ≤ b) := inferInstanceAs (Decidable (a.val ≤ b.val))

/-- The modulus of identifiers. -/
def space : Nat := Nat.pow 2 128

/-- The UUID layout `xxxxxxxx-xxxx-xxxx-xxxx-xxxxxxxxxxxx` of the lowercase hex digits. -/
def display (i : Ident) : String :=
  let v := i.val
  String.ofList (Hex.fixed 8 (v / Nat.pow 2 96) ++ ['-'] ++ Hex.fixed 4 (v / Nat.pow 2 80) ++ ['-'] ++
    Hex.fixed 4 (v / Nat.pow 2 64) ++ ['-'] ++ Hex.fixed 4 (v / Nat.pow 2 48) ++ ['-'] ++ Hex.fixed 12 v)

instance : ToString Ident := ⟨display⟩

/-- The `n` big-endian bytes of `v mod 256 ^ n`. -/
def bigEndian : Nat → Nat → List UInt8
  | 0, _ => []
  | n + 1, v => bigEndian n (v / 256) ++ [(v % 256).toUInt8]

/-- The sixteen big-endian bytes. -/
def toBytes (i : Ident) : List UInt8 := bigEndian 16 i.val

/-- The number that big-endian bytes spell. -/
def ofBytes (bytes : List UInt8) : Ident :=
  ⟨bytes.foldl (fun acc b => acc * 256 + b.toNat) 0⟩

end Ident

/-- A key management entity, a node of the network. -/
abbrev KmeId := Ident
/-- A quantum link between two nodes. -/
abbrev LinkId := Ident
/-- A block of shared random bytes delivered on a link. -/
abbrev BlockId := Ident
/-- A key handed to an application. -/
abbrev KeyId := Ident
/-- A key stream session between two applications. -/
abbrev Ksid := Ident
/-- An application attached to a node. -/
abbrev AppId := Ident

end KeyRelay
