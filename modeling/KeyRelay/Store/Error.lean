import KeyRelay.Fault

/-!
Failures of a node's persistent store. Every store failure reaches the node's callers as a
storage fault with the store's own text.
-/
namespace KeyRelay

/-- Why a store operation failed. -/
inductive StoreError where
  /-- A record that must exist does not: its kind (`block`, `link`, ...) and identifier. -/
  | notFound (entity : String) (id : String)
  /-- A write would contradict what is stored. -/
  | conflict (reason : String)
  | serialization (reason : String)
  | io (reason : String)
deriving Repr, DecidableEq

namespace StoreError

/-- The text of a store failure. -/
def describe : StoreError → String
  | .notFound entity id => entity ++ " " ++ id ++ " not found"
  | .conflict reason => "conflict: " ++ reason
  | .serialization reason => "serialization error: " ++ reason
  | .io reason => "I/O error: " ++ reason

/-- The fault that a store failure becomes. -/
def toFault (e : StoreError) : Fault := .storage e.describe

end StoreError

end KeyRelay
