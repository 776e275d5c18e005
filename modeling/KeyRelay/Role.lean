import KeyRelay.Ident

/-!
The role of a node on a session's path. The path runs from the node of the master application
to the node of the slave application. A path of one node serves both applications locally, a
path of two shares one link; on a longer path the first node masks each key for the next hop,
every middle node unmasks and masks it again, and the last node keeps it.

`Role.onPath` reads the role off the first place the node holds on the path; the roles of the
hops of a path without repeated nodes chain up: each hop's `next` is the following hop's
`prev`.
-/
namespace KeyRelay

/-- What a node does for a session. -/
inductive Role where
  /-- Both applications are served here or by the neighbour sharing one link. -/
  | direct (companion : Option KmeId)
  /-- The master's node on a relayed path. -/
  | first (next : KmeId)
  /-- A hop between the two ends. -/
  | middle (prev next : KmeId)
  /-- The slave's node on a relayed path. -/
  | last (prev : KmeId)
deriving DecidableEq, Repr

namespace Role

/-- The first place of a node on a path. -/
def position? (path : List KmeId) (me : KmeId) : Option Nat := path.idxOf? me

/-- The role of `me` on `path`, if `me` is on it. -/
def onPath (path : List KmeId) (me : KmeId) : Option Role := do
  let p ← position? path me
  let at_ (i : Nat) : KmeId := path.getD i default
  match path.length with
  | 1 => pure (.direct none)
  | 2 => pure (.direct (some (if p = 0 then at_ 1 else at_ 0)))
  | n =>
    if p = 0 then pure (.first (at_ 1))
    else if p = n - 1 then pure (.last (at_ (p - 1)))
    else pure (.middle (at_ (p - 1)) (at_ (p + 1)))

/-- The neighbours on the path, the previous hop first. -/
def neighbours : Role → List KmeId
  | .direct c => c.toList
  | .first next => [next]
  | .middle prev next => [prev, next]
  | .last prev => [prev]

/-- An identifier as diagnostics show a node: `KmeId(5)`. -/
def showNode (k : KmeId) : String := "KmeId(" ++ toString k.val ++ ")"

/-- The role as diagnostics show it: `Middle { prev: KmeId(2), next: KmeId(3) }`. -/
def describe : Role → String
  | .direct none => "Direct \x7b companion: None \x7d"
  | .direct (some c) => "Direct \x7b companion: Some(" ++ showNode c ++ ") \x7d"
  | .first next => "First \x7b next: " ++ showNode next ++ " \x7d"
  | .middle prev next =>
    "Middle \x7b prev: " ++ showNode prev ++ ", next: " ++ showNode next ++ " \x7d"
  | .last prev => "Last \x7b prev: " ++ showNode prev ++ " \x7d"

end Role

end KeyRelay
