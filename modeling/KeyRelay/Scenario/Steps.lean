import KeyRelay.Scenario.Output

/-!
Stateful scenarios run a list of steps over a state. A step is an object with one key, the
step's name, whose value holds its arguments. A step with bad input answers so and leaves the
state as it was; a stop of the program answers once and ends the list.

Inside steps, the texts `$kme:N`, `$ksid:N` and `$key:N` stand for identifiers produced
earlier in the same scenario: the `N`-th from the front, or from the back when `N` is
negative (`-1` is the newest). Any other text that starts with `$` is refused.
-/
namespace KeyRelay.Scenario

/-- The identifiers that references can name, oldest first. -/
structure Refs where
  kmes : List Ident := []
  ksids : List Ident := []
  keys : List Ident := []
deriving Inhabited

/-- The list a reference prefix names. -/
def Refs.listOf (r : Refs) (kind : String) : Option (List Ident) :=
  if kind = "kme" then some r.kmes
  else if kind = "ksid" then some r.ksids
  else if kind = "key" then some r.keys
  else none

/-- What a text stands for: itself when it does not start with `$`. Otherwise it must be
`$kind:index`, naming the identifier at that index (see `pick?`) of the list of that kind; a
text that is not of this form is refused as a bad reference, and one whose index names no
identifier as an unresolved one. -/
def Refs.resolveText (r : Refs) (s : String) : Run Json :=
  match s.toList with
  | '$' :: rest =>
    match rest.dropWhile (· ≠ ':') with
    | ':' :: index =>
      match r.listOf (String.ofList (rest.takeWhile (· ≠ ':'))) with
      | some ids =>
        match pick? ids (String.ofList index) with
        | some id => pure (.int id.val)
        | none => bad ("unresolved ref " ++ s)
      | none => bad ("bad ref " ++ s)
    | _ => bad ("bad ref " ++ s)
  | _ => pure (.str s)

mutual
/-- Replaces every reference in a document. -/
def Refs.resolve (r : Refs) : Json → Run Json
  | .str s => r.resolveText s
  | .arr items => do pure (.arr (← r.resolveItems items))
  | .obj fields => do pure (.obj (← r.resolveMembers fields))
  | j => pure j
/-- Replaces the references in the items of an array. -/
def Refs.resolveItems (r : Refs) : List Json → Run (List Json)
  | [] => pure []
  | j :: rest => do pure ((← r.resolve j) :: (← r.resolveItems rest))
/-- Replaces the references in the members of an object. -/
def Refs.resolveMembers (r : Refs) : List (String × Json) → Run (List (String × Json))
  | [] => pure []
  | (k, j) :: rest => do pure ((k, ← r.resolve j) :: (← r.resolveMembers rest))
end

/-- Runs steps over a state: each step's answer in order, bad input answered in place, and
the list ending at a stop of the program. -/
def runSteps {σ : Type} (step : σ → String → Json → Run (σ × Json)) : σ → List Json → List Json
  | _, [] => []
  | s, j :: rest =>
    match (do let (name, arg) ← stepOf j; step s name arg) with
    | .ok (s', answer) => answer :: runSteps step s' rest
    | .error (.bad m) => badJson m :: runSteps step s rest
    | .error (.abort a) => [abortJson a]

/-- Runs steps and also gives the last state reached: the state after the last step, or
before the step that stopped the program. -/
def runStepsFinal {σ : Type} (step : σ → String → Json → Run (σ × Json)) :
    σ → List Json → List Json × σ
  | s, [] => ([], s)
  | s, j :: rest =>
    match (do let (name, arg) ← stepOf j; step s name arg) with
    | .ok (s', answer) =>
      let (more, final) := runStepsFinal step s' rest
      (answer :: more, final)
    | .error (.bad m) =>
      let (more, final) := runStepsFinal step s rest
      (badJson m :: more, final)
    | .error (.abort a) => ([abortJson a], s)

end KeyRelay.Scenario
