import KeyRelay.Json.Parse
import KeyRelay.Json.Print
import KeyRelay.Wire.Json
import KeyRelay.Fault

/-!
Arguments of scenarios. A scenario is a JSON object; its arguments are read here, and any
argument that is missing or malformed makes the scenario (or the step that holds it) answer
bad input instead of running.

A number argument may be given as a number or as a text. An integer is a decimal numeral with
an optional `+`, below the bound of its width (`2 ^ 128` for identifiers); a number that is not
an integer literal, such as `1.0`, is refused as not being one. A float is any float numeral,
`NaN`, `inf` and `infinity` included in any case. Bytes are hex text of an even length, or a
fill `{"len": n, "start": s, "step": t}` whose byte `i` is `s + (i mod 256) * t` modulo 256.
An argument of the wrong kind is refused as `expected <kind>, got <document>`.
-/
namespace KeyRelay.Scenario

/-- Why a scenario did not run to its end: bad input, or a stop of the whole program. -/
inductive Stop where
  | bad (message : String)
  | abort (a : Abort)
deriving Repr

/-- Reading arguments and running scenarios. -/
abbrev Run := Except Stop

/-- Refuses the input. -/
def bad {α : Type} (message : String) : Run α := throw (.bad message)

/-- Runs a program step that may stop the program. -/
def guard {α : Type} (r : Except Abort α) : Run α :=
  match r with
  | .ok a => pure a
  | .error e => throw (.abort e)

/-- A member that must be present. -/
def need (j : Json) (key : String) : Run Json :=
  match j.get? key with
  | some v => pure v
  | none => bad ("missing field " ++ key)

/-- A member read by `f` when present and not null. -/
def optional {α : Type} (j : Json) (key : String) (f : Json → Run α) : Run (Option α) :=
  match j.present? key with
  | some v => some <$> f v
  | none => pure none

/-- A member read by `f`, or `d` when missing or null. -/
def withDefault {α : Type} (j : Json) (key : String) (d : α) (f : Json → Run α) : Run α := do
  pure ((← optional j key f).getD d)

/-- A member that must be present, read by `f`. -/
def field {α : Type} (j : Json) (key : String) (f : Json → Run α) : Run α := do
  f (← need j key)

/-- The text an argument gives for a number: a number's numeral or a text itself. -/
def numeralOf? : Json → Option String
  | .int n => some (toString n)
  | .num t => some t
  | .str s => some s
  | _ => none

/-- The refusal of an argument of the wrong kind, showing it as a document. -/
def expected {α : Type} (kind : String) (j : Json) : Run α :=
  bad ("expected " ++ kind ++ ", got " ++ j.render)

/-- A natural number below `2 ^ bits`, from a number or a text, read as a decimal numeral with
an optional `+`. -/
def word (bits : Nat) (j : Json) : Run Nat :=
  match numeralOf? j with
  | some t =>
    match Decimal.parseWord bits t with
    | .ok n => pure n
    | .error e => bad ("bad integer " ++ t ++ ": " ++ e.message)
  | none => expected "integer" j

/-- A 64-bit word. -/
def u64 : Json → Run Nat := word 64

/-- A 32-bit word. -/
def u32 : Json → Run Nat := word 32

/-- An identifier. -/
def ident (j : Json) : Run Ident := Ident.mk <$> word 128 j

/-- A boolean. -/
def boolean : Json → Run Bool
  | .bool b => pure b
  | j => expected "bool" j

/-- A text. -/
def text : Json → Run String
  | .str s => pure s
  | j => expected "string" j

/-- A float: a number, or a text holding a float numeral, `NaN` and `inf` included. -/
def real : Json → Run Float
  | .int n => pure (Float.ofBits (Decimal.intBits n))
  | .num t =>
    match Decimal.parseFloat t with
    | .ok bits => pure (Float.ofBits bits)
    | .error e => bad ("bad float " ++ t ++ ": " ++ e.message)
  | .str s =>
    match Decimal.parseFloat s with
    | .ok bits => pure (Float.ofBits bits)
    | .error e => bad ("bad float " ++ s ++ ": " ++ e.message)
  | j => expected "float" j

/-- The items of an array, each read by `f`. -/
def list {α : Type} (f : Json → Run α) : Json → Run (List α)
  | .arr items => items.mapM f
  | j => expected "array" j

/-- The item of a list that an index text names: `N` counts from the front and `-N` from the
back, `-1` being the last, where `N` is a decimal numeral of a machine word. -/
def pick? {α : Type} (items : List α) (index : String) : Option α :=
  match index.toList with
  | '-' :: back =>
    match Decimal.parseWord 64 (String.ofList back) with
    | .ok n => if n = 0 ∨ n > items.length then none else items[items.length - n]?
    | .error _ => none
  | _ =>
    match Decimal.parseWord 64 index with
    | .ok n => items[n]?
    | .error _ => none

/-- The item of a list that an argument names by its index (see `pick?`). -/
def itemAt {α : Type} (items : List α) (j : Json) : Run α :=
  let index := (numeralOf? j).getD j.render
  match pick? items index with
  | some a => pure a
  | none => bad ("no item " ++ index)

/-- The bytes of a fill: byte `i` is `start + (i mod 256) * step` modulo 256. -/
def fill (len start step : Nat) : List UInt8 :=
  (List.range len).map fun i => ((start % 256 + (i % 256) * (step % 256)) % 256).toUInt8

/-- The byte of two characters read as a base-16 numeral, which may start with `+`. -/
def hexPair? (a b : Char) : Option UInt8 :=
  if a = '+' then (Hex.value? b).map Nat.toUInt8
  else do pure ((← Hex.value? a) * 16 + (← Hex.value? b)).toUInt8

/-- Bytes from text two characters a byte. -/
def hexBytes? : List Char → Option (List UInt8)
  | [] => some []
  | [_] => none
  | a :: b :: rest => do pure ((← hexPair? a b) :: (← hexBytes? rest))

/-- Bytes: hex text of an even length, or a fill. -/
def bytes : Json → Run (List UInt8)
  | .str s =>
    if s.utf8ByteSize % 2 = 1 then bad "odd hex length"
    else
      match hexBytes? s.toList with
      | some b => pure b
      | none => bad ("bad hex " ++ s)
  | j@(.obj _) => do
    let len ← field j "len" u64
    let start ← withDefault j "start" 0 u64
    let step ← withDefault j "step" 1 u64
    pure (fill len start step)
  | j => expected "bytes" j

/-- A value of a message type, given in the JSON layout of its shape. -/
def wire {α : Type} (shape : Wire.Shape) (of? : Wire.Value → Option α) (j : Json) : Run α :=
  match Wire.ofJson shape j with
  | .ok v =>
    match of? v with
    | some a => pure a
    | none => bad "bad value"
  | .error e => bad ("bad value: " ++ e)

/-- A list of values of a message type, given as one array in the JSON layout of the shape. -/
def wireList {α : Type} (shape : Wire.Shape) (of? : Wire.Value → Option α) : Json → Run (List α) :=
  wire (.seq shape) fun
    | .seq items => items.mapM of?
    | _ => none

/-- The single key of a step and its argument. -/
def stepOf : Json → Run (String × Json)
  | .obj [(k, v)] => pure (k, v)
  | _ => bad "step must have exactly one key"

/-- The steps of a stateful scenario. -/
def steps (j : Json) : Run (List Json) :=
  match j.get? "steps" with
  | some (.arr items) => pure items
  | none => pure []
  | some _ => bad "steps must be an array"

end KeyRelay.Scenario
