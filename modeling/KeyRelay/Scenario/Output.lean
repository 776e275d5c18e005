import KeyRelay.Json.Basic
import KeyRelay.Scenario.Input
import KeyRelay.Wire.Json
import KeyRelay.Config

/-!
Answers of scenarios. A fault is `{"error": cause, "kind": code, "message": text}`, a
configuration fault `{"error": cause, "message": text}`, a stop of the program
`{"error": "panic", "message": text}` and bad input `{"error": "BadInput", "message": text}`.
Rates and other floats of the answers are numbers when finite and the texts `NaN`, `inf` or
`-inf` otherwise.
-/
namespace KeyRelay.Scenario

/-- A success. -/
def okJson (v : Json) : Json := .single "ok" v

/-- An identifier. -/
def identJson (i : Ident) : Json := .int i.val

/-- Bytes as lowercase hex. -/
def hexJson (b : List UInt8) : Json := .str (Hex.ofBytes b)

/-- A float of an answer. -/
def realJson (x : Float) : Json :=
  let bits := x.toBits
  if bits &&& 0x7ff0000000000000 ≠ 0x7ff0000000000000 then .float bits
  else if bits &&& 0x000fffffffffffff ≠ 0 then .str "NaN"
  else if bits &&& 0x8000000000000000 ≠ 0 then .str "-inf"
  else .str "inf"

/-- A fault. -/
def faultJson (f : Fault) : Json :=
  .obj [("error", .str f.name), ("kind", .str f.kind.code), ("message", .str f.message)]

/-- A configuration fault. -/
def configJson (e : ConfigError) : Json :=
  .obj [("error", .str e.name), ("message", .str e.message)]

/-- A stop of the program. -/
def abortJson (a : Abort) : Json := .obj [("error", .str "panic"), ("message", .str a.message)]

/-- Bad input. -/
def badJson (message : String) : Json :=
  .obj [("error", .str "BadInput"), ("message", .str message)]

/-- The answer of a stop. -/
def Stop.toJson : Stop → Json
  | .bad m => badJson m
  | .abort a => abortJson a

/-- A success or a fault. -/
def resultJson {α : Type} (f : α → Json) : Except Fault α → Json
  | .ok a => okJson (f a)
  | .error e => faultJson e

/-- A value of the data model in its JSON layout. -/
def valueJson (v : Wire.Value) : Json := v.toJson

end KeyRelay.Scenario
