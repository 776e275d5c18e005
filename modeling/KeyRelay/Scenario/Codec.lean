import KeyRelay.Scenario.Steps
import KeyRelay.Wire.Layout
import KeyRelay.Wire.Read

/-!
Scenarios of the wire codec: writing a message given in its JSON layout as CBOR, and reading
CBOR back into a message, shown in its JSON layout and written again.
-/
namespace KeyRelay.Scenario

open Wire

/-- The shape of a message type named by the scenario. -/
def shapeOf (j : Json) : Run Shape := do
  let name ← field j "type" text
  match Layout.byName? name with
  | some s => pure s
  | none => bad ("unknown type " ++ name)

/-- Writes a message as CBOR. -/
def cborEncodeScenario (j : Json) : Run Json := do
  let shape ← shapeOf j
  let v ← match Wire.ofJson shape (← need j "value") with
    | .ok v => pure v
    | .error e => bad ("bad value: " ++ e)
  pure (okJson (.single "hex" (hexJson v.encode)))

/-- Reads a message from CBOR. -/
def cborDecodeScenario (j : Json) : Run Json := do
  let shape ← shapeOf j
  let input ← field j "hex" bytes
  match readValue shape input with
  | .ok v => pure (okJson (.obj [("value", v.toJson), ("reencoded", hexJson v.encode)]))
  | .error e => pure (faultJson (.violation (.undecodable e)))

end KeyRelay.Scenario
