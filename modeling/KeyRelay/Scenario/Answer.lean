import KeyRelay.Scenario.Basic
import KeyRelay.Scenario.Faults
import KeyRelay.Scenario.Codec
import KeyRelay.Scenario.Pool
import KeyRelay.Scenario.Engines
import KeyRelay.Scenario.Kmes
import KeyRelay.Scenario.Control
import KeyRelay.Scenario.Net
import KeyRelay.Json.Print

/-!
Answering a scenario: one JSON object in, one JSON object out. The `op` member names the
scenario; an unknown or missing one, or text that is no JSON, is bad input.
-/
namespace KeyRelay.Scenario

/-- The answer of a scenario given as a document. -/
def run (j : Json) : Run Json := do
  let op ← match j.get? "op" with
    | some (.str op) => pure op
    | some _ => bad "op must be a string"
    | none => bad "missing field op"
  match op with
  | "id" => identScenario j
  | "instruction" => spanScenario j
  | "total_len" => totalLenScenario j
  | "block" => blockScenario j
  | "material" => materialScenario j
  | "material_decode" => materialDecodeScenario j
  | "relay_wrap" => relayWrapScenario j
  | "relay_unwrap" => relayUnwrapScenario j
  | "kme_config" => kmeConfigScenario j
  | "controller_config" => controllerConfigScenario j
  | "overhead" => overheadScenario j
  | "qos_rate" => qosRateScenario j
  | "session" => sessionScenario j
  | "session_index" => sessionIndexScenario j
  | "rate_estimator" => rateEstimatorScenario j
  | "capacity_window" => capacityWindowScenario j
  | "error" => faultScenario j
  | "cbor_encode" => cborEncodeScenario j
  | "cbor_decode" => cborDecodeScenario j
  | "block_store" => blockStoreScenario j
  | "key_engine" => keyEngineScenario j
  | "kme_driver" => kmeDriverScenario j
  | "graph" => graphScenario j
  | "directory" => directoryScenario j
  | "controller_driver" => controllerDriverScenario j
  | "network" => networkScenario j
  | other => bad ("unknown op " ++ other)

/-- The answer line of an input line. -/
def answer (line : String) : String :=
  let out := match Json.parse line with
    | .error e => badJson ("bad json: " ++ e)
    | .ok j =>
      match run j with
      | .ok out => out
      | .error stop => stop.toJson
  out.render

end KeyRelay.Scenario
