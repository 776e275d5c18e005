import KeyRelay.Scenario.Steps
import KeyRelay.Wire.Layout
import KeyRelay.Block
import KeyRelay.Relay
import KeyRelay.Config
import KeyRelay.Rate
import KeyRelay.Session.Index

/-!
Scenarios of the core values: identifiers, spans, blocks, key material, relaying, the
configurations, rates, and the roles of a session's hops.
-/
namespace KeyRelay.Scenario

open Wire

/-- A span given in its wire layout. -/
def span : Json → Run Span := wire Layout.span Span.ofValue?

/-- Spans given as one array in their wire layout. -/
def spans : Json → Run (List Span) := wireList Layout.span Span.ofValue?

/-- A span as an answer. -/
def spanJson (s : Span) : Json := s.toValue.toJson

/-- An identifier: its text, bytes and round trip through bytes. -/
def identScenario (j : Json) : Run Json := do
  let id ← field j "id" ident
  pure (.obj [("display", .str id.display), ("kme_display", .str id.display),
    ("be_hex", hexJson id.toBytes), ("roundtrip", identJson (Ident.ofBytes id.toBytes))])

/-- A span: building, checking, length, and overlap with a second one. -/
def spanScenario (j : Json) : Run Json := do
  let a ← field j "a" span
  let b ← optional j "b" span
  let base : List (String × Json) :=
    [("new", resultJson spanJson (Span.make a.block a.start a.stop)),
     ("validate", resultJson (fun _ => .null) a.validate),
     ("len", .nat a.len), ("is_empty", .bool a.isEmpty)]
  let pair := match b with
    | some b => [("overlaps", .bool (a.overlaps b)), ("overlaps_rev", .bool (b.overlaps a))]
    | none => []
  pure (.obj (base ++ pair))

/-- The total length of spans. -/
def totalLenScenario (j : Json) : Run Json := do
  let spans ← field j "instructions" spans
  pure (.single "total" (.nat (← guard (Span.totalLen spans))))

/-- One step on a block. -/
def blockStep (b : Block) (name : String) (arg : Json) : Run (Block × Json) := do
  let (b, answer) ← match name with
    | "carve" => do
      let max ← u64 arg
      match ← guard (b.carveWord max) with
      | some (b', s) => pure (b', okJson (spanJson s))
      | none => pure (b, okJson .null)
    | "uncarve" => do
      let s ← field arg "instruction" span
      let release ← field arg "release_ref" boolean
      match b.uncarve s release with
      | some b' => pure (b', okJson (.bool true))
      | none => pure (b, okJson (.bool false))
    | "acknowledge" => do
      let s ← field arg "instruction" span
      let retain ← field arg "retain" boolean
      pure (← guard (b.acknowledgeWord s retain), okJson .null)
    | "release" => pure (b.release, okJson .null)
    | "slice" => do
      let s ← span arg
      pure (b, resultJson hexJson (b.slice s))
    | "check" => do
      let now ← field arg "now" u64
      let ttl ← field arg "ttl" u64
      pure (b, okJson (.obj [("expired", .bool (b.expired now ttl)),
        ("eligible", .bool (b.eligible now ttl)), ("evictable", .bool (b.evictable now ttl))]))
    | "set" => do
      let offset ← withDefault arg "offset" b.offset u64
      let inUse ← withDefault arg "in_use" b.inUse u32
      pure ({ b with offset, inUse }, okJson .null)
    | other => bad ("unknown step " ++ other)
  pure (b, answer.push "offset" (.nat b.offset) |>.push "in_use" (.nat b.inUse)
    |>.push "available" (.nat b.available))

/-- Steps on one block. -/
def blockScenario (j : Json) : Run Json := do
  let id ← field j "id" ident
  let link ← withDefault j "link_id" ⟨1⟩ ident
  let timestamp ← withDefault j "timestamp" 0 u64
  let arrival ← withDefault j "arrival" 0 u64
  let bytes ← field j "bytes" Scenario.bytes
  let b : Block := { id, link, timestamp, arrival, bytes }
  pure (.single "steps" (.arr (runSteps blockStep b (← steps j))))

/-- Key material: its text, lengths, XOR and concatenation. -/
def materialScenario (j : Json) : Run Json := do
  let a : Material := ⟨← field j "a" bytes⟩
  let b ← optional j "b" bytes
  let parts ← optional j "parts" (list bytes)
  let base : List (String × Json) :=
    [("encode", .str a.encode), ("len", .nat a.len), ("bit_len", .nat a.bitLen),
     ("is_empty", .bool (a.len == 0)), ("debug", .str a.describe)]
  let xor := match b with
    | some b => [("xor", resultJson (fun m : Material => hexJson m.bytes) (a.xor ⟨b⟩))]
    | none => []
  let concat := match parts with
    | some ps => [("concat", hexJson (Material.concat ps).bytes)]
    | none => []
  pure (.obj (base ++ xor ++ concat))

/-- Decoding key material. -/
def materialDecodeScenario (j : Json) : Run Json := do
  let t ← field j "text" text
  pure (resultJson (fun m : Material => hexJson m.bytes) (Material.decode t))

/-- Masking a key for the next hop. -/
def relayWrapScenario (j : Json) : Run Json := do
  let key ← field j "key" bytes
  let otk ← field j "otk" bytes
  pure (resultJson Json.str (Relay.wrap ⟨key⟩ ⟨otk⟩))

/-- Unmasking a relayed key. -/
def relayUnwrapScenario (j : Json) : Run Json := do
  let cipher ← field j "cipher" text
  let otk ← field j "otk" bytes
  let size ← field j "size" u32
  pure (resultJson (fun m : Material => hexJson m.bytes) (Relay.unwrap cipher ⟨otk⟩ size))

/-- A configuration fault or null. -/
def validationJson : Except ConfigError Unit → Json
  | .ok () => .null
  | .error e => configJson e

/-- A node configuration from overrides of the defaults. -/
def kmeConfig (j : Json) : Run KmeConfig := do
  let d : KmeConfig := {}
  pure {
    ttlMs := ← withDefault j "ttl_ms" d.ttlMs u64
    minKeySize := ← withDefault j "min_key_size" d.minKeySize u32
    maxKeySize := ← withDefault j "max_key_size" d.maxKeySize u32
    defaultKeySize := ← withDefault j "default_key_size" d.defaultKeySize u32
    prefetchKeys := ← withDefault j "prefetch_keys" d.prefetchKeys u64
    maxKeyCount := ← withDefault j "max_key_count" d.maxKeyCount u64
    maxKeysPerRequest := ← withDefault j "max_keys_per_request" d.maxKeysPerRequest u32
    maxSaeIdCount := ← withDefault j "max_sae_id_count" d.maxSaeIdCount u32 }

/-- An overhead policy by name. -/
def policy : Json → Run OverheadPolicy
  | .str "Additive" => pure .additive
  | .str "Amortized" => pure .amortized
  | .str other => bad ("bad policy " ++ other)
  | _ => bad "bad policy"

/-- A controller configuration from overrides of the defaults. -/
def controllerConfig (j : Json) : Run ControllerConfig := do
  let d : ControllerConfig := {}
  pure {
    pendingTtlMs := ← withDefault j "pending_ttl_ms" d.pendingTtlMs u64
    windowMs := ← withDefault j "capacity_window_ms" d.windowMs u64
    sampleIntervalMs := ← withDefault j "sample_interval_ms" d.sampleIntervalMs u64
    prefetchKeys := ← withDefault j "prefetch_keys" d.prefetchKeys u64
    policy := ← withDefault j "overhead_policy" d.policy policy
    expectedNodes := ← optional j "expected_nodes" u64
    expectedLinks := ← optional j "expected_links" u64 }

/-- Checking a node configuration and resolving key sizes under it. -/
def kmeConfigScenario (j : Json) : Run Json := do
  let c ← kmeConfig j
  let sizes ← withDefault j "resolve" [] (list fun v => match v with
    | .null => pure none
    | v => some <$> u32 v)
  pure (.obj [("validate", validationJson c.validate),
    ("resolve", .arr (sizes.map fun s => resultJson Json.nat (c.resolveKeySize s)))])

/-- Checking a controller configuration. -/
def controllerConfigScenario (j : Json) : Run Json := do
  let c ← controllerConfig j
  pure (.single "validate" (validationJson c.validate))

/-- The overhead of prefetching. -/
def overheadScenario (j : Json) : Run Json := do
  let p ← field j "policy" policy
  let rate ← field j "rate" real
  let prefetch ← field j "prefetch" u64
  pure (.single "overhead" (realJson (p.overhead rate prefetch)))

/-- A quality of service in its wire layout. -/
def qos : Json → Run Qos := wire Layout.qos Qos.ofValue?

/-- The rate a quality of service asks for. -/
def qosRateScenario (j : Json) : Run Json := do
  let q ← field j "qos" qos
  pure (.single "rate" (realJson q.rate))

/-- A session record in its wire layout. -/
def sessionRecord : Json → Run SessionRecord := wire Layout.sessionRecord SessionRecord.ofValue?

/-- A role as an answer. -/
def roleJson : Role → Json
  | .direct c => .single "Direct" (.single "companion" (.opt identJson c))
  | .first next => .single "First" (.single "next" (identJson next))
  | .middle prev next => .single "Middle" (.obj [("prev", identJson prev), ("next", identJson next)])
  | .last prev => .single "Last" (.single "prev" (identJson prev))

/-- The hops of a session as given nodes see them. -/
def sessionScenario (j : Json) : Run Json := do
  let r ← field j "record" sessionRecord
  let kmes ← field j "kmes" (list ident)
  let hop (k : KmeId) : Json :=
    let role := r.role k
    .obj [("kme", identJson k), ("position", .opt Json.nat (r.position k)),
      ("previous_hop", .opt identJson (r.previousHop k)),
      ("next_hop", .opt identJson (r.nextHop k)),
      ("role", resultJson roleJson role),
      ("neighbours", match role with
        | .ok role => .arr (role.neighbours.map identJson)
        | .error _ => .null)]
  pure (.obj [("relay", .bool r.relay), ("hops", .arr (kmes.map hop))])

/-- A moving average over samples. -/
def rateEstimatorScenario (j : Json) : Run Json := do
  let samples ← field j "samples" (list u64)
  let resume ← optional j "resume" real
  let alpha ← optional j "alpha" real
  let interval ← optional j "interval_secs" real
  let e ← match resume, alpha, interval with
    | some r, _, _ => pure (RateEstimator.resume r)
    | none, none, none => pure {}
    | none, a, i => guard (RateEstimator.withAlpha (a.getD 0.1) (i.getD 1.0))
  let initial := e.current
  let (e, observed) := samples.foldl (fun (acc : RateEstimator × List Float) n =>
    let (e', r) := acc.1.observe n
    (e', acc.2 ++ [r])) (e, [])
  pure (.obj [("initial", realJson initial), ("observed", .arr (observed.map realJson)),
    ("final", realJson e.current)])

/-- One step on a capacity window. -/
def windowStep (w : CapacityWindow Float) (name : String) (arg : Json) :
    Run (CapacityWindow Float × Json) :=
  do
  let (w, extra) ← match name with
    | "record" => do
      match arg with
      | .arr [t, r] => do
        let w' ← guard (w.record (← u64 t) (← real r))
        pure (w', [])
      | _ => bad "record takes [at_ms, rate]"
    | "estimate" => do
      let e ← guard (w.estimate (← u64 arg))
      pure (w, [("estimate", realJson e)])
    | other => bad ("unknown step " ++ other)
  pure (w, .obj (extra ++ [("len", .nat w.size), ("is_empty", .bool (w.size == 0))]))

/-- Steps on a capacity window. -/
def capacityWindowScenario (j : Json) : Run Json := do
  let span ← field j "span_ms" u64
  let w ← match ← optional j "max_samples" u64 with
    | some n => guard (CapacityWindow.withCapacity span n)
    | none => do guard (CapacityWindow.spanning span (← field j "interval_ms" u64))
  pure (.single "steps" (.arr (runSteps windowStep w (← steps j))))

/-- A session record as an answer. -/
def recordJson (r : SessionRecord) : Json := r.toValue.toJson

/-- One step on a session index. -/
def indexStep (ix : SessionIndex) (name : String) (arg : Json) : Run (SessionIndex × Json) := do
  let (ix, value) ← match name with
    | "insert" => do
      let (ix', old) := ix.insert (← sessionRecord arg)
      pure (ix', Json.opt recordJson old)
    | "remove" => do
      let (ix', old) := ix.remove (← ident arg)
      pure (ix', Json.opt recordJson old)
    | "get" => do pure (ix, Json.opt recordJson (ix.get? (← ident arg)))
    | "by_apps" => do
      match arg with
      | .arr [src, dst] => pure (ix, Json.opt recordJson (ix.byPair? (← ident src) (← ident dst)))
      | _ => bad "by_apps takes [src, dst]"
    | "list" => pure (ix, .arr (ix.sorted.map recordJson))
    | other => bad ("unknown step " ++ other)
  pure (ix, .obj [("ok", value), ("len", .nat ix.size), ("is_empty", .bool (ix.size == 0))])

/-- Steps on a session index. -/
def sessionIndexScenario (j : Json) : Run Json := do
  pure (.single "steps" (.arr (runSteps indexStep {} (← steps j))))

end KeyRelay.Scenario
