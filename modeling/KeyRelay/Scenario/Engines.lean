import KeyRelay.Engine
import KeyRelay.Scenario.Pool

/-!
One to four key engines over one environment, each with its own records, driven step by step.
Generated batches are numbered in order of success, and the keys of each batch (handed out,
then kept in the clear) become the targets of `$key:N` references. Each answer carries the
records of every engine.
-/
namespace KeyRelay.Scenario

open Wire

/-- The environment as the input gives it. -/
def env (j : Json) : Run Env := do
  let clockMs ← withDefault j "clock_ms" 0 u64
  let wall ← withDefault j "wall" 1000 u64
  let counter ← withDefault j "id_start" 0 (word 128)
  let step ← withDefault j "id_step" 1 (word 128)
  pure { clockMs, wall, counter, step }

/-- Engines, their environment, and what earlier steps produced. -/
structure Bench where
  env : Env
  engines : List (Pool × Storage)
  batches : List Batch := []
  refs : Refs := {}
  /-- The latest generation failed. -/
  lastFailed : Bool := false
deriving Inhabited

/-- A key of a batch as an answer. -/
def issuedJson (k : Issued) : Json :=
  .obj [("key_id", identJson k.keyId), ("instructions", .arr (k.spans.map spanJson)),
    ("key", .str k.material.encode)]

/-- A batch as an answer. -/
def batchJson (index : Nat) (b : Batch) : Json :=
  .obj [("batch", .nat index), ("link_id", identJson b.link),
    ("issued", .arr (b.issued.map issuedJson)), ("stored", .arr (b.stored.map issuedJson)),
    ("consumed", .arr (b.consumed.map spanJson))]

/-- A clear key as an answer. -/
def localKeyJson (k : LocalKey) : Json :=
  .obj [("ksid", identJson k.ksid), ("key_id", identJson k.keyId), ("key", .str k.material.encode),
    ("created_at", .nat k.createdAt)]

/-- A key row as an answer. -/
def keyRowJson (r : KeyRow) : Json := r.toValue.toJson

/-- A key row of the input. -/
def keyRow : Json → Run KeyRow := wire Layout.keyRow KeyRow.ofValue?

/-- Whether a batch index is the newest batch written as such: the number `-1` or the text
`-1`. -/
def newest (index : Json) : Bool :=
  match index with
  | .int n => n == -1
  | .str s => s == "-1"
  | _ => false

namespace Bench

/-- An engine by its index. -/
def engine (b : Bench) (i : Nat) : Run (Pool × Storage) :=
  match b.engines[i]? with
  | some e => pure e
  | none => bad "engine index out of range"

/-- Runs a computation on an engine. -/
def run {α : Type} (b : Bench) (i : Nat) (m : Pool → EngineM α) : Run (Except Fault α × Bench) := do
  let (pool, st) ← b.engine i
  let (r, (env, st)) := EStateM.outcome (m pool) (b.env, st)
  pure (r, { b with env, engines := b.engines.set i (pool, st) })

/-- The batch an index names, counted from the back when negative. -/
def batch (b : Bench) (index : Json) : Run Batch := itemAt b.batches index

/-- The records of every engine. -/
def stateJson (b : Bench) : Json := .arr (b.engines.map fun e => storageJson e.2)

end Bench

/-- Delivers a block to the listed engines in turn: each one's answer, the engines after
delivery, and the refusal of the first index that names no engine, where delivery stops. -/
def deliverAll (link : LinkId) (id : BlockId) (data : List UInt8) (timestamp : Nat) :
    List Nat → Bench → List Json × Bench × Option String
  | [], b => ([], b, none)
  | i :: rest, b =>
    match b.engines[i]? with
    | none => ([], b, some "engine index out of range")
    | some (pool, st) =>
      let (r, st) := EStateM.outcome (pool.ingest link id data timestamp) st
      let (answer, pool) := match r with
        | .ok (inserted, pool) => (okJson (.bool inserted), pool)
        | .error e => (faultJson e, pool)
      let (more, b, stop) := deliverAll link id data timestamp rest
        { b with engines := b.engines.set i (pool, st) }
      (answer :: more, b, stop)

/-- The `deliver` step: a block handed to the listed engines, all by default. An index that
names no engine refuses the step, but the engines before it keep the block. -/
def Bench.deliverStep (b : Bench) (arg : Json) : Run (Bench × Json) := do
  let link ← field arg "link_id" ident
  let id ← field arg "block_id" ident
  let data ← field arg "bytes" bytes
  let timestamp ← withDefault arg "timestamp" b.env.wallSecs u64
  let targets ← withDefault arg "to" (List.range b.engines.length) (list u64)
  let (answers, b, stop) := deliverAll link id data timestamp targets b
  match stop with
  | some m => pure (b, badJson m)
  | none => pure (b, (okJson (.arr answers)).push "state" b.stateJson)

/-- One step on the engines. -/
def benchStep (b : Bench) (name : String) (arg : Json) : Run (Bench × Json) := do
  let arg ← b.refs.resolve arg
  let e ← withDefault arg "e" 0 u64
  if name = "deliver" then return ← b.deliverStep arg
  let finish {α : Type} (m : Pool → EngineM α) (f : α → Json) : Run (Bench × Json) := do
    let (r, b) ← b.run e m
    pure (b, resultJson f r)
  let (b, answer) ← match name with
    | "generate" => do
      let ksid ← field arg "ksid" ident
      let link ← field arg "link_id" ident
      let sizeBits ← field arg "size_bits" u32
      let count ← field arg "count" u64
      let keepLocal ← withDefault arg "keep_local" 0 u64
      let _ ← b.engine e
      if let .error (.abort a) := Engine.checkGeneration sizeBits count then throw (.abort a)
      let (r, b) ← b.run e fun pool => Engine.generate pool ksid link sizeBits count keepLocal
      match r with
      | .ok batch =>
        let index := b.batches.length
        pure ({ b with batches := b.batches ++ [batch], lastFailed := false,
                       refs := { b.refs with keys := b.refs.keys ++ batch.keys.map (·.keyId) } },
          okJson (batchJson index batch))
      | .error f => pure ({ b with lastFailed := true }, faultJson f)
    | "rows" => do
      let batch ← b.batch (← need arg "batch")
      let ksid ← field arg "ksid" ident
      let relay ← withDefault arg "relay" false boolean
      let createdAt ← withDefault arg "created_at" 0 u64
      pure (b, okJson (.arr ((batch.rows ksid relay createdAt).map keyRowJson)))
    | "sync" => do
      let index ← need arg "batch"
      if newest index && b.lastFailed then pure (b, okJson (.str "skipped"))
      else
        let batch ← b.batch index
        let target ← field arg "to" u64
        let withRows ← withDefault arg "with_rows" true boolean
        let rows ← if withRows then do
            let ksid ← field arg "ksid" ident
            let relay ← withDefault arg "relay" false boolean
            let createdAt ← withDefault arg "created_at" 0 u64
            pure (batch.rows ksid relay createdAt)
          else pure []
        let link ← withDefault arg "link_id" batch.link ident
        let (r, b) ← b.run target fun _ => Engine.applySync link rows batch.consumed
        pure (b, resultJson (fun _ => .null) r)
    | "apply_sync" => do
      let link ← field arg "link_id" ident
      let rows ← field arg "rows" (wireList Layout.keyRow KeyRow.ofValue?)
      let consumed ← field arg "consumed" spans
      finish (fun _ => Engine.applySync link rows consumed) fun _ => .null
    | "undo_batch" => do
      let ksid ← field arg "ksid" ident
      let batch ← b.batch (← need arg "batch")
      finish (fun _ => Engine.undoBatch ksid batch) fun _ => .null
    | "reconstruct" => do
      let ksid ← field arg "ksid" ident
      let key ← field arg "key_id" ident
      finish (fun _ => Engine.reconstruct ksid key) fun m => .str m.encode
    | "retrieve" => do
      let keys ← field arg "key_ids" (list ident)
      let ksid ← field arg "ksid" ident
      let replay ← field arg "replay" boolean
      finish (fun _ => Engine.retrieve ksid keys replay) fun ms => .arr (ms.map (.str ·.encode))
    | "take_prefetched" => do
      let ksid ← field arg "ksid" ident
      let sizeBits ← field arg "size_bits" u32
      finish (fun _ => Engine.takePrefetched ksid sizeBits) (Json.opt localKeyJson)
    | "store_local" => do
      let ksid ← field arg "ksid" ident
      let pair (j : Json) : Run (KeyId × Material) := match j with
        | .arr [k, m] => do pure (← ident k, ⟨← bytes m⟩)
        | _ => bad "a key is [key_id, bytes]"
      let keys ← field arg "keys" (list pair)
      finish (fun _ => Engine.storeLocal ksid keys) fun _ => .null
    | "discard" => do
      let ksid ← field arg "ksid" ident
      let keys ← field arg "key_ids" (list ident)
      finish (fun _ => Engine.discard ksid keys) fun _ => .null
    | "purge" => do
      let ksid ← field arg "ksid" ident
      finish (fun _ => Engine.purgeSession ksid) fun _ => .null
    | "count" => do
      let ksid ← field arg "ksid" ident
      finish (fun _ => Engine.sessionKeyCount ksid) Json.nat
    | "sweep" => finish Engine.sweep Json.nat
    | "available" => do
      let link ← field arg "link_id" ident
      finish (fun pool => Engine.available pool link) Json.nat
    | "advance_ms" => do
      let ms ← field arg "ms" u64
      pure ({ b with env := b.env.advance ms }, okJson .null)
    | "fail_on" => do
      let k ← field arg "k" u64
      let (pool, st) ← b.engine e
      if st.chaos.isNone then bad "fail_on needs chaotic storage"
      pure ({ b with engines := b.engines.set e (pool, st.failOn k) }, okJson .null)
    | other => bad ("unknown step " ++ other)
  pure (b, answer.push "state" b.stateJson)

/-- Opens the engines' pools in turn. -/
def openEngines (ttlMs : Nat) : List Storage → Except Fault (List (Pool × Storage))
  | [] => .ok []
  | st :: rest =>
    match EStateM.outcome (Pool.load ttlMs) st with
    | (.ok pool, st) => do pure ((pool, st) :: (← openEngines ttlMs rest))
    | (.error f, _) => .error f

/-- Steps on key engines over fresh records; the first engine's records are as the input
says, the others in memory. -/
def keyEngineScenario (j : Json) : Run Json := do
  let count ← withDefault j "engines" 2 u64
  if count < 1 || count > 4 then bad "engines must be 1..=4"
  let environment ← withDefault j "env" {} env
  let ttlMs ← withDefault j "ttl_ms" 15000 u64
  let first ← withDefault j "storage" {} storage
  let list ← steps j
  match openEngines ttlMs (first :: List.replicate (count - 1) {}) with
  | .error f => pure (faultJson f)
  | .ok engines =>
    pure (.single "steps" (.arr (runSteps benchStep { env := environment, engines } list)))

end KeyRelay.Scenario
