import KeyRelay.Pool
import KeyRelay.Scenario.Basic
import KeyRelay.Scenario.Steps

/-!
The block pool of one link table, driven step by step. Each answer carries the records' blocks
(id, cursor, references), the counts of rows and clear keys (unknown for records in a file),
and, with fault injection, the number of operations counted so far; reading them counts none.
-/
namespace KeyRelay.Scenario

/-- Records as the input names them: in memory (the default), in a file, or in memory behind
fault injection. -/
def storage : Json → Run Storage
  | .str "memory" => pure {}
  | .str "redb" => pure { backend := .file }
  | j@(.obj _) => do
    let c ← field j "chaotic" pure
    let rate ← field c "rate" real
    let seed ← withDefault c "seed" Chaos.defaultSeed u64
    let writesOnly ← withDefault c "writes_only" false boolean
    pure { chaos := some (← guard (Chaos.make rate seed writesOnly)) }
  | _ => bad "bad storage"

/-- What the records hold, as the answers show it. -/
def storageJson (st : Storage) : Json :=
  let count (n : Nat) : Json := if st.backend = .file then .null else .nat n
  let blocks := st.data.listBlocks.map fun b => Json.arr [identJson b.id, .nat b.offset, .nat b.inUse]
  let base := [("blocks", .arr blocks), ("rows", count st.data.rows.size),
    ("locals", count st.data.locals.size)]
  match st.chaos with
  | some c => .obj (base ++ [("ops", .nat c.operations)])
  | none => .obj base

/-- The answer of a computation on the records. -/
def storeAnswer {α : Type} (f : α → Json) : Except Fault α → Json := resultJson f

/-- One step on a pool. -/
def poolStep (s : Pool × Storage) (name : String) (arg : Json) :
    Run ((Pool × Storage) × Json) := do
  let (p, st) := s
  let done {α : Type} (m : StoreM α) (f : α → Json) : Run ((Pool × Storage) × Json) :=
    let (r, st) := EStateM.outcome m st
    pure ((p, st), storeAnswer f r)
  let ((p, st), answer) ← match name with
    | "ingest" => do
      let link ← field arg "link_id" ident
      let id ← field arg "block_id" ident
      let b ← field arg "bytes" bytes
      let timestamp ← field arg "timestamp" u64
      let (r, st) := EStateM.outcome (p.ingest link id b timestamp) st
      match r with
      | .ok (inserted, p) => pure ((p, st), okJson (.bool inserted))
      | .error e => pure ((p, st), faultJson e)
    | "available" => do
      done (p.available (← field arg "link_id" ident) (← field arg "now" u64)) Json.nat
    | "reserve" => do
      let link ← field arg "link_id" ident
      let n ← field arg "n" u64
      done (p.reserve link n (← field arg "now" u64)) fun spans => .arr (spans.map spanJson)
    | "undo" => do
      let spans ← field arg "instructions" spans
      done (Pool.undo spans (← field arg "release_ref" boolean)) fun _ => .null
    | "read" => do done (Pool.read (← spans arg)) fun m => hexJson m.bytes
    | "release" => do done (Pool.releaseRange (← spans arg)) fun _ => .null
    | "acknowledge" => do
      let link ← field arg "link_id" ident
      let consumed ← field arg "consumed" spans
      done (Pool.acknowledge link consumed (← field arg "retained" spans)) fun _ => .null
    | "sweep" => do done (p.sweep (← u64 arg)) Json.nat
    | "fail_on" => do
      let k ← u64 arg
      if st.chaos.isNone then bad "fail_on needs chaotic storage"
      pure ((p, st.failOn k), okJson .null)
    | other => bad ("unknown step " ++ other)
  pure ((p, st), answer.push "state" (storageJson st))

/-- Steps on the block pool of fresh records. -/
def blockStoreScenario (j : Json) : Run Json := do
  let ttlMs ← withDefault j "ttl_ms" 15000 u64
  let st ← withDefault j "storage" {} storage
  let list ← steps j
  match EStateM.outcome (Pool.load ttlMs) st with
  | (.error e, _) => pure (faultJson e)
  | (.ok p, st) =>
    pure (.obj [("steps", .arr (runSteps poolStep (p, st) list)), ("ttl_secs", .nat p.ttlSecs)])

end KeyRelay.Scenario
