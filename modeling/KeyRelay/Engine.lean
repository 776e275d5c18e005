import KeyRelay.Pool
import KeyRelay.Env
import KeyRelay.Key

/-!
Key generation and replay on one end of a link. The node that generates cuts keys from the
link's pool, hands some out and keeps some in the clear, and tells its companion which spans it
consumed; the companion acknowledges those spans and stores the key rows, from which it later
replays the same keys out of its own copy of the pool.

A generation either succeeds whole or gives back everything it cut: on a failure the cursors
move back and the references taken are dropped, so no partial batch stays in the records.
-/
namespace KeyRelay

/-- A key cut from a link's pool: its id, the spans it was cut from, and its bytes. -/
structure Issued where
  keyId : KeyId
  spans : List Span
  material : Material
deriving Repr, Inhabited

/-- The keys of one generation: those handed out, then those kept in the clear. -/
structure Batch where
  link : LinkId
  issued : List Issued
  stored : List Issued
deriving Repr, Inhabited

namespace Batch

/-- Every key of the batch, handed out first. -/
def keys (b : Batch) : List Issued := b.issued ++ b.stored

/-- The spans the batch consumed, key by key. -/
def consumed (b : Batch) : List Span := b.keys.flatMap (·.spans)

/-- The rows the companion stores to replay the batch. -/
def rows (b : Batch) (ksid : Ksid) (relay : Bool) (createdAt : Nat) : List KeyRow :=
  b.keys.map fun k => ⟨k.keyId, ksid, b.link, k.spans, relay, createdAt⟩

/-- The ids of the keys kept in the clear. -/
def storedIds (b : Batch) : List KeyId := b.stored.map (·.keyId)

end Batch

/-- Computations of a node over the shared environment and the node's records. -/
abbrev EngineM := EStateM Fault (Env × Storage)

namespace Engine

/-- Runs a computation on the records. -/
def records {α : Type} (m : StoreM α) : EngineM α := EStateM.focus (·.2) (fun st s => (s.1, st)) m

/-- The wall clock, seconds. -/
def wallSecs : EngineM Nat := fun s => .ok s.1.wallSecs s

/-- Draws a fresh identifier. -/
def draw : EngineM Ident := fun s => let (i, e) := s.1.draw; .ok i (e, s.2)

/-- Gives back spans and ignores a failure to do so. -/
def rollback (spans : List Span) (release : Bool) : EngineM Unit := records (Pool.rollback spans release)

/-- Runs `m`; on its failure runs `undo` on the fault and fails the same way. -/
def onFailure {α : Type} (m : EngineM α) (undo : Fault → EngineM Unit) : EngineM α :=
  tryCatch m fun e => do
    undo e
    throw e

/-- Cuts `count` keys of `size` bytes, one after the other; a failure gives back every span
cut so far, references included. -/
def cutKeys (pool : Pool) (link : LinkId) (size now : Nat) :
    Nat → List Span → List Issued → EngineM (List Span × List Issued)
  | 0, carved, keys => pure (carved, keys)
  | k + 1, carved, keys => do
    let spans ← onFailure (records (pool.reserve link size now)) fun _ => rollback carved true
    let carved := carved ++ spans
    let material ← onFailure (records (Pool.read spans)) fun _ => rollback carved true
    let keyId ← draw
    cutKeys pool link size now k carved (keys ++ [⟨keyId, spans, material⟩])

/-- Drops the reference of each cut span in turn; when one cannot be dropped, the spans not
yet released are given back with their references and the released ones without. -/
def releaseEach (carved : List Span) : Nat → List Span → EngineM Unit
  | _, [] => pure ()
  | released, s :: rest => do
    onFailure (records (Pool.releaseRange [s])) fun _ => do
      rollback (carved.drop released) true
      rollback (carved.take released) false
    releaseEach carved (released + 1) rest

/-- The most keys one generation may hold: a generation reserves room for all of its keys
before cutting any, a key taking 64 bytes (its id, its spans and its bytes), and no buffer may
exceed `2^63 - 16` bytes at the keys' sixteen-byte alignment. -/
def batchLimit : Nat := (Nat.pow 2 63 - 16) / 64

/-- Whether a generation of `count` keys of `sizeBits` bits may start: a size that is not a
positive whole number of bytes is refused first, and a count beyond `batchLimit` stops the
program. -/
def checkGeneration (sizeBits count : Nat) : Except Halt Unit :=
  if sizeBits = 0 ∨ sizeBits % 8 ≠ 0 then .error (.fault (.invalid (.keyBits sizeBits)))
  else if count > batchLimit then .error (.abort Abort.capacityOverflow)
  else .ok ()

/-- Generates `count` keys of `sizeBits` bits from a link; the last `keepLocal` of them are
kept in the clear for the session. -/
def generate (pool : Pool) (ksid : Ksid) (link : LinkId) (sizeBits count keepLocal : Nat) :
    EngineM Batch := do
  if sizeBits = 0 ∨ sizeBits % 8 ≠ 0 then throw (.invalid (.keyBits sizeBits))
  let now ← wallSecs
  let (carved, keys) ← cutKeys pool link (sizeBits / 8) now count [] []
  releaseEach carved 0 carved
  let cut := count - keepLocal
  let stored := keys.drop cut
  let kept := stored.map fun k => (⟨ksid, k.keyId, k.material, now⟩ : LocalKey)
  if !kept.isEmpty then
    onFailure (records (Storage.storeLocalKeys kept)) fun _ => rollback carved false
  pure ⟨link, keys.take cut, stored⟩

/-- Drops keys held in the clear. -/
def discard (ksid : Ksid) (keys : List KeyId) : EngineM Unit :=
  keys.forM fun k => do
    let _ ← records (Storage.takeLocalKey ksid (some k))

/-- Undoes a batch the companion never acknowledged: its clear keys go and the cursors move
back over its spans. -/
def undoBatch (ksid : Ksid) (b : Batch) : EngineM Unit := do
  discard ksid b.storedIds
  records (Pool.undo b.consumed false)

/-- Stores rows again, ignoring a failure to. -/
def restoreRows (rows : List KeyRow) : EngineM Unit :=
  if rows.isEmpty then pure () else records (EStateM.attempt (Storage.storeKeyRows rows))

/-- After a failed replay of a row: a fatal failure means the key is lost, so its references
are dropped; otherwise the row is kept for another try. -/
def afterFailedReplay (row : KeyRow) (e : Fault) : EngineM Unit :=
  if e.fatal then records (EStateM.attempt (Pool.releaseRange row.spans)) else restoreRows [row]

/-- Replays one key from its row, which it consumes. -/
def reconstruct (ksid : Ksid) (key : KeyId) : EngineM Material := do
  let some row ← records (Storage.takeKeyRow ksid key) | throw (.noKey ksid key)
  let material ← onFailure (records (Pool.read row.spans)) (afterFailedReplay row)
  records (Pool.releaseRange row.spans)
  pure material

/-- Checks synced rows: each must be of the link, have spans, and use only consumed spans. -/
def checkRows (link : LinkId) (rows : List KeyRow) (consumed : List Span) : Except Fault Unit :=
  rows.forM fun row => do
    if row.link ≠ link then throw (.violation (.foreignRow row.keyId link row.link))
    if row.spans.isEmpty then throw (.violation (.emptyRow row.keyId))
    if row.spans.any (!consumed.contains ·) then throw (.violation (.unconsumed row.keyId))

/-- Follows what the companion consumed on a link and stores the rows of the keys it handed
out; the spans of the rows keep a reference until the rows are replayed. -/
def applySync (link : LinkId) (rows : List KeyRow) (consumed : List Span) : EngineM Unit := do
  EStateM.ofExcept (checkRows link rows consumed)
  let ranges := rows.flatMap (·.spans)
  records (Pool.acknowledge link consumed ranges)
  onFailure (records (Storage.storeKeyRows rows)) fun _ =>
    records (EStateM.attempt (Pool.releaseRange ranges))

/-- A clear key of the session of the given size, if the next one has it; a key of another size
is put back. -/
def takePrefetched (ksid : Ksid) (sizeBits : Nat) : EngineM (Option LocalKey) := do
  let some key ← records (Storage.takeLocalKey ksid none) | pure none
  if key.material.bitLen = sizeBits then pure (some key)
  else
    records (Storage.storeLocalKeys [key])
    pure none

/-- Keeps keys in the clear for a session. -/
def storeLocal (ksid : Ksid) (keys : List (KeyId × Material)) : EngineM Unit := do
  let now ← wallSecs
  records (Storage.storeLocalKeys (keys.map fun (k, m) => ⟨ksid, k, m, now⟩))

/-- The first id that appears a second time. -/
def firstRepeat : List KeyId → List KeyId → Option KeyId
  | [], _ => none
  | k :: rest, seen => if seen.contains k then some k else firstRepeat rest (k :: seen)

/-- Takes the rows of the keys in order; when one is missing, the rows taken are stored
again. -/
def takeRows (ksid : Ksid) : List KeyId → List KeyRow → EngineM (List KeyRow)
  | [], taken => pure taken
  | k :: rest, taken => do
    let row ← onFailure (do
      let some row ← records (Storage.takeKeyRow ksid k) | throw (.noKey ksid k)
      pure row) fun _ => restoreRows taken
    takeRows ksid rest (taken ++ [row])

/-- Replays rows in order, up to the first that fails: the keys replayed and the failure with
its position. -/
def replayRows : List KeyRow → Nat → List Material → EngineM (List Material × Option (Nat × Fault))
  | [], _, keys => pure (keys, none)
  | row :: rest, i, keys => do
    let r ← tryCatch (do pure (Except.ok (← records (Pool.read row.spans)))) fun e =>
      pure (Except.error e)
    match r with
    | .ok m => replayRows rest (i + 1) (keys ++ [m])
    | .error e => pure (keys, some (i, e))

/-- Takes clear keys in order; when one is missing, the keys taken are put back. -/
def takeLocals (ksid : Ksid) : List KeyId → List LocalKey → EngineM (List LocalKey)
  | [], taken => pure taken
  | k :: rest, taken => do
    let key ← onFailure (do
      let some key ← records (Storage.takeLocalKey ksid (some k)) | throw (.noKey ksid k)
      pure key) fun _ =>
        if taken.isEmpty then pure () else records (EStateM.attempt (Storage.storeLocalKeys taken))
    takeLocals ksid rest (taken ++ [key])

/-- Hands out keys of a session, all or none: replayed from rows, or taken from the clear. A
key that cannot be replayed because its bytes are gone is lost; the other rows are kept. -/
def retrieve (ksid : Ksid) (keys : List KeyId) (replay : Bool) : EngineM (List Material) := do
  if let some k := firstRepeat keys [] then throw (.invalid (.repeated k))
  if replay then
    let rows ← takeRows ksid keys []
    let (materials, failed) ← replayRows rows 0 []
    match failed with
    | some (i, e) =>
      let rows ← if e.fatal then do
          if let some lost := rows[i]? then
            records (EStateM.attempt (Pool.releaseRange lost.spans))
          pure (rows.eraseIdx i)
        else pure rows
      restoreRows rows
      throw e
    | none =>
      records (Pool.releaseRange (rows.flatMap (·.spans)))
      pure materials
  else
    pure ((← takeLocals ksid keys []).map (·.material))

/-- Forgets every key of a session and drops the references its rows held. -/
def purgeSession (ksid : Ksid) : EngineM Unit := do
  let _ ← records (Storage.purgeLocalKeys ksid)
  let rows ← records (Storage.takeSessionRows ksid)
  records (Pool.releaseRange (rows.flatMap (·.spans)))

/-- Rows and clear keys held for a session. -/
def sessionKeyCount (ksid : Ksid) : EngineM Nat := records (Storage.countSessionKeys ksid)

/-- Deletes the blocks that can go at the wall clock. -/
def sweep (pool : Pool) : EngineM Nat := do records (pool.sweep (← wallSecs))

/-- Bytes a link can hand out at the wall clock. -/
def available (pool : Pool) (link : LinkId) : EngineM Nat := do
  records (pool.available link (← wallSecs))

end Engine

end KeyRelay
