import KeyRelay.Store.Storage
import KeyRelay.Material

/-!
The pool of key bytes a link has delivered. Bytes are handed out front to back from the oldest
block that is still fresh; each hand-out is a span of one block and takes a reference on it, so
that the block outlives every key that still needs its bytes. A block is dropped once it is
consumed or stale and no reference remains.

Every operation works on the node's records (`StoreM`); the pool itself only remembers its
freshness limit and the arrival number the next block will get.
-/
namespace KeyRelay

/-- A link pool's own parameters. -/
structure Pool where
  /-- Seconds a block stays fresh, at least one. -/
  ttlSecs : Nat
  /-- The arrival number of the next block. -/
  nextArrival : Nat
deriving Repr, Inhabited

namespace Pool

/-- The pool over the records, numbering new blocks after every stored one. -/
def load (ttlMs : Nat) : StoreM Pool := do
  let blocks ← Storage.listBlocks
  pure ⟨max (ttlMs / 1000) 1, (blocks.map (·.arrival + 1)).foldl max 0⟩

/-- Adds a delivered block; a block whose id is known is ignored. -/
def ingest (p : Pool) (link : LinkId) (id : BlockId) (bytes : List UInt8) (timestamp : Nat) :
    StoreM (Bool × Pool) := do
  let inserted ← Storage.insertBlock ⟨id, link, timestamp, p.nextArrival, bytes, 0, 0⟩
  pure (inserted, if inserted then { p with nextArrival := p.nextArrival + 1 } else p)

/-- The blocks of a link that can still hand out bytes, oldest first. -/
def eligible (p : Pool) (link : LinkId) (now : Nat) : StoreM (List Block) := do
  pure ((← Storage.blocksForLink link).filter (·.eligible now p.ttlSecs))

/-- The bytes the blocks can hand out together. -/
def total (blocks : List Block) : Nat := blocks.foldl (fun n b => n + b.available) 0

/-- Bytes a link can hand out. -/
def available (p : Pool) (link : LinkId) (now : Nat) : StoreM Nat := do
  pure (total (← p.eligible link now))

/-- Gives back spans, newest first: the cursor moves back over a span that ends it, and with
`release` the span's reference is dropped as well. A block that is gone is passed over. -/
def undo (spans : List Span) (release : Bool) : StoreM Unit :=
  spans.reverse.forM fun s => do
    match ← Storage.loadBlock s.block with
    | none => pure ()
    | some b =>
      let b := match b.uncarve s release with
        | some b => b
        | none => if release then b.release else b
      Storage.updateBlock b

/-- Gives back spans and ignores a failure to do so. -/
def rollback (spans : List Span) (release : Bool) : StoreM Unit :=
  EStateM.attempt (undo spans release)

/-- Cuts `remaining` bytes from the blocks in turn, storing each cut block; on a failure to
store, what was cut so far is given back. -/
def carveAll : List Block → Nat → List Span → StoreM (List Span)
  | [], _, carved => pure carved
  | b :: rest, remaining, carved =>
    if remaining = 0 then pure carved
    else match b.carve remaining with
      | none => carveAll rest remaining carved
      | some (b, s) => do
        tryCatch (Storage.updateBlock b) fun e => do
          rollback carved true
          throw e
        carveAll rest (remaining - s.len) (carved ++ [s])

/-- Hands out `n` bytes of a link, oldest first, or nothing when the link has fewer. -/
def reserve (p : Pool) (link : LinkId) (n now : Nat) : StoreM (List Span) := do
  if n = 0 then throw (.invalid .zeroLength)
  let blocks ← p.eligible link now
  let supply := total blocks
  if supply < n then throw (.shortage link n supply)
  carveAll blocks n []

/-- Loads each distinct block of the spans, failing on the first that is gone. -/
def loadAll : List Span → Table BlockId Block → StoreM (Table BlockId Block)
  | [], cache => pure cache
  | s :: rest, cache =>
    if cache.contains s.block then loadAll rest cache
    else do
      match ← Storage.loadBlock s.block with
      | none => throw (.evicted s.block)
      | some b => loadAll rest (cache.insert b.id b)

/-- The bytes under the spans, in order. -/
def read (spans : List Span) : StoreM Material := do
  let cache ← loadAll spans {}
  let parts ← spans.mapM fun s =>
    match cache.get? s.block with
    | none => throw (.evicted s.block)
    | some b => EStateM.ofExcept (b.slice s)
  pure (Material.concat parts)

/-- Drops the reference of each span; a block that is gone is passed over. -/
def releaseRange (spans : List Span) : StoreM Unit :=
  spans.forM fun s => do
    match ← Storage.loadBlock s.block with
    | none => pure ()
    | some b => Storage.updateBlock b.release

/-- Loads the blocks a companion's consumption names, each once, checking each is the link's;
a block that is gone matters only when a span on it is to be kept. -/
def touched (link : LinkId) (retained : List Span) :
    List Span → Table BlockId Block → StoreM (Table BlockId Block)
  | [], t => pure t
  | s :: rest, t => do
    EStateM.ofExcept s.validate
    if t.contains s.block then touched link retained rest t
    else
      match ← Storage.loadBlock s.block with
      | some b =>
        if b.link ≠ link then throw (.violation (.foreignBlock b.id b.link link))
        else touched link retained rest (t.insert b.id b)
      | none =>
        if retained.contains s then throw (.evicted s.block)
        else touched link retained rest t

/-- Follows what the companion consumed: each cursor moves past the consumed spans, and the
spans in `retained` take a reference, since keys still need their bytes. -/
def acknowledge (link : LinkId) (consumed retained : List Span) : StoreM Unit := do
  let t ← touched link retained consumed {}
  let t := consumed.foldl (fun t s => t.modify s.block (·.acknowledge s (retained.contains s))) t
  (sortedBy (·.id.val) t.values).forM Storage.updateBlock

/-- Deletes the blocks that can go; gives how many went. -/
def sweep (p : Pool) (now : Nat) : StoreM Nat := do
  let blocks ← Storage.listBlocks
  blocks.foldlM (fun n b => do
    if b.evictable now p.ttlSecs then
      Storage.deleteBlock b.id
      pure (n + 1)
    else pure n) 0

end Pool

end KeyRelay
