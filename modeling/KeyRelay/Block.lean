import KeyRelay.Span

/-!
Blocks of shared random bytes, delivered on a link at both of its ends.

A block is consumed front to back: `offset` is the cursor, bytes before it belong to some key
and bytes after it are available. `inUse` counts the keys that still need to replay spans of
the block. A block is eligible for new keys while it has bytes left and has not expired, and
may be evicted once nothing refers to it and it is exhausted or expired.

`carve` takes the next bytes and a reference; `uncarve` reverts the last carve of a block;
`acknowledge` repeats here a carve made at the other end of the link.
-/
namespace KeyRelay

/-- A pool block. -/
structure Block where
  id : BlockId
  link : LinkId
  /-- Arrival time, seconds since the epoch. -/
  timestamp : Nat
  /-- Local arrival order; it breaks ties between equal timestamps. -/
  arrival : Nat
  bytes : List UInt8
  offset : Nat := 0
  inUse : Nat := 0
deriving DecidableEq, Repr, Inhabited

namespace Block

/-- Bytes not yet allocated. -/
def available (b : Block) : Nat := b.bytes.length - b.offset

/-- Older than `ttl` seconds at `now`. -/
def expired (b : Block) (now ttl : Nat) : Bool := now - b.timestamp ≥ ttl

/-- Open for new keys: bytes left and not expired. -/
def eligible (b : Block) (now ttl : Nat) : Bool := b.available > 0 && !b.expired now ttl

/-- Nothing refers to it and it is exhausted or expired. -/
def evictable (b : Block) (now ttl : Nat) : Bool :=
  b.inUse == 0 && (b.available == 0 || b.expired now ttl)

/-- Takes up to `max` bytes at the cursor and a reference; nothing when no byte is taken. -/
def carve (b : Block) (max : Nat) : Option (Block × Span) :=
  let take := min b.available max
  if take = 0 then none
  else some ({ b with offset := b.offset + take, inUse := b.inUse + 1 },
    ⟨b.id, b.offset, b.offset + take⟩)

/-- Reverts the carve that ends at the cursor, dropping its reference too when asked; refuses
any other span. -/
def uncarve (b : Block) (s : Span) (release : Bool) : Option Block :=
  if s.block ≠ b.id ∨ s.stop ≠ b.offset then none
  else some { b with offset := s.start, inUse := if release then b.inUse - 1 else b.inUse }

/-- Moves the cursor past a span carved at the other end of the link (never past the end of
the block) and takes a reference when this end will replay it. -/
def acknowledge (b : Block) (s : Span) (retain : Bool) : Block :=
  { b with offset := max b.offset (min s.stop b.bytes.length),
           inUse := if retain then b.inUse + 1 else b.inUse }

/-- Drops one reference. -/
def release (b : Block) : Block := { b with inUse := b.inUse - 1 }

/-- The bytes of a span, which must lie inside the block. -/
def slice (b : Block) (s : Span) : Except Fault (List UInt8) := do
  s.validate
  if s.stop ≤ b.bytes.length then pure ((b.bytes.drop s.start).take s.len)
  else throw (.violation (.outsideBlock b.id s.start s.stop b.bytes.length))

/-- The reference count is a 32-bit word. -/
def referenceLimit : Nat := Nat.pow 2 32 - 1

/-- `carve` with the reference count held to its word: a reference past the limit aborts. -/
def carveWord (b : Block) (max : Nat) : Except Abort (Option (Block × Span)) :=
  match b.carve max with
  | none => .ok none
  | some r => if b.inUse ≥ referenceLimit then .error Abort.addOverflow else .ok (some r)

/-- `acknowledge` with the reference count held to its word. -/
def acknowledgeWord (b : Block) (s : Span) (retain : Bool) : Except Abort Block :=
  if retain ∧ b.inUse ≥ referenceLimit then .error Abort.addOverflow
  else .ok (b.acknowledge s retain)

end Block

end KeyRelay
