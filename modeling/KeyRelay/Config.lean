import KeyRelay.Fault
import KeyRelay.RateArith

/-!
Configuration of nodes and of the controller: plain parameters fixed at construction.

A node's key sizes must be positive multiples of eight bits with
`minKeySize ≤ defaultKeySize ≤ maxKeySize`, and its block lifetime positive; the first
inconsistency found is reported. A request's key size defaults to `defaultKeySize` and must be
whole bytes within the bounds.
-/
namespace KeyRelay

/-- Parameters of a node. Durations are in milliseconds, sizes in bits. -/
structure KmeConfig where
  ttlMs : Nat := 15000
  minKeySize : Nat := 64
  maxKeySize : Nat := 1024
  defaultKeySize : Nat := 256
  /-- Extra keys generated per batch and kept for the next request. -/
  prefetchKeys : Nat := 0
  maxKeyCount : Nat := 100000
  maxKeysPerRequest : Nat := 128
  maxSaeIdCount : Nat := 0
deriving Repr, DecidableEq, Inhabited

namespace KmeConfig

/-- The block lifetime in whole seconds. -/
def ttlSecs (c : KmeConfig) : Nat := c.ttlMs / 1000

/-- The first inconsistency of a configuration. -/
def validate (c : KmeConfig) : Except ConfigError Unit := do
  if c.ttlMs = 0 then throw (.zeroDuration "ttl")
  for size in [c.minKeySize, c.defaultKeySize, c.maxKeySize] do
    if size % 8 ≠ 0 ∨ size = 0 then throw (.notByteAligned size)
  unless c.minKeySize ≤ c.defaultKeySize ∧ c.defaultKeySize ≤ c.maxKeySize do
    throw (.keySizeOrder c.minKeySize c.defaultKeySize c.maxKeySize)

/-- The key size of a request: the default when none is named. -/
def resolveKeySize (c : KmeConfig) (requested : Option Nat) : Except Fault Nat := do
  let size := requested.getD c.defaultKeySize
  if size % 8 ≠ 0 then throw (.invalid (.partialBytes size))
  if size < c.minKeySize ∨ size > c.maxKeySize then
    throw (.invalid (.sizeRange size c.minKeySize c.maxKeySize))
  pure size

end KmeConfig

/-- How the rate of prefetched keys is charged to the first edge of a relayed session. -/
inductive OverheadPolicy where
  /-- Each prefetched key costs a full key's rate. -/
  | additive
  /-- The prefetch batch is spread over the keys it serves. -/
  | amortized
deriving DecidableEq, Repr, Inhabited

/-- The extra rate for `prefetch` keys on top of `rate`; none without prefetching. -/
def OverheadPolicy.overhead {R : Type} [RateArith R] (p : OverheadPolicy) (rate : R) (prefetch : Nat) :
    R :=
  if prefetch = 0 then 0
  else match p with
    | .additive => rate * RateArith.ofNat prefetch
    | .amortized => rate / RateArith.ofNat prefetch

/-- Parameters of the controller. Durations are in milliseconds. -/
structure ControllerConfig where
  /-- Unmatched registrations older than this are dropped. -/
  pendingTtlMs : Nat := 15000
  /-- Span of each edge's capacity window. -/
  windowMs : Nat := 15000
  /-- Expected spacing of rate reports; it sizes the capacity window. -/
  sampleIntervalMs : Nat := 1000
  prefetchKeys : Nat := 0
  policy : OverheadPolicy := .additive
  /-- Node count at which the topology is complete. -/
  expectedNodes : Option Nat := none
  /-- Edge count at which the topology is complete. -/
  expectedLinks : Option Nat := none
deriving Repr, DecidableEq, Inhabited

/-- The first inconsistency of a controller configuration. -/
def ControllerConfig.validate (c : ControllerConfig) : Except ConfigError Unit := do
  if c.pendingTtlMs = 0 then throw (.zeroDuration "pending_ttl")
  if c.windowMs = 0 then throw (.zeroDuration "capacity_window")

end KeyRelay
