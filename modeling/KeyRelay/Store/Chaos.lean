import KeyRelay.Store.Error
import KeyRelay.Decimal.Text

/-!
Fault injection for a store. Every store operation is counted; the operation whose number was
scheduled fails, and otherwise each operation (or each write only) fails with a fixed
probability, drawn from a linear congruential generator modulo `2 ^ 32` (multiplier 1664525,
increment 1013904223) so that a seed replays the same failures.

A draw is the generator's state over `2 ^ 32`, which binary64 holds exactly, so comparing it with
the probability is a comparison of exact values; the probability is kept as its binary64 pattern
and the comparison is made on the value the pattern stands for.
-/
namespace KeyRelay

/-- The state of fault injection. -/
structure Chaos where
  /-- Probability of failure, in `[0, 1]`, as its binary64 pattern. -/
  rate : UInt64
  writesOnly : Bool := false
  /-- The generator's state. -/
  seed : Nat
  operations : Nat := 0
  failures : Nat := 0
  /-- The number of the operation scheduled to fail. -/
  failOn : Option Nat := none
deriving Inhabited

namespace Chaos

/-- The seed used when none is given. -/
def defaultSeed : Nat := 0x123456789ABCDEF0

/-- The generator's next state. -/
def nextSeed (s : Nat) : Nat := (1664525 * s + 1013904223) % Nat.pow 2 32

/-- Whether the draw `seed / 2 ^ 32` falls below the probability of pattern `rate`: never for a
negative or NaN probability, always for an infinite one. -/
def below (seed : Nat) (rate : UInt64) : Bool :=
  if Binary.double.negative rate.toNat then false
  else match Binary.double.magnitude rate.toNat with
    | .infinite => true
    | .nan _ => false
    | .finite m e =>
      -- `seed * 2 ^ -32 < m * 2 ^ e`, with both sides scaled to whole numbers
      if 0 ≤ e + 32 then decide (seed < m * Nat.pow 2 (e + 32).toNat)
      else decide (seed * Nat.pow 2 (-(e + 32)).toNat < m)

/-- A fault injector; a rate outside `[0, 1]` stops the program. -/
def make (rate : Float) (seed : Nat) (writesOnly : Bool) : Except Abort Chaos :=
  if 0.0 ≤ rate && rate ≤ 1.0 then .ok { rate := rate.toBits, seed, writesOnly }
  else .error ⟨"failure_rate must be between 0.0 and 1.0, got " ++ Decimal.positional rate.toBits⟩

/-- Counts an operation and decides whether it fails. -/
def check (c : Chaos) (operation : String) (write : Bool) : Chaos × Option StoreError :=
  let c := { c with operations := c.operations + 1 }
  if c.failOn = some c.operations then
    ({ c with failures := c.failures + 1 },
      some (.io ("scheduled failure injection (" ++ operation ++ ")")))
  else if c.writesOnly && !write then (c, none)
  else
    let seed := nextSeed c.seed
    let c := { c with seed }
    if below seed c.rate then
      ({ c with failures := c.failures + 1 },
        some (.io ("chaotic failure injection (" ++ operation ++ ")")))
    else (c, none)

end Chaos

end KeyRelay
