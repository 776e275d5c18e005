import KeyRelay.Ident

/-!
The environment of the nodes: a monotonic clock in milliseconds, a wall clock in seconds, and a
source of identifiers. Identifiers come from a counter that advances by a fixed step, modulo
`2 ^ 128`, before every draw, so a scenario replays exactly; with the defaults the identifiers
drawn are 1, 2, 3, ... in draw order.
-/
namespace KeyRelay

/-- The shared clock and identifier counter. -/
structure Env where
  clockMs : Nat := 0
  /-- The wall clock at the start, seconds since the epoch. -/
  wall : Nat := 1000
  counter : Nat := 0
  step : Nat := 1
deriving Repr, Inhabited

namespace Env

/-- The largest 64-bit word. -/
def wordMax : Nat := Nat.pow 2 64 - 1

/-- The monotonic clock, milliseconds. -/
def now (e : Env) : Nat := e.clockMs

/-- Seconds since the epoch: the start plus whole seconds elapsed, held to a 64-bit word. -/
def wallSecs (e : Env) : Nat := min (e.wall + e.clockMs / 1000) wordMax

/-- Draws the next identifier. -/
def draw (e : Env) : Ident × Env :=
  let c := (e.counter + e.step) % Ident.space
  (⟨c⟩, { e with counter := c })

/-- Moves the clock forward. The clock is a 64-bit counter of milliseconds, so it wraps around
to zero past the largest word. -/
def advance (e : Env) (ms : Nat) : Env := { e with clockMs := (e.clockMs + ms) % Nat.pow 2 64 }

end Env

end KeyRelay
