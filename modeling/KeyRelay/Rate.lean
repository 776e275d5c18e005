import KeyRelay.Fault
import KeyRelay.RateArith

/-!
Generation rates of links, in two layers. A node smooths the bit count of arriving blocks with
an exponentially weighted moving average (`RateEstimator`), the first sample seeding it, and
reports the result; the controller keeps the reports in a window bounded in time and in count
(`CapacityWindow`) and admits sessions against the window's least live sample, so a drop of
rate counts at once and is forgotten only as the low sample ages out.

Instants are milliseconds. An instant earlier than a stored sample stops the program, as a
negative duration does. A window reserves room for all of its samples when it is made, so a
window of more samples than the largest buffer can hold stops the program too.
-/
namespace KeyRelay

/-- The moving average of a link's rate, bits per interval. -/
structure RateEstimator where
  alpha : Float := 0.1
  intervalSecs : Float := 1.0
  rate : Option Float := none
deriving Inhabited

namespace RateEstimator

/-- An estimator with its weight and interval; the weight must lie in `[0, 1]` and the interval
be positive. -/
def withAlpha (alpha intervalSecs : Float) : Except Abort RateEstimator :=
  if !(0.0 ≤ alpha && alpha ≤ 1.0) then .error ⟨"assertion failed: (0.0..=1.0).contains(&alpha)"⟩
  else if !(intervalSecs > 0.0) then .error ⟨"assertion failed: interval_secs > 0.0"⟩
  else .ok { alpha, intervalSecs }

/-- An estimator that goes on from a reported rate. -/
def resume (rate : Float) : RateEstimator := { rate := some rate }

/-- Folds in a block of `bytes` and gives the new rate. -/
def observe (e : RateEstimator) (bytes : Nat) : RateEstimator × Float :=
  let bits := Binary.ofNat bytes * 8.0 / e.intervalSecs
  let next := match e.rate with
    | none => bits
    | some r => e.alpha * bits + (1.0 - e.alpha) * r
  ({ e with rate := some next }, next)

/-- The current rate, zero before the first sample. -/
def current (e : RateEstimator) : Float := e.rate.getD 0.0

end RateEstimator

/-- Rate samples of one link over a window of time. -/
structure CapacityWindow (R : Type) where
  /-- Milliseconds a sample stays live. -/
  span : Nat
  maxSamples : Nat
  /-- Samples, oldest first: instant and rate. -/
  samples : List (Nat × R) := []
deriving Inhabited

namespace CapacityWindow

variable {R : Type}

/-- The length in milliseconds as seconds. -/
def seconds (ms : Nat) : Float :=
  Binary.ofNat (ms / 1000) + Binary.ofNat (ms % 1000 * 1000000) / 1000000000.0

/-- Bytes a buffered sample takes: its instant (seconds and nanoseconds) and its rate. -/
def sampleBytes : Nat := 24

/-- The largest buffer, in bytes: below the top of a signed machine word, at the samples'
eight-byte alignment. -/
def largestBuffer : Nat := Nat.pow 2 63 - 8

/-- A window of at most `maxSamples` samples, one at least, with room reserved for all of
them. -/
def withCapacity (span maxSamples : Nat) : Except Abort (CapacityWindow R) :=
  let n := max maxSamples 1
  if n * sampleBytes > largestBuffer then .error Abort.capacityOverflow
  else .ok ⟨span, n, []⟩

/-- The number of samples a window keeps for one per `interval` of its span: the quotient of
the two lengths in seconds, rounded up, one at least, and the top of a machine word at most. -/
def slots (span interval : Nat) : Nat :=
  if interval = 0 then 1
  else
    let c := Float.ceil (seconds span / seconds interval)
    (if c.isNaN || c < 1.0 then 1.0 else c).toUInt64.toNat

/-- A window holding one sample per `interval` of its span. -/
def spanning (span interval : Nat) : Except Abort (CapacityWindow R) :=
  withCapacity span (slots span interval)

/-- `now - t`, which stops the program when `t` is later. -/
def elapsed (now t : Nat) : Except Abort Nat :=
  if t ≤ now then .ok (now - t) else .error Abort.negativeDuration

/-- Drops the samples at the front that have aged out at `now`. -/
def prune (now span : Nat) : List (Nat × R) → Except Abort (List (Nat × R))
  | [] => .ok []
  | (t, r) :: rest => do
    if (← elapsed now t) < span then pure ((t, r) :: rest) else prune now span rest

/-- Records a rate reported at `t`: aged-out samples go first, then the oldest one if the
window is full. -/
def record (w : CapacityWindow R) (t : Nat) (rate : R) : Except Abort (CapacityWindow R) := do
  let live ← prune t w.span w.samples
  let kept := if live.length = w.maxSamples then live.drop 1 else live
  pure { w with samples := kept ++ [(t, rate)] }

/-- An empty window with its first sample: nothing can age out of it yet, so this is what
`record` gives on an empty window. -/
def startAt (w : CapacityWindow R) (t : Nat) (rate : R) : CapacityWindow R :=
  { w with samples := [(t, rate)] }

/-- The least live sample at `now`, or zero when none is live. -/
def estimate [RateArith R] (w : CapacityWindow R) (now : Nat) : Except Abort R := do
  let live ← w.samples.filterM fun (t, _) => do pure ((← elapsed now t) < w.span)
  pure (match live with
    | [] => 0
    | (_, r) :: rest => rest.foldl (fun acc s => RateArith.least acc s.2) r)

/-- Samples held. -/
def size (w : CapacityWindow R) : Nat := w.samples.length

end CapacityWindow

end KeyRelay
