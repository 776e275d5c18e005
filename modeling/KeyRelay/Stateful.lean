/-!
Helpers for computations over a state that may fail: a failure keeps the state reached so far,
so a caller sees exactly what was done before the failure.
-/
namespace KeyRelay

/-- Runs a computation on a part of a larger state. -/
def EStateM.focus {ε σ τ α : Type} (get : σ → τ) (set : τ → σ → σ) (m : EStateM ε τ α) :
    EStateM ε σ α := fun s =>
  match m (get s) with
  | .ok a t => .ok a (set t s)
  | .error e t => .error e (set t s)

/-- Lifts a failing value. -/
def EStateM.ofExcept {ε σ α : Type} : Except ε α → EStateM ε σ α
  | .ok a => pure a
  | .error e => throw e

/-- Runs a computation from a state: its result or failure, and the state it left. -/
def EStateM.outcome {ε σ α : Type} (m : EStateM ε σ α) (s : σ) : Except ε α × σ :=
  match m s with
  | .ok a s => (.ok a, s)
  | .error e s => (.error e, s)

/-- Runs a computation whose failure is recast by `f`. -/
def EStateM.mapError {ε ε' σ α : Type} (f : ε → ε') (m : EStateM ε σ α) : EStateM ε' σ α :=
  fun s => match m s with
    | .ok a s => .ok a s
    | .error e s => .error (f e) s

/-- Runs a computation and ignores its failure; what it did before failing stays done. -/
def EStateM.attempt {ε σ : Type} (m : EStateM ε σ Unit) : EStateM ε σ Unit :=
  tryCatch m fun _ => pure ()

end KeyRelay
