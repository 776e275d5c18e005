import KeyRelay.Fault

/-!
Spans: half-open byte ranges `[start, stop)` of one block. A key's material is the
concatenation of the bytes of its spans in order. A span received from a peer is checked
(`validate`) before use: an empty or inverted range is a protocol violation.
-/
namespace KeyRelay

/-- The bytes `[start, stop)` of a block. -/
structure Span where
  block : BlockId
  start : Nat
  stop : Nat
deriving DecidableEq, Repr, Hashable, Inhabited

namespace Span

/-- Bytes covered; zero for an inverted range. -/
def len (s : Span) : Nat := s.stop - s.start

/-- The range covers nothing. -/
def isEmpty (s : Span) : Bool := s.len == 0

/-- Refuses an empty or inverted range. -/
def validate (s : Span) : Except Fault Unit :=
  if s.start ≥ s.stop then .error (.violation (.emptyRange s.block s.start s.stop))
  else .ok ()

/-- A span, if its range is not empty. -/
def make (block : BlockId) (start stop : Nat) : Except Fault Span := do
  let s : Span := ⟨block, start, stop⟩
  s.validate
  pure s

/-- The two spans share a byte of the same block. -/
def overlaps (a b : Span) : Bool :=
  a.block == b.block && a.start < b.stop && b.start < a.stop

/-- Machine words of lengths are 64 bits. -/
def wordLimit : Nat := Nat.pow 2 64

/-- The total length of a list of spans, which overflows past a 64-bit word. -/
def totalLen (spans : List Span) : Except Abort Nat :=
  spans.foldlM (fun acc s =>
    if acc + s.len ≥ wordLimit then .error Abort.addOverflow else .ok (acc + s.len)) 0

end Span

end KeyRelay
