/-!
Sets of code points as lists of inclusive ranges in ascending order, the form in which
Unicode's data files give character properties.
-/
namespace KeyRelay.Ranges

/-- Whether a code point lies in one of the ranges. -/
def contains (rs : List (Nat × Nat)) (n : Nat) : Bool :=
  rs.any fun (lo, hi) => lo ≤ n && n ≤ hi

end KeyRelay.Ranges
