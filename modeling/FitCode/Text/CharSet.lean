/-! # Sets of characters given by the ends of their runs

A set is the strictly increasing list of code points at which membership changes. A character
belongs to it when an odd number of changes lie at or below it.
-/
namespace FitCode.Text

structure CharSet where
  bounds : List Nat
  deriving Repr, DecidableEq

def CharSet.contains (s : CharSet) (c : Char) : Bool :=
  s.bounds.countP (fun b => decide (b ≤ c.toNat)) % 2 == 1

end FitCode.Text
