import FitCode.Numeric.Scalar

/-! # Exponentials and logarithms of numbers

Doubles are mapped by the functions of the machine. In single precision the exponential is a
quotient of polynomials after its argument has been reduced by a multiple of the logarithm of two;
every step rounds once.
-/
namespace FitCode.Numeric

def fused (a b c : Float) : Float := Decimal.toSingle (a * b + c)

/-- A polynomial in single precision by Horner's scheme, highest coefficient first. -/
def singlePoly (x : Float) : List Float → Float
  | [] => 0
  | c :: cs => cs.foldl (fun r c => fused r x (Decimal.toSingle c)) (Decimal.toSingle c)

/-- The quotient of polynomials that approximates the exponential near zero. -/
def expQuotient (x : Float) : Float :=
  let top := singlePoly x [5.082762527590693718096e-04, 6.757896990527504603057e-03,
    5.114512081637298353406e-02, 2.473615434895520810817e-01, 7.257664613233124478488e-01,
    9.999999999980870924916e-01]
  let bottom := singlePoly x [2.159509375685829852307e-02, -2.742335390411667452936e-01, 1]
  Decimal.toSingle (top / bottom)

def expSingle (x : Float) : Float :=
  if x.isNaN then x
  else if 88.72283935546875 ≤ x then Decimal.infinity
  else if x ≤ -103.97208404541015625 then 0
  else
    -- adding and taking away a large number leaves the nearest whole number
    let magic : Float := 12582912
    let scaled := Decimal.toSingle (x * Decimal.toSingle 1.442695040888963407)
    let k := Decimal.toSingle (Decimal.toSingle (scaled + magic) - magic)
    let r := fused k (Decimal.toSingle (-6.93145752e-1)) x
    let r := fused k (Decimal.toSingle (-1.42860677e-6)) r
    Decimal.toSingle (expQuotient r * Float.exp2 k)

namespace Scalar

/-- Maps a number to an element. Whole numbers beyond 64 bits are not numbers to it. -/
def mapDouble (f : Float → Float) : Scalar → Outcome Scalar
  | int n => if -0x8000000000000000 ≤ n && n < 0x10000000000000000 then do .ok (double (f (← ofInt n))) else .error .type
  | s => do .ok (double (f (← s.toFloat)))

/-- The exponential. That of a bit has eleven binary digits. -/
def exp : Scalar → Outcome Scalar
  | single x => .ok (single (expSingle x))
  | bit b => .ok (double (if b then 2.71875 else 1))
  | flag b => .ok (double (if b then 2.71875 else 1))
  | s => s.mapDouble Float.exp

def log (s : Scalar) : Outcome Scalar := s.mapDouble Float.log

end Scalar

end FitCode.Numeric
