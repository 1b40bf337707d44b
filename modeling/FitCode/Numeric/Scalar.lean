import FitCode.Decimal.Binary

/-! # Numbers of running code

Plain numbers are whole numbers without bound, flags and doubles; they fail where arithmetic has no
finite answer. Elements of arrays have a fixed precision: doubles, singles, machine integers and
bits. They go on to infinities and not-a-number, and machine integers wrap around. In mixed
arithmetic a plain number takes the precision of the element it meets, as far as its type allows.
-/
namespace FitCode.Numeric

inductive RunError where
  | zeroDivision
  | overflow
  | type
  /-- No rule for operands of these types. -/
  | noRule
  | value
  | index
  | unknownName
  | unboundName
  | attribute
  | recursion
  deriving Repr, DecidableEq

abbrev Outcome := Except RunError

inductive Op where
  | add
  | sub
  | mul
  | div
  | pow
  deriving Repr, DecidableEq

inductive Scalar where
  | int (n : Int)
  | flag (b : Bool)
  | float (x : Float)
  | double (x : Float)
  /-- A single-precision element, held as the equal double. -/
  | single (x : Float)
  | word (n : Int)
  | bit (b : Bool)

inductive Domain where
  | whole
  | plain
  | double
  | single
  | word
  | bit
  deriving Repr, DecidableEq

def floatOp : Op → Float → Float → Float
  | .add => (· + ·)
  | .sub => (· - ·)
  | .mul => (· * ·)
  | .div => (· / ·)
  | .pow => Float.pow

def isFinite (x : Float) : Bool :=
  match Decimal.read x with
  | .finite .. => true
  | _ => false

def plainPow (x y : Float) : Outcome Float :=
  if x == 0 && y < 0 then .error .zeroDivision
  else
    let r := Float.pow x y
    if isFinite x && isFinite y then
      match Decimal.read r with
      | .infinite _ => .error .overflow
      | .nan => .error .type
      | .finite .. => .ok r
    else .ok r

def plainOp (op : Op) (x y : Float) : Outcome Float :=
  match op with
  | .div => if y == 0 then .error .zeroDivision else .ok (x / y)
  | .pow => plainPow x y
  | op => .ok (floatOp op x y)

def ofInt (n : Int) : Outcome Float := (Decimal.ofInt? n).elim (.error .overflow) .ok

def quotient (m n : Int) : Outcome Float :=
  if n = 0 then .error .zeroDivision
  else (Decimal.ofFraction? (decide (m < 0) != decide (n < 0)) m.natAbs n.natAbs).elim
    (.error .overflow) .ok

/-- A whole number as a machine integer, modulo `2 ^ 64`. -/
def wrap (n : Int) : Int := n.bmod 0x10000000000000000

/-- A power modulo `2 ^ 64` by squaring. The first argument bounds the number of binary digits of
the exponent. -/
def wrappedPow : (digits : Nat) → Int → Nat → Int
  | 0, _, _ => 1
  | digits + 1, m, k =>
    let rest := wrappedPow digits (wrap (m * m)) (k / 2)
    if k % 2 = 1 then wrap (m * rest) else rest

def boolInt (b : Bool) : Int := if b then 1 else 0

def boolFloat (b : Bool) : Float := if b then 1 else 0

namespace Scalar

def domain : Scalar → Domain
  | int _ => .whole
  | flag _ => .whole
  | float _ => .plain
  | double _ => .double
  | single _ => .single
  | word _ => .word
  | bit _ => .bit

def common : Scalar → Scalar → Domain
  | flag _, bit _ => .bit
  | bit _, flag _ => .bit
  | a, b =>
    match a.domain, b.domain with
    | .whole, .whole => .whole
    | .whole, .plain => .plain
    | .plain, .whole => .plain
    | .plain, .plain => .plain
    | .single, .word => .double
    | .word, .single => .double
    | .single, .double => .double
    | .double, .single => .double
    | .single, _ => .single
    | _, .single => .single
    | .double, _ => .double
    | _, .double => .double
    | .plain, _ => .double
    | _, .plain => .double
    | .bit, .bit => .bit
    | _, _ => .word

def toFloat : Scalar → Outcome Float
  | int n => ofInt n
  | flag b => .ok (boolFloat b)
  | float x => .ok x
  | double x => .ok x
  | single x => .ok x
  | word n => ofInt n
  | bit b => .ok (boolFloat b)

def toSingle (s : Scalar) : Outcome Float := Decimal.toSingle <$> s.toFloat

def toWhole : Scalar → Int
  | int n => n
  | flag b => boolInt b
  | word n => n
  | bit b => boolInt b
  | _ => 0

def toWord (s : Scalar) : Outcome Int :=
  if wrap s.toWhole = s.toWhole then .ok s.toWhole else .error .overflow

def wholeOp (op : Op) (m n : Int) : Outcome Scalar :=
  match op with
  | .add => .ok (int (m + n))
  | .sub => .ok (int (m - n))
  | .mul => .ok (int (m * n))
  | .div => float <$> quotient m n
  | .pow =>
    if 0 ≤ n then .ok (int (Int.pow m n.toNat))
    else do .ok (float (← plainPow (← ofInt m) (← ofInt n)))

/-- Arithmetic of machine integers. Quotients are doubles, and negative exponents are refused. -/
def wordOp (op : Op) (m n : Int) : Outcome Scalar :=
  match op with
  | .add => .ok (word (wrap (m + n)))
  | .sub => .ok (word (wrap (m - n)))
  | .mul => .ok (word (wrap (m * n)))
  | .div => do .ok (double ((← ofInt m) / (← ofInt n)))
  | .pow => if n < 0 then .error .value else .ok (word (wrappedPow 64 m n.toNat))

/-- Arithmetic of bits: sums are disjunctions and products conjunctions. -/
def bitOp (op : Op) (a b : Bool) : Outcome Scalar :=
  match op with
  | .add => .ok (bit (a || b))
  | .sub => .error .type
  | .mul => .ok (bit (a && b))
  | .div => .ok (double (boolFloat a / boolFloat b))
  | .pow => .ok (word (boolInt (a || !b)))

def binary (op : Op) (a b : Scalar) : Outcome Scalar := do
  match common a b with
  | .whole => wholeOp op a.toWhole b.toWhole
  | .plain =>
    let x ← a.toFloat
    .ok (float (← plainOp op x (← b.toFloat)))
  | .double =>
    let x ← a.toFloat
    .ok (double (floatOp op x (← b.toFloat)))
  | .single =>
    let x ← a.toSingle
    .ok (single (Decimal.toSingle (floatOp op x (← b.toSingle))))
  | .word =>
    let m ← a.toWord
    wordOp op m (← b.toWord)
  | .bit => bitOp op (a.toWhole != 0) (b.toWhole != 0)

def negate : Scalar → Outcome Scalar
  | int n => .ok (int (-n))
  | flag b => .ok (int (-boolInt b))
  | float x => .ok (float (-x))
  | double x => .ok (double (-x))
  | single x => .ok (single (-x))
  | word n => .ok (word (wrap (-n)))
  | bit _ => .error .type

def keep : Scalar → Outcome Scalar
  | flag b => .ok (int (boolInt b))
  | bit _ => .error .noRule
  | s => .ok s

def positive : Scalar → Bool
  | float x => decide (0 < x)
  | double x => decide (0 < x)
  | single x => decide (0 < x)
  | s => decide (0 < s.toWhole)

end Scalar

end FitCode.Numeric
