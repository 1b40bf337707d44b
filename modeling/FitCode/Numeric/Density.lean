import FitCode.Numeric.Value

/-! # Densities and their combination

Polynomials and weighted sums only add, subtract, multiply and take powers. They are defined over
any arithmetic with effects, so that they can be read over a ring as well as run on values.
-/
namespace FitCode.Numeric

/-- Arithmetic on `α` with effects `m`, sequences `σ` of operands and exponents `ε`. -/
structure Arithmetic (m : Type → Type) (α σ ε : Type) where
  zero : α
  one : α
  add : α → α → m α
  mul : α → α → m α
  /-- Adds to a running total. -/
  addTo : α → α → m α
  /-- Subtracts from a running total. -/
  subFrom : α → α → m α
  pow : α → ε → m α
  /-- Whether an exponent is above zero. -/
  positive : ε → m Bool
  length : σ → m Nat
  item : σ → Nat → m α

variable {m : Type → Type} [Monad m] {α σ ε : Type}

def hornerStep (a : Arithmetic m α σ ε) (x : α) (coefficients : σ) (result : α) (k : Nat) :
    m α := do
  let scaled ← a.mul result x
  a.add scaled (← a.item coefficients k)

/-- The polynomial with the given coefficients from the power `lowerOrder` on. From the first power
on, a constant term one is added. -/
def polynomial (a : Arithmetic m α σ ε) (x : α) (coefficients : σ) (lowerOrder : ε) : m α := do
  let start ← a.mul a.zero x
  let n ← a.length coefficients
  let result ← (List.range n).reverse.foldlM (hornerStep a x coefficients) start
  if ← a.positive lowerOrder then
    let shifted ← a.mul result (← a.pow x lowerOrder)
    a.add shifted a.one
  else return result

/-- Adds the `i`-th weighted value to the total and takes its weight from the remainder. -/
def mixStep (a : Arithmetic m α σ ε) (values coefficients : σ) (state : α × α) (i : Nat) :
    m (α × α) := do
  let c ← a.item coefficients i
  let weighted ← a.mul c (← a.item values i)
  let total ← a.addTo state.1 weighted
  return (total, ← a.subFrom state.2 c)

/-- The sum of the values with their coefficients as weights. If there are fewer coefficients than
values, the next value has the remaining weight. -/
def weightedSum (a : Arithmetic m α σ ε) (values coefficients : σ) : m α := do
  let n ← a.length coefficients
  let (total, remainder) ← (List.range n).foldlM (mixStep a values coefficients) (a.zero, a.one)
  if n < (← a.length values) then
    a.addTo total (← a.mul remainder (← a.item values n))
  else return total

namespace Value

def arithmetic : Arithmetic Outcome Value Value Value where
  zero := float 0
  one := float 1
  add := binary .add
  mul := binary .mul
  addTo := inPlace .add
  subFrom := inPlace .sub
  pow := binary .pow
  positive := positive
  length := length
  item := fun v i => v.index (int i)

def sqrtTwoPi : Float := Float.sqrt (2.0 * 3.141592653589793)

def gaussian (x mean sigma : Value) : Outcome Value := do
  let arg ← binary .div (← binary .sub x mean) sigma
  let half ← binary .mul (float (-0.5)) arg
  let top ← exp (← binary .mul half arg)
  binary .div top (← binary .mul sigma (float sqrtTwoPi))

def exponential (x c : Value) : Outcome Value := do exp (← binary .mul c x)

def polynomial (x coefficients lowerOrder : Value) : Outcome Value :=
  Numeric.polynomial arithmetic x coefficients lowerOrder

def weightedSum (values coefficients : Value) : Outcome Value :=
  Numeric.weightedSum arithmetic values coefficients

end Value

end FitCode.Numeric
