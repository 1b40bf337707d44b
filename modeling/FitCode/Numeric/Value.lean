import FitCode.Decimal.Numeral
import FitCode.Numeric.Exponential
import FitCode.Numeric.Tensor

/-! # Values of running code

Numbers, arrays and the few other things that generated code handles. The entries of an array are
doubles, and so is every number that meets an array.
-/
namespace FitCode.Numeric

inductive Builtin where
  | range
  | exp
  | log
  | sum
  | array
  | empty
  | gaussian
  | exponential
  | polynomial
  | weightedSum
  deriving Repr, DecidableEq

inductive Value where
  | scalar (s : Scalar)
  | array (t : Tensor)
  | list (items : List Value)
  | range (n : Int)
  | text (s : String)
  | null
  | builtin (b : Builtin)
  /-- The numeric module. -/
  | numeric
  /-- The function that is running. -/
  | self

namespace Value

def int (n : Int) : Value := scalar (.int n)

def float (x : Float) : Value := scalar (.float x)

def element (x : Float) : Value := scalar (.double x)

def ofTensor (t : Tensor) : Value :=
  match t.shape with
  | [] => element (t.get [])
  | _ => array t

def tensorOp (op : Op) (a b : Tensor) : Outcome Value :=
  (a.zipWith? (floatOp op) b).elim (.error .value) fun t => .ok (ofTensor t)

/-- Arithmetic of a number and a text. A text can be repeated, and plain numbers have no rule for
anything else; nor have elements, for products. -/
def withText (op : Op) : Scalar → String → Outcome Value
  | s, t =>
    match op, s.domain with
    | .mul, .whole => .ok (text (String.join (List.replicate s.toWhole.toNat t)))
    | .mul, .word => .ok (text (String.join (List.replicate s.toWhole.toNat t)))
    | .mul, _ => .error .type
    | _, .whole => .error .type
    | _, .plain => .error .type
    | _, _ => .error .noRule

def binary (op : Op) : Value → Value → Outcome Value
  | scalar a, scalar b => scalar <$> Scalar.binary op a b
  | array a, array b => tensorOp op a b
  | array a, scalar b => do tensorOp op a (.scalar (← b.toFloat))
  | scalar a, array b => do tensorOp op (.scalar (← a.toFloat)) b
  | scalar a, text t => withText op a t
  | text t, scalar b => withText op b t
  | array _, text _ => .error .noRule
  | text _, array _ => .error .noRule
  | text s, text t => if op = .add then .ok (text (s ++ t)) else .error .type
  | _, _ => .error .type

/-- Arithmetic that changes its left operand. An array keeps its shape. -/
def inPlace (op : Op) (a b : Value) : Outcome Value := do
  let r ← binary op a b
  match a, r with
  | array t, array u => if u.shape = t.shape then .ok r else .error .value
  | _, _ => .ok r

def negate : Value → Outcome Value
  | scalar s => scalar <$> s.negate
  | array t => .ok (ofTensor (t.map fun x => -x))
  | _ => .error .type

def keep : Value → Outcome Value
  | scalar s => scalar <$> s.keep
  | array t => .ok (array t)
  | _ => .error .type

def tensor? : Value → Option (Outcome Tensor)
  | scalar s => some (Tensor.scalar <$> s.toFloat)
  | array t => some (.ok t)
  | _ => none

def shape? : Value → Option (List Nat)
  | scalar _ => some []
  | array t => some t.shape
  | _ => none

/-- An array from the values of a list. Values of different shapes do not fit together, whatever
they are. -/
def ofItems (items : List Value) : Outcome Value := do
  match items.mapM shape?, items.mapM tensor? with
  | some shapes, some ts =>
    if !shapes.all fun s => some s == shapes.head? then .error .value
    (Tensor.stack? (← ts.mapM id)).elim (.error .value) fun t => .ok (array t)
  | _, _ => .error .type

/-- Applies a function to a number, to every entry of an array or to the items of a list. -/
def apply (onScalar : Scalar → Outcome Scalar) (onEntry : Float → Float) : Value → Outcome Value
  | scalar s => scalar <$> onScalar s
  | array t => .ok (ofTensor (t.map onEntry))
  | list vs => do
    match ← ofItems vs with
    | array t => .ok (array (t.map onEntry))
    | v => .ok v
  | text _ => .error .noRule
  | _ => .error .type

def exp : Value → Outcome Value := apply Scalar.exp Float.exp

def log : Value → Outcome Value := apply Scalar.log Float.log

/-- The sum of the entries of an array, or of the items of a list. -/
def sum : Value → Outcome Value
  | array t => .ok (element (total t.data))
  | list vs => do
    match ← ofItems vs with
    | array t => .ok (element (total t.data))
    | v => .ok v
  | v => do
    match ← binary .add (float 0) v with
    | scalar s => .ok (scalar (← s.mapDouble id))
    | v => .ok v

def position? (length : Nat) (i : Int) : Option Nat :=
  let k := if 0 ≤ i then i else length + i
  if 0 ≤ k && k < length then some k.toNat else none

/-- The item of a list, text or array at a position; negative positions count from the end. -/
def index : Value → Value → Outcome Value
  | list vs, scalar (.int i) =>
    match (position? vs.length i).bind (vs[·]?) with
    | some v => .ok v
    | none => .error .index
  | text s, scalar (.int i) =>
    match (position? s.length i).bind (s.toList[·]?) with
    | some c => .ok (text (String.ofList [c]))
    | none => .error .index
  | array t, scalar (.int i) =>
    match (position? (t.shape.headD 0) i).bind t.row? with
    | some r => .ok (ofTensor r)
    | none => .error .index
  | array _, _ => .error .index
  | scalar s, _ =>
    match s.domain with
    | .whole => .error .type
    | .plain => .error .type
    | _ => .error .index
  | _, _ => .error .type

def length : Value → Outcome Nat
  | list vs => .ok vs.length
  | text s => .ok s.length
  | array t =>
    match t.shape with
    | [] => .error .type
    | d :: _ => .ok d
  | range n => .ok n.toNat
  | _ => .error .type

def positive : Value → Outcome Bool
  | scalar s => .ok s.positive
  | array t =>
    match t.data with
    | [] => .ok false
    | [x] => .ok (decide (0 < x))
    | _ => .error .value
  | _ => .error .type

def items : Value → Outcome (List Value)
  | list vs => .ok vs
  | text s => .ok (s.toList.map fun c => text (String.ofList [c]))
  | array t => .ok ((List.range (t.shape.headD 0)).filterMap fun i => (t.row? i).map ofTensor)
  | _ => .error .type

/-- What is reported of a result: arrays as they are, and of anything else the number it counts as.
A text counts as the number it spells. -/
def reported : Value → Outcome Value
  | array t => .ok (array t)
  | scalar s => float <$> s.toFloat
  | text s => (Decimal.readFloat? s).elim (.error .value) fun x => .ok (float x)
  | _ => .error .type

end Value

end FitCode.Numeric
