import FitCode.Decimal.Numeral
import FitCode.Decimal.Shortest
import FitCode.Fault
import FitCode.Identity

/-! # Values handed in by a caller

Sizes, columns, literals and call arguments come as values of any type and are converted where they
are used. A graph object is referred to by its serial number.
-/
namespace FitCode

inductive ArgumentKind where
  | float
  | int
  | text
  | node
  | collection
  deriving Repr, DecidableEq

def ArgumentKind.className : ArgumentKind → String
  | float => "FloatLiteral"
  | int => "IntLiteral"
  | text => "StringLiteral"
  | node => "NodeReference"
  | collection => "CollectionReference"

inductive Datum where
  | int (n : Int)
  | text (s : String)
  | flag (b : Bool)
  | null
  | list (items : List Datum)
  | float (x : Float)
  /-- A single-precision number, held as the equal double. -/
  | single (x : Float)
  /-- A double that is an array element. -/
  | double (x : Float)
  /-- A machine integer. -/
  | word (n : Int)
  /-- A flag that is an array element. -/
  | wordFlag (b : Bool)
  /-- A node or a collection. -/
  | object (serial : Nat)
  | identity (id : Identity)
  | argument (kind : ArgumentKind) (value : Datum)
  deriving Inhabited

namespace Datum

def text? : Datum → Option String
  | text s => some s
  | _ => none

def truncate (x : Float) : Except ConversionError Int :=
  match Decimal.read x with
  | .nan => .error .malformed
  | .infinite _ => .error .overflow
  | .finite negative m q =>
    let (n, d) := Decimal.scaleTwo m 1 q
    .ok (if negative then -((n / d : Nat) : Int) else (n / d : Nat))

def flagInt (b : Bool) : Int := if b then 1 else 0

def toInt : Datum → Except ConversionError Int
  | int n => .ok n
  | word n => .ok n
  | flag b => .ok (flagInt b)
  | wordFlag b => .ok (flagInt b)
  | float x => truncate x
  | single x => truncate x
  | double x => truncate x
  | text s => (Decimal.readInt? s).elim (.error .malformed) .ok
  | _ => .error .wrongType

def toFloat : Datum → Except ConversionError Float
  | int n => (Decimal.ofInt? n).elim (.error .overflow) .ok
  | word n => (Decimal.ofInt? n).elim (.error .overflow) .ok
  | flag b => .ok (if b then 1 else 0)
  | wordFlag b => .ok (if b then 1 else 0)
  | float x => .ok x
  | single x => .ok x
  | double x => .ok x
  | text s => (Decimal.readFloat? s).elim (.error .malformed) .ok
  | _ => .error .wrongType

def isWhole (x : Float) (n : Int) : Bool :=
  match Decimal.read x with
  | .finite negative m q =>
    let (a, d) := Decimal.scaleTwo m 1 q
    a == n.natAbs * d && (n == 0 || negative == decide (n < 0))
  | _ => false

def isWord (n : Int) : Bool := decide (-0x8000000000000000 ≤ n ∧ n < 0x8000000000000000)

/-- Whether a value equals the whole number `n`. Array elements are compared in their own
precision, to which `n` has to convert. -/
def equalsInt (n : Int) : Datum → Except ConversionError Bool
  | int m => .ok (m == n)
  | word m => .ok (m == n)
  | flag b => .ok (flagInt b == n)
  | wordFlag b => if isWord n then .ok (flagInt b == n) else .error .overflow
  | float x => .ok (isWhole x n)
  | double x => (Decimal.ofInt? n).elim (.error .overflow) fun y => .ok (y == x)
  | single x => (Decimal.ofInt? n).elim (.error .overflow) fun y => .ok (Decimal.toSingle y == x)
  | _ => .ok false

def number? : Datum → Option (Int ⊕ Float)
  | int n => some (.inl n)
  | word n => some (.inl n)
  | flag b => some (.inl (flagInt b))
  | wordFlag b => some (.inl (flagInt b))
  | float x => some (.inr x)
  | single x => some (.inr x)
  | double x => some (.inr x)
  | _ => none

def sameNumber : Int ⊕ Float → Int ⊕ Float → Bool
  | .inl m, .inl n => m == n
  | .inl m, .inr y => isWhole y m
  | .inr x, .inl n => isWhole x n
  | .inr x, .inr y => x == y

/-- Whether a value counts as true: a number other than zero, a text or list that is not empty, any
object. -/
def holds (d : Datum) : Bool :=
  match d.number? with
  | some n => !sameNumber n (.inl 0)
  | none =>
    match d with
    | text s => s != ""
    | list ds => !ds.isEmpty
    | null => false
    | _ => true

/-- A number as code text. Infinite values and not-a-number have names. -/
def floatCode (x : Float) : String :=
  match Decimal.read x with
  | .nan => "np.nan"
  | .infinite negative => if negative then "-np.inf" else "np.inf"
  | .finite .. => Decimal.shortText x

def toFloatCode (d : Datum) : Except ConversionError String := floatCode <$> d.toFloat

end Datum

end FitCode
