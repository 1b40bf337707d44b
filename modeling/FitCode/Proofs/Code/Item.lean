import FitCode.Lowering.Loop
import FitCode.Proofs.Decimal.Characters
import FitCode.Proofs.Text.Outline

/-! # Generated code as a tree

The code that the lowering of built-in nodes writes is made of assignments, updates of accumulators
and loops, over a few forms of operands. Here is that code as data, with the text it is written as
under the default names.
-/
namespace FitCode

open Text

/-- A name that the lowering introduces. -/
inductive Var where
  | temp (k : Nat)
  | array (k : Nat)
  | index (k : Nat)
  deriving Repr, DecidableEq

namespace Var

def stem : Var → String
  | temp _ => "t"
  | array _ => "arr"
  | index _ => "loop_idx"

def number : Var → Nat
  | temp k => k
  | array k => k
  | index k => k

def text (x : Var) : String := numbered x.stem x.number

/-- Whether the name is bound by an assignment. -/
def isAssigned : Var → Bool
  | index _ => false
  | _ => true

end Var

/-- What stands for a value in an expression. -/
inductive Operand where
  | var (x : Var)
  | parameter (i : Nat)
  | column (c : Nat)
  /-- The first entry of a column. -/
  | first (c : Nat)
  /-- The entry of a column at a loop's index. -/
  | entry (c k : Nat)
  | literal (x : Float)
  | whole (n : Int)

namespace Operand

def text : Operand → String
  | var x => x.text
  | parameter i => "params[" ++ toString i ++ "]"
  | column c => "obs[" ++ toString c ++ "]"
  | first c => "obs[" ++ toString c ++ "][0]"
  | entry c k => "obs[" ++ toString c ++ "][" ++ (Var.index k).text ++ "]"
  | literal x => Datum.floatCode x
  | whole n => toString n

def vars : Operand → List Var
  | var x => [x]
  | entry _ k => [.index k]
  | _ => []

end Operand

/-- A function that generated code calls. -/
inductive Routine where
  | gaussian
  | exponential
  | polynomial
  | mixture
  deriving Repr, DecidableEq

def Routine.name : Routine → String
  | gaussian => "gaussian"
  | exponential => "exponential"
  | polynomial => "polynomial"
  | mixture => "weighted_sum"

/-- What an assignment computes. -/
inductive Compound where
  | single (x : Operand)
  | sum (xs : List Operand)
  | product (xs : List Operand)
  /-- A template with operands in its holes. -/
  | filled (outline : Outline) (xs : List Operand)
  | call (routine : Routine) (xs : List Operand)
  | array (xs : List Operand)

namespace Compound

def text : Compound → String
  | single x => x.text
  | sum xs => String.intercalate " + " (xs.map Operand.text)
  | product xs => String.intercalate " * " (xs.map fun x => "(" ++ x.text ++ ")")
  | filled o xs => String.ofList (o.fill ((xs.map fun x => x.text.toList).map Outline.parens))
  | call f xs => f.name ++ "(" ++ String.intercalate ", " (xs.map Operand.text) ++ ")"
  | array xs =>
    if xs.isEmpty then "np.empty(0)"
    else "np.array([" ++ String.intercalate ", " (xs.map Operand.text) ++ "])"

/-- The operands that occur. -/
def operands : Compound → List Operand
  | single x => [x]
  | sum xs => xs
  | product xs => xs
  | filled o xs => o.holes.filterMap (xs[·]?)
  | call _ xs => xs
  | array xs => xs

def vars (e : Compound) : List Var := e.operands.flatMap Operand.vars

/-- The outlines in it are of one line, have no hole beyond their operands and mention no introduced
name. -/
def Proper : Compound → Prop
  | filled o xs =>
    .inl '\n' ∉ o ∧ (∀ i ∈ o.holes, i < xs.length) ∧ ∀ x : Var, x.text ∉ o.names
  | _ => True

end Compound

inductive Item where
  | assign (x : Var) (e : Compound)
  /-- Adds a value to an accumulator, or subtracts its logarithm. -/
  | update (x : Var) (log : Bool) (value : Operand)
  | loop (k length : Nat) (body : List Item)

namespace Item

def updateText (x : Var) (log : Bool) (value : Operand) : String :=
  if log then x.text ++ " -= np.log(" ++ value.text ++ ")" else x.text ++ " += " ++ value.text

def loopText (k length : Nat) : String :=
  "for " ++ (Var.index k).text ++ " in range(" ++ toString length ++ "):"

/-- A line without the blanks at its end. -/
def lineOf (depth : Nat) (text : String) : Line :=
  ⟨depth, String.ofList (trimEnd isBlank text.toList)⟩

mutual

def lines (depth : Nat) : Item → List Line
  | assign x e => [lineOf depth (x.text ++ " = " ++ e.text)]
  | update x log value => [lineOf depth (updateText x log value)]
  | loop k length body => lineOf depth (loopText k length) :: linesAll (depth + 1) body

def linesAll (depth : Nat) : List Item → List Line
  | [] => []
  | i :: is => lines depth i ++ linesAll depth is

end

end Item

end FitCode
