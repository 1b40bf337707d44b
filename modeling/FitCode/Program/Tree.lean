import FitCode.Numeric.Value

/-! # Syntax trees of generated code -/
namespace FitCode.Program

open FitCode.Numeric

inductive Expr where
  | int (n : Int)
  | float (x : Float)
  | text (s : String)
  | flag (b : Bool)
  | null
  | name (s : String)
  | negate (e : Expr)
  | keep (e : Expr)
  | binary (op : Op) (a b : Expr)
  | call (f : Expr) (args : List Expr)
  | index (e i : Expr)
  | attribute (e : Expr) (name : String)
  | list (items : List Expr)

inductive Stmt where
  | assign (names : List String) (e : Expr)
  /-- Changes a variable by an operation. -/
  | update (name : String) (op : Op) (e : Expr)
  | forEach (name : String) (items : Expr) (body : List Stmt)
  | pass
  | expr (e : Expr)
  | result (e : Option Expr)

structure Function where
  name : String
  first : String
  second : String
  body : List Stmt

mutual

def Stmt.targets : Stmt → List String
  | .assign names _ => names
  | .update name _ _ => [name]
  | .forEach name _ body => name :: targetsOf body
  | _ => []

def targetsOf : List Stmt → List String
  | [] => []
  | s :: ss => s.targets ++ targetsOf ss

end

/-- The variables of a function: its arguments and everything its body sets. -/
def Function.locals (f : Function) : List String := f.first :: f.second :: targetsOf f.body

end FitCode.Program
