import FitCode.Code.Line
import FitCode.Datum

/-! # Scripts

A command is one operation on the state of a lowering. Its operands are terms, evaluated when the
command runs, and its texts may quote the results of earlier commands as `@{k}`. Loops are referred
to by the order in which commands opened them.
-/
namespace FitCode

/-- An operand. A fresh identity takes the next free serial number. -/
inductive Term where
  | value (d : Datum)
  | object (serial : Nat)
  | identityOf (serial : Nat)
  | relabelled (serial : Nat) (label : String)
  | fresh (label : String)
  | list (items : List Term)
  | argument (kind : ArgumentKind) (value : Term)
  /-- An operand that cannot be made. -/
  | impossible (e : Fault)

inductive Command where
  | sizeAt (node : Term)
  | sizes
  | assignColumn (node column : Term)
  | columnOf (node : Term)
  | register (node : Term) (expr : String) (save : Bool)
  | isResolved (node : Term)
  | request (node : Term)
  | emit (node : Term)
  | temp
  | bindTemp (node : Term) (expr : String) (name : Option String)
  | openLoop (node : Term)
  | closeLoop (loop : Int)
  | leaveLoop (loop : Int)
  | queue (loop : Int) (lines : List Line)
  | innermost
  | arrayOf (collection : Term) (name : Option String)
  | toArgument (arg : Term)
  | argumentCode (arg : Term)
  | argumentsCode (args : List Term)
  | callCode (function : String) (args : List Term)
  | addPreamble (text : String)
  | write (text : String)
  | finish (expr : String)
  | snapshot

/-- A command of a script, whose failure the script may ignore. -/
structure Step where
  command : Command
  forgiving : Bool

end FitCode
