import FitCode.Text.Quoted
import FitCode.Text.Template

/-! # What can go wrong

Every failure is a cause. Failures of lowering carry a `Report`: a category, a message and the
label of the node concerned. The wording of all of them is here.
-/
namespace FitCode

inductive Category where
  | general
  | unresolved
  | cycle
  | scopeOrder
  | duplicateResult
  | duplicateDeclaration
  | codeGeneration
  deriving Repr, DecidableEq

namespace Category

/-- The category and those it is a case of, nearest first. -/
def lineage (c : Category) : List Category :=
  match c with
  | .general => [.general]
  | .cycle => [.cycle, .unresolved, .general]
  | c => [c, .general]

end Category

structure Report where
  category : Category
  message : String
  node : Option String
  /-- The labels along a cycle, outermost first. -/
  cycle : List String
  deriving Repr, DecidableEq

/-- The message with the node's label in front and the cycle behind, where there are any. -/
def Report.text (r : Report) : String :=
  let base := match r.node with
    | some n => if n == "" then r.message else "[" ++ n ++ "] " ++ r.message
    | none => r.message
  if r.category == .cycle && !r.cycle.isEmpty then
    base ++ "\n  Cycle: " ++ String.intercalate " -> " r.cycle
  else base

inductive ConversionError where
  | malformed
  | overflow
  | wrongType
  deriving Repr, DecidableEq

inductive Fault where
  /-- Nothing can produce the node's result. -/
  | notLowerable (node : String)
  /-- The node was lowered and registered no result. -/
  | noRegistration (node : String)
  | freeParameter (node : String)
  | unboundObservable (node : String)
  | cyclic (node : String) (labels : List String)
  | loopClosed (index : String)
  | loopOutOfOrder (index : String) (innermost : Option String)
  | loopStillOpen (index : String)
  | resultTaken (text node : String)
  | columnTaken (column : Int) (node : String)
  | nameTaken (name node : String)
  | nothingToLoop (node : String)
  | sizesDiffer (sizes : List Nat) (node : String)
  | flagArgument (text : String)
  | unsupportedArgument (type : String)
  | unknownArgument (type : String)
  | finishedTwice
  | indentTooSmall
  | badVariable (field text : String)
  | stemsClash
  | sizeTooSmall (key : String) (size : Int)
  | coefficientCount (name : String) (densities coefficients : Nat)
  | noIdentity (type : String)
  | positionOutside (position : Int) (lines : Nat)
  | conversion (e : ConversionError)
  | template (e : Text.TemplateError)
  /-- An object was asked for something it does not have. -/
  | noAttribute
  /-- A value of the wrong type was used. -/
  | wrongType
  | missingKey
  | indexOutside
  /-- A text has more characters than can be held. -/
  | tooLong
  /-- Lowering nests without end. -/
  | tooDeep
  deriving Repr, DecidableEq

namespace Fault

/-- What is wrong with making a text of so many characters. A negative number of them is none. -/
def ofLength? (n : Int) : Option Fault :=
  if n < -0x8000000000000000 || 0x8000000000000000 ≤ n then some (.conversion .overflow)
  else if Text.Template.maxWidth ≤ n then some .tooLong
  else none

def sizesText (sizes : List Nat) : String :=
  "[" ++ String.intercalate ", " (sizes.map toString) ++ "]"

def report? : Fault → Option Report
  | notLowerable n =>
    some ⟨.unresolved, "no result registered and no emission hook to produce one", some n, []⟩
  | noRegistration n => some ⟨.unresolved, "emission hook did not register a result", some n, []⟩
  | freeParameter n =>
    some ⟨.unresolved, "free parameter is not bound to an input slot", some n, []⟩
  | unboundObservable n =>
    some ⟨.unresolved, "observable is not bound to a data column", some n, []⟩
  | cyclic n labels => some ⟨.cycle, "node depends on its own result", some n, labels⟩
  | loopClosed i => some ⟨.scopeOrder, "loop " ++ i ++ " is already closed", none, []⟩
  | loopOutOfOrder i inner =>
    some ⟨.scopeOrder, "loop " ++ i ++ " closed while " ++ inner.getD "None" ++ " is still open",
      none, []⟩
  | loopStillOpen i => some ⟨.scopeOrder, "cannot assemble with open loop " ++ i, none, []⟩
  | resultTaken t n =>
    some ⟨.duplicateResult, "result already registered as " ++ Text.quoted t, some n, []⟩
  | columnTaken c n =>
    some ⟨.duplicateResult, "vector observable already registered at column " ++ toString c,
      some n, []⟩
  | nameTaken v n =>
    some ⟨.duplicateDeclaration, "variable " ++ Text.quoted v ++ " is already declared", some n,
      []⟩
  | nothingToLoop n =>
    some ⟨.codeGeneration, "cannot loop: node depends on no vector observable", some n, []⟩
  | sizesDiffer sizes n =>
    some ⟨.codeGeneration,
      "cannot loop over observables of different sizes " ++ sizesText sizes, some n, []⟩
  | flagArgument t =>
    some ⟨.codeGeneration, "cannot pass boolean " ++ t ++ " as a call argument", none, []⟩
  | unsupportedArgument t =>
    some ⟨.codeGeneration, "unsupported call argument of type " ++ t, none, []⟩
  | unknownArgument t => some ⟨.codeGeneration, "unknown argument kind " ++ t, none, []⟩
  | finishedTwice => some ⟨.codeGeneration, "context was already assembled", none, []⟩
  | _ => none

def message? : Fault → Option String
  | indentTooSmall => some "indent_size must be positive"
  | badVariable field t =>
    some (field ++ " must be a valid Python identifier, got " ++ Text.quoted t)
  | stemsClash => some "tmp_prefix, loop_prefix and array_prefix must differ"
  | sizeTooSmall key size =>
    some ("output size of " ++ key ++ " must be >= 1, got " ++ toString size)
  | coefficientCount name n m =>
    some (name ++ ": need " ++ toString n ++ " or " ++ toString ((n : Int) - 1) ++
      " coefficients, got " ++ toString m)
  | noIdentity t => some (t ++ " has no NodeId identity")
  | positionOutside i n =>
    some ("bookmark " ++ toString i ++ " outside buffer of " ++ toString n ++ " lines")
  | f => f.report?.map Report.text

end Fault

end FitCode
