import FitCode.Datum
import FitCode.Text.Identifier

/-! # Naming and layout options of generated code

Options are given as values of any type. Unknown options are refused first, then each value in the
order of the options, then stems that are not told apart.
-/
namespace FitCode

structure Machine where
  /-- Calls may nest this deep. -/
  calls : Nat := 988
  /-- The sizes of operands are inferred this many levels deep. -/
  levels : Nat := 331
  /-- Where the text is kept that a template takes as the argument at a position. -/
  address : Nat → List Char → Nat := fun _ _ => 0

structure Options where
  /-- The spaces of a block, as they were given: any number of one or more. -/
  indent : Datum := .int 4
  tempStem : String := "t"
  loopStem : String := "loop_idx"
  arrayStem : String := "arr"
  obsName : String := "obs"
  paramsName : String := "params"
  functionName : String := "squashed"
  hoist : Bool := true
  machine : Machine := {}

namespace Options

/-- The spaces of a block, if they are a whole number, which is what texts can be repeated by. -/
def indentSize? (o : Options) : Option Int :=
  match o.indent with
  | .int n => some n
  | .word n => some n
  | .flag b => some (Datum.flagInt b)
  | .wordFlag b => some (Datum.flagInt b)
  | _ => none

def indentSize (o : Options) : Int := o.indentSize?.getD 0

def padFault? (o : Options) : Option Fault :=
  match o.indentSize? with
  | some n => Fault.ofLength? n
  | none => some .wrongType

/-- The six names, with the words for them in messages, in the order in which they are checked. -/
def variableNames (o : Options) : List (String × String) :=
  [("tmp_prefix", o.tempStem), ("loop_prefix", o.loopStem), ("array_prefix", o.arrayStem),
   ("obs_name", o.obsName), ("params_name", o.paramsName), ("function_name", o.functionName)]

def fields (o : Options) : List (String × Datum) :=
  ("indent_size", o.indent) :: o.variableNames.map (fun (k, v) => (k, .text v)) ++
    [("hoist", .flag o.hoist)]

/-- The spaces of a block, which must not be less than one. Only numbers can be compared, and what is
not a number at all is not less than any. -/
def indentOf (d : Datum) : Except Fault Datum :=
  match d.number? with
  | some (.inl n) => if n < 1 then .error .indentTooSmall else .ok d
  | some (.inr x) => if x < 1 then .error .indentTooSmall else .ok d
  | none => .error .wrongType

def nameOf (field : String) : Datum → Except Fault String
  | .text s => if Text.isVariable s then .ok s else .error (.badVariable field s)
  | _ => .error .noAttribute

def stemsDiffer (o : Options) : Bool :=
  o.tempStem != o.loopStem && o.tempStem != o.arrayStem && o.loopStem != o.arrayStem

def ofFields (given : List (String × Datum)) (machine : Machine := {}) : Except Fault Options := do
  let defaults : List (String × Datum) := fields {}
  if given.any fun e => !defaults.any fun d => d.1 == e.1 then .error .wrongType
  let value := fun field => ((given ++ defaults).lookup field).getD .null
  let name := fun field => nameOf field (value field)
  let o : Options :=
    { indent := ← indentOf (value "indent_size")
      tempStem := ← name "tmp_prefix"
      loopStem := ← name "loop_prefix"
      arrayStem := ← name "array_prefix"
      obsName := ← name "obs_name"
      paramsName := ← name "params_name"
      functionName := ← name "function_name"
      hoist := (value "hoist").holds
      machine }
  if o.stemsDiffer then .ok o else .error .stemsClash

end Options

end FitCode
