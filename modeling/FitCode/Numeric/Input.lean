import FitCode.Datum
import FitCode.Numeric.Value

/-! # Arguments of running code from given values

Lists become arrays. Their shape is settled before their entries are converted.
-/
namespace FitCode.Numeric

def entry : Datum → Outcome Float
  | .null => .ok Decimal.nanValue
  | d =>
    match d.toFloat with
    | .ok x => .ok x
    | .error .malformed => .error .value
    | .error .overflow => .error .overflow
    | .error .wrongType => .error .type

mutual

def shapeOf : Datum → Option (List Nat)
  | .list ds => do
    let shapes ← shapesOf ds
    match shapes with
    | [] => some [0]
    | s :: ss => if ss.all (· == s) then some ((ss.length + 1) :: s) else none
  | _ => some []

def shapesOf : List Datum → Option (List (List Nat))
  | [] => some []
  | d :: ds => do
    let s ← shapeOf d
    return s :: (← shapesOf ds)

end

mutual

def entriesOf : Datum → Outcome (List Float)
  | .list ds => entriesOfAll ds
  | d => do .ok [← entry d]

def entriesOfAll : List Datum → Outcome (List Float)
  | [] => .ok []
  | d :: ds => do
    let xs ← entriesOf d
    .ok (xs ++ (← entriesOfAll ds))

end

def maxAxes : Nat := 64

def Value.arrayOf (d : Datum) : Outcome Value := do
  match shapeOf d with
  | some shape =>
    if maxAxes < shape.length then .error .value
    .ok (.array ⟨shape, ← entriesOf d⟩)
  | none => .error .value

def Value.ofDatum : Datum → Outcome Value
  | .int n => .ok (.scalar (.int n))
  | .word n => .ok (.scalar (.word n))
  | .flag b => .ok (.scalar (.flag b))
  | .wordFlag b => .ok (.scalar (.bit b))
  | .float x => .ok (.scalar (.float x))
  | .single x => .ok (.scalar (.single x))
  | .double x => .ok (.scalar (.double x))
  | .list ds => Value.arrayOf (.list ds)
  | .text s => .ok (.text s)
  | _ => .ok .null

end FitCode.Numeric
