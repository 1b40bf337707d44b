import FitCode.Lowering.Resolve

/-! # Call arguments

Numbers, texts, nodes and collections can be passed to a function. Each kind has one rule for its
code text.
-/
namespace FitCode

def Graph.toArgument (g : Graph) : Datum → Except Fault (ArgumentKind × Datum)
  | .argument k d => .ok (k, d)
  | .flag b => .error (.flagArgument (Graph.flagText b))
  | .wordFlag b => .error (.flagArgument ("np." ++ Graph.flagText b ++ "_"))
  | .int n => .ok (.int, .int n)
  | .word n => .ok (.int, .int n)
  | .float x => .ok (.float, .float x)
  | .single x => .ok (.float, .float x)
  | .double x => .ok (.float, .float x)
  | .text s => .ok (.text, .text s)
  | .object v =>
    match g.kind v with
    | .collection _ => .ok (.collection, .object v)
    | _ => .ok (.node, .object v)
  | d => .error (.unsupportedArgument (g.typeName d))

/-- What shows an argument: a number, the text as given or the label of an object. -/
def Graph.argumentShown (g : Graph) : ArgumentKind × Datum → Except Fault Datum
  | (.float, d) => do .ok (.text (Decimal.shortText (← Kind.ofConversion d.toFloat)))
  | (.int, d) => do .ok (.text (← g.datumText d))
  | (.text, d) => .ok d
  | (.node, d) => do .ok (.text (← g.identityOf d).shown)
  | (.collection, d) => do .ok (.text (← g.identityOf d).shown)

namespace Setting

/-- The code of an argument. A text is passed on as it was given, whether it is one or not. -/
def argumentCode (s : Setting) (l : Lowerer) (trail : Trail) : ArgumentKind × Datum → Emit Datum
  | (.float, d) => do return .text (← Emit.ofExcept (Kind.ofConversion d.toFloatCode))
  | (.int, d) => do return .text (← Emit.ofExcept (s.graph.datumText d))
  | (.text, d) => return d
  | (.node, d) => do return .text (← l.resolve (trail.deeper 1) d)
  | (.collection, d) => do return .text (← s.arrayOf l (trail.deeper 1) d none)

def argumentsCode (s : Setting) (l : Lowerer) (trail : Trail) (args : List Datum) :
    Emit String := do
  let codes ← args.mapM fun d => do
    s.argumentCode l (trail.deeper 3) (← Emit.ofExcept (s.graph.toArgument d))
  match codes.mapM Datum.text? with
  | some texts => return String.intercalate ", " texts
  | none => throw .wrongType

/-- The code of a call. The number of arguments is not checked. -/
def callCode (s : Setting) (l : Lowerer) (trail : Trail) (function : String)
    (args : List Datum) : Emit String := do
  return function ++ "(" ++ (← s.argumentsCode l (trail.deeper 2) args) ++ ")"

end Setting

end FitCode
