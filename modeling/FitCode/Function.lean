import FitCode.Lowering.Node

/-! # Functions generated from a graph

The parameters of a model are bound to the entries of one argument and its observables to the
columns of the other. The root is lowered and the code wrapped into a function definition.
-/
namespace FitCode

structure Generated where
  name : String
  body : String
  functionSource : String
  /-- The function with the imports it needs. -/
  source : String
  parameterNames : List String
  observableColumns : List String
  sizes : SizeTable

structure Model where
  graph : Graph
  root : Datum
  parameters : List Datum
  observables : List Datum

inductive SizeSource where
  | table (sizes : SizeTable)
  | given (sizes : Sizing)
  | inferred (observableSizes : Sizing)

namespace Model

def sizeTable (m : Model) (levels : Nat) : SizeSource → Except Fault SizeTable
  | .table t => .ok t
  | .given s => SizeTable.ofSizing m.graph s
  | .inferred s => Sizes.infer m.graph m.root (some s) levels

/-- The name of a parameter or observable; its description must exist as well. -/
def nameOf (m : Model) : Datum → Except Fault String
  | .object v => do
    discard (m.graph.describe v)
    .ok (m.graph.name v)
  | d => m.graph.datumText d

/-- Binds parameters to entries and observables to columns. A scalar observable is the first entry
of its column. -/
def bindArguments (m : Model) (s : Setting) : Emit Unit := do
  m.parameters.zipIdx.forM fun (p, i) =>
    discard (s.register p (s.options.paramsName ++ "[" ++ toString i ++ "]") false)
  m.observables.zipIdx.forM fun (o, i) => do
    if 1 < s.sizes.size (← s.identityOf o) then s.assignColumn o (.int i)
    else discard (s.register o (s.options.obsName ++ "[" ++ toString i ++ "][0]") false)

def emitBody (m : Model) (s : Setting) : Emit String := do
  m.bindArguments s
  s.finish (← s.request m.root)

def header : String :=
  "# Generated by GraphSquash\nimport numpy as np\n" ++
    "from graphsquash.runtime import exponential, gaussian, polynomial, weighted_sum\n\n\n"

def functionSource (o : Options) (body : String) : String :=
  let pad := List.replicate o.indentSize.toNat ' '
  "def " ++ o.functionName ++ "(" ++ o.paramsName ++ ", " ++ o.obsName ++ "):\n" ++
    String.ofList (Text.indent pad body.toList)

def generate (m : Model) (o : Options) (source : SizeSource) (nextSerial : Nat) :
    Except Fault Generated := do
  let sizes ← m.sizeTable o.machine.levels source
  let s : Setting := ⟨m.graph, o, sizes⟩
  let body ← ((m.emitBody s).run.run { nextSerial }).1
  if let some f := o.padFault? then .error f
  let function := functionSource o body
  .ok { name := o.functionName
        body
        functionSource := function
        source := header ++ function
        parameterNames := ← m.parameters.mapM m.nameOf
        observableColumns := ← m.observables.mapM m.nameOf
        sizes }

end Model

end FitCode
