import FitCode.Lowering.Command

/-! # Lowering the kinds of nodes

A node is lowered by asking for the results of its operands and registering a result of its own. The
recursion through the graph is tied here, by a bound on its nesting.
-/
namespace FitCode

namespace Setting

def addUp (s : Setting) (l : Lowerer) (trail : Trail) (v term : Nat)
    (update : String → String → String) : Emit Unit := do
  let acc ← s.freshTemp
  s.write (acc ++ " = 0.0")
  let add : Emit Unit := do s.write (update acc (← l.resolve (trail.deeper 2) (s.graph.datum term)))
  if 1 < s.sizes.size (s.graph.idOf term) then
    let h ← s.openLoop (.object v)
    insideLoop h add
  else add
  discard (s.register (.object v) acc false)

def saveResult (s : Setting) (v : Nat) (expr : String) : Emit Unit :=
  discard (s.register (.object v) expr true)

def inlineResult (s : Setting) (v : Nat) (text : String) : Emit Unit :=
  discard (s.register (.object v) text false)

def emitNode (s : Setting) (l : Lowerer) (trail : Trail) (v : Nat) : Emit Unit := do
  let g := s.graph
  let resultOf := fun w => l.resolve (trail.deeper 2) (g.datum w)
  let wrapped := fun w => do return "(" ++ (← resultOf w) ++ ")"
  let call := fun f ws => s.callCode l trail f (ws.map g.datum)
  match g.kind v with
  | .parameter value isConstant =>
    if isConstant then s.inlineResult v (Datum.floatCode value)
    else throw (.freeParameter (g.name v))
  | .observable =>
    match (← get).columns.get? (g.idOf v) with
    | some column => s.inlineResult v (s.options.obsName ++ "[" ++ toString column ++ "]")
    | none => throw (.unboundObservable (g.name v))
  | .constant value => s.inlineResult v (Datum.floatCode value)
  | .sum [] => s.inlineResult v "0.0"
  | .sum ts => s.saveResult v (String.intercalate " + " (← ts.mapM resultOf))
  | .product [] => s.inlineResult v "1.0"
  | .product fs => s.saveResult v (String.intercalate " * " (← fs.mapM wrapped))
  | .formula template args =>
    let texts ← args.mapM wrapped
    let filled := Text.fillTemplate s.options.machine.address template texts
    s.saveResult v (← Emit.ofExcept (filled.mapError .template))
  | .gaussian x mean sigma => s.saveResult v (← call "gaussian" [x, mean, sigma])
  | .exponential x c => s.saveResult v (← call "exponential" [x, c])
  | .polynomial x cs order =>
    s.saveResult v (← s.callCode l trail "polynomial" [g.datum x, g.datum cs, .int order])
  | .mixture ds cs => s.saveResult v (← call "weighted_sum" [ds, cs])
  | .entrySum t => s.addUp l trail v t fun acc value => acc ++ " += " ++ value
  | .negLogLikelihood t =>
    s.addUp l trail v t fun acc value => acc ++ " -= np.log(" ++ value ++ ")"
  | .custom expr _ save =>
    modify fun c => { c with calls := c.calls ++ [v] }
    let texts ← (g.operands v).mapM resultOf
    discard (s.register (.object v) (Text.replaceSlots texts expr) save)
  | .script steps _ _ =>
    modify fun c => { c with calls := c.calls ++ [v] }
    s.runScript l (trail.deeper 3) [] steps
  | .collection _ => throw .noAttribute
  | .identity => throw .noAttribute

def emit (s : Setting) (l : Lowerer) (trail : Trail) (node : Datum) : Emit Unit := do
  if s.options.machine.calls < trail.calls then throw .tooDeep
  match node with
  | .object v => s.emitNode l trail v
  | _ => throw .noAttribute

/-- Lowering in which nodes nest at most `nesting` levels deep. -/
def nested (s : Setting) : (nesting : Nat) → Lowerer
  | 0 => ⟨fun _ _ => throw .tooDeep, fun _ _ => throw .tooDeep⟩
  | nesting + 1 =>
    let emit := s.emit (s.nested nesting)
    ⟨s.resolve emit, emit⟩

/-- Lowering as deep as calls may nest: each level takes more than one of them. -/
def lowerer (s : Setting) : Lowerer := s.nested (s.options.machine.calls + 1)

def request (s : Setting) (node : Datum) : Emit String := s.lowerer.resolve {} node

end Setting

end FitCode
