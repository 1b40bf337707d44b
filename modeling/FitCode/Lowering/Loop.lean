import FitCode.Lowering.Naming

/-! # Loops over vector observables -/
namespace FitCode

namespace Draft

/-- The access to the current entry of an observable. -/
def indexed (c : Draft) (o : Options) (index : String) (id : Identity) : String :=
  o.obsName ++ "[" ++ toString ((c.columns.get? id).getD 0) ++ "][" ++ index ++ "]"

def withLoop (c : Draft) (o : Options) (vars : List Identity) (length : Nat) : Draft :=
  let index := numbered o.loopStem c.loopCount
  { c with
    loopCount := c.loopCount + 1
    body := c.body.append ("for " ++ index ++ " in range(" ++ toString length ++ "):") c.depth
    loops := c.loops ++
      [{ vars, index, length, depth := c.depth + 1, start := c.body.length }]
    stack := c.stack ++ [c.loops.length]
    bindingDepths := (index, c.depth + 1) :: c.bindingDepths
    taken := index :: c.taken
    bindings := vars.foldl (fun m id => m.insert id.serial (c.indexed o index id)) c.bindings }

end Draft

namespace Setting

/-- The vector observables that an object depends on without looking into other reducers. -/
def inputs (s : Setting) (c : Draft) : Datum → Except Fault (List Identity)
  | .object v => do
    .ok ((← c.columns.filterM fun e => s.graph.reaches v e.1.serial true).map (·.1))
  | _ => .ok []

def isReducer (s : Setting) : Datum → Bool
  | .object v => (s.graph.kind v).isReducer
  | _ => false

/-- Whether an object is a reducer with inputs that open loops iterate, all of them. -/
def isLiftable (s : Setting) (c : Draft) (d : Datum) : Except Fault Bool := do
  if c.stack.isEmpty || !s.isReducer d then return false
  let inputs ← s.inputs c d
  return !inputs.isEmpty && inputs.all fun id => c.bindings.contains id.serial

def iterationDepth (s : Setting) (c : Draft) (d : Datum) : Except Fault Nat := do
  if c.stack.isEmpty then return 0
  if ← s.isLiftable c d then return 0
  let inputs ← s.inputs c d
  let iterates := fun (l : Loop) => l.vars.any fun v => inputs.any fun i => i.same v
  return ((c.openLoops.reverse.find? iterates).map (·.depth)).getD 0

/-- Opens a loop over the unbound inputs of an object, which must agree on their size. Gives the
loop's position. -/
def openLoop (s : Setting) (node : Datum) : Emit Nat := do
  let c ← get
  let inputs ← Emit.ofExcept (s.inputs c node)
  let vars := inputs.filter fun (id : Identity) => !c.bindings.contains id.serial
  match (vars.map s.sizes.size).eraseDups with
  | [] => throw (.nothingToLoop (← s.identityOf node).shown)
  | [length] =>
    set (c.withLoop s.options vars length)
    return c.loops.length
  | sizes =>
    throw (.sizesDiffer (sizes.mergeSort (· ≤ ·))
      (← s.identityOf node).shown)

end Setting

namespace Draft

/-- The state after an innermost loop has closed: its results are dropped and those it set aside
come back. -/
def withoutLoop (c : Draft) (h : Nat) (l : Loop) : Draft :=
  let c := c.modifyLoop h fun l => { l with closed := true }
  { c with
    stack := c.stack.dropLast
    bindings := l.vars.foldl (fun m id => m.erase id.serial) c.bindings
    results := l.results.orElse (c.results.below l.depth)
    arrays := l.arrays.orElse (c.arrays.below l.depth) }

end Draft

/-- Closes a loop, which must be the innermost open one. A loop without statements gets a `pass`,
and the lines queued for it go in front of it. -/
def closeLoop (h : Nat) : Emit Unit := do
  let c ← get
  let some l := c.loop? h | throw .indexOutside
  if l.closed then throw (.loopClosed l.index)
  if c.stack.getLast? != some h then
    throw (.loopOutOfOrder l.index (c.innermost?.map (·.index)))
  if (c.body.after (l.start + 1)).isEmpty then
    modify fun c => { c with body := c.body.append "pass" l.depth }
  if !l.queued.isEmpty then
    let body ← Emit.ofExcept ((← get).body.insert l.start l.queued)
    modify fun c => { c with body }
  modify fun c => c.withoutLoop h l

def leaveLoop (h : Nat) : Emit Unit := do
  let some l := (← get).loop? h | throw .indexOutside
  if !l.closed then closeLoop h

/-- Runs a step inside a loop and leaves the loop whether the step fails or not. A failure to leave
wins. -/
def insideLoop {α : Type} (h : Nat) (x : Emit α) : Emit α := do
  let outcome ← Emit.attempt x
  leaveLoop h
  Emit.ofExcept outcome

end FitCode
