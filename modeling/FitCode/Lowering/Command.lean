import FitCode.Graph.Evaluation
import FitCode.Lowering.Argument
import FitCode.Lowering.Writing
import FitCode.Text.Replace

/-! # Running commands and scripts

A command gives an answer, which later commands may quote. A script runs commands in order and ends
at the first failure that is not forgiven.
-/
namespace FitCode

structure Snapshot where
  preamble : String
  body : Listing
  /-- The loops that commands opened. -/
  loops : List Loop
  /-- Serial numbers of the vertices that have a result. -/
  resolved : List Nat
  /-- How often each custom and script node was lowered. -/
  calls : List (Nat × Nat)

inductive Answer where
  | nothing
  | text (s : String)
  | value (d : Datum)
  | flag (b : Bool)
  | number (n : Int)
  | sizes (t : SizeTable)
  /-- A loop that has just been opened. -/
  | opened (l : Loop)
  | loop (l : Loop)
  | argument (className : String) (shown : Datum)
  | snapshot (s : Snapshot)

def Answer.text? : Answer → Option String
  | .text s => some s
  | .value d => d.text?
  | _ => none

def Term.quote (result : Nat → String) : Term → Term
  | .value (.text s) => .value (.text (Text.quoteResults result s))
  | t => t

namespace Setting

def eval (s : Setting) (t : Term) : Emit Datum := do
  let c ← get
  let (outcome, n) := (t.eval s.graph).run.run c.nextSerial
  set { c with nextSerial := n }
  Emit.ofExcept outcome

def evalAll (s : Setting) (ts : List Term) : Emit (List Datum) := ts.mapM s.eval

def isCounted : Kind → Bool
  | .custom .. => true
  | .script .. => true
  | _ => false

def snapshot (s : Setting) (c : Draft) : Snapshot where
  preamble := c.preamble
  body := c.body
  loops := c.opened.filterMap c.loop?
  resolved := (List.range s.graph.size).filter c.isResolved
  calls := ((List.range s.graph.size).filter fun v => isCounted (s.graph.kind v)).map fun v =>
    (v, c.calls.count v)

/-- The position of a loop opened by a command; a negative number counts from the last one. -/
def openedLoop (i : Int) : Emit Nat := do
  let opened := (← get).opened
  let k := if 0 ≤ i then i else opened.length + i
  if k < 0 then throw .indexOutside
  match opened[k.toNat]? with
  | some h => return h
  | none => throw .indexOutside

def execute (s : Setting) (l : Lowerer) (trail : Trail) (results : List Answer)
    (command : Command) : Emit Answer := do
  let result := fun k => ((results[k]?).bind Answer.text?).getD ""
  let quote := Text.quoteResults result
  match command with
  | .sizeAt t => return .number (s.sizes.size (← s.identityOf (← s.eval t)))
  | .sizes => return .sizes s.sizes
  | .assignColumn t column => do
    let node ← s.eval t
    s.assignColumn node (← s.eval column)
    return .nothing
  | .columnOf t =>
    let id ← s.identityOf (← s.eval t)
    return ((← get).columns.get? id).elim .nothing .number
  | .register t expr save => return .text (← s.register (← s.eval t) (quote expr) save)
  | .isResolved t =>
    let id ← s.identityOf (← s.eval t)
    return .flag ((← get).isResolved id.serial)
  | .request t => return .text (← l.resolve trail (← s.eval t))
  | .emit t =>
    l.emit trail (← s.eval t)
    return .nothing
  | .temp => return .text (← s.freshTemp)
  | .bindTemp t expr name => return .text (← s.bindTemp (← s.eval t) (quote expr) name)
  | .openLoop t =>
    let h ← s.openLoop (← s.eval t)
    modify fun c => { c with opened := c.opened ++ [h] }
    return ((← get).loop? h).elim .nothing .opened
  | .closeLoop i =>
    closeLoop (← openedLoop i)
    return .nothing
  | .leaveLoop i =>
    leaveLoop (← openedLoop i)
    return .nothing
  | .queue i lines =>
    let h ← openedLoop i
    modify fun c => c.modifyLoop h fun l => { l with queued := l.queued ++ lines }
    return .nothing
  | .innermost => return ((← get).innermost?).elim .nothing .loop
  | .arrayOf t name => return .text (← s.arrayOf l trail (← s.eval t) name)
  | .toArgument t =>
    let a ← Emit.ofExcept (s.graph.toArgument (← s.eval t))
    return .argument a.1.className (← Emit.ofExcept (s.graph.argumentShown a))
  | .argumentCode t =>
    match ← s.eval t with
    | .argument k d => return .value (← s.argumentCode l trail (k, d))
    | d => throw (.unknownArgument (s.graph.typeName d))
  | .argumentsCode ts =>
    return .text (← s.argumentsCode l trail (← s.evalAll (ts.map (Term.quote result))))
  | .callCode f ts =>
    return .text (← s.callCode l trail f (← s.evalAll (ts.map (Term.quote result))))
  | .addPreamble text =>
    modify fun c => { c with preamble := c.preamble ++ quote text }
    return .nothing
  | .write text =>
    s.write (quote text)
    return .nothing
  | .finish expr => return .text (← s.finish (quote expr))
  | .snapshot => return .snapshot (s.snapshot (← get))

/-- Runs the steps of a script. A forgiven failure counts as no result. -/
def runScript (s : Setting) (l : Lowerer) (trail : Trail) :
    (results : List Answer) → List Step → Emit Unit
  | _, [] => pure ()
  | results, step :: steps => do
    match ← Emit.attempt (s.execute l trail results step.command) with
    | .ok a => s.runScript l trail (results ++ [a]) steps
    | .error e =>
      if step.forgiving then s.runScript l trail (results ++ [.nothing]) steps else throw e

end Setting

end FitCode
