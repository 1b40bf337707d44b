import FitCode.Lowering.Naming

/-! # Columns, statements and the finished code -/
namespace FitCode

/-- A printed buffer. Only a whole number of spaces can indent a line; an empty one needs none. -/
def Options.printed (o : Options) (b : Listing) : Except Fault String :=
  if o.indentSize?.isSome || b.all (fun l => l.text == "") then b.print o.indentSize
  else .error .wrongType

namespace Setting

/-- Gives a vector observable its column. Giving it again is allowed only for an equal column. -/
def assignColumn (s : Setting) (node column : Datum) : Emit Unit := do
  let id ← s.identityOf node
  if let some n := (← get).columns.get? id then
    if !(← Emit.ofExcept (Kind.ofConversion (column.equalsInt n))) then
      throw (.columnTaken n id.shown)
  let n ← Emit.ofExcept (Kind.ofConversion column.toInt)
  modify fun c => { c with columns := c.columns.put id n }

/-- Adds statements at the current depth. They are never hoisted. -/
def write (_ : Setting) (text : String) : Emit Unit :=
  modify fun c => { c with body := c.body.append text c.depth }

/-- The complete code: preamble, body and return statement. A draft is finished once, with no loop
open. -/
def finish (s : Setting) (expr : String) : Emit String := do
  let c ← get
  if c.finished then throw .finishedTwice
  if let some l := c.innermost? then throw (.loopStillOpen l.index)
  set { c with finished := true }
  let preamble := if c.preamble == "" || c.preamble.toList.getLast? == some '\n' then c.preamble
    else c.preamble ++ "\n"
  let body ← Emit.ofExcept (s.options.printed c.body)
  return preamble ++ body ++ "return " ++ expr ++ "\n"

end Setting

end FitCode
