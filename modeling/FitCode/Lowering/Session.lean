import FitCode.Lowering.Node

/-! # Sessions: commands run one after the other on one state -/
namespace FitCode

structure Reply where
  outcome : Except Fault Answer
  depth : Nat
  lines : Nat

namespace Setting

/-- Runs the commands in order. A failed command counts as one without result, and the next one
goes on from the state it left. -/
def session (s : Setting) : (results : List Answer) → Draft → List Command → List Reply
  | _, _, [] => []
  | results, c, command :: commands =>
    let (outcome, c) := (s.execute s.lowerer {} results command).run.run c
    let answer := match outcome with
      | .ok a => a
      | .error _ => .nothing
    ⟨outcome, c.depth, c.body.length⟩ :: s.session (results ++ [answer]) c commands

end Setting

end FitCode
