import FitCode.Graph.Basic

/-! # Evaluating terms

Operands are evaluated from left to right. A fresh identity takes the next serial number, which it
keeps if a later operand cannot be made.
-/
namespace FitCode

/-- Evaluation with the next free serial number as its state. -/
abbrev Evaluation := ExceptT Fault (StateM Nat)

instance : MonadLift (Except Fault) Evaluation where
  monadLift
    | .ok a => pure a
    | .error e => throw e

mutual

def Term.eval (g : Graph) : Term → Evaluation Datum
  | .value d => pure d
  | .object v => pure (g.datum v)
  | .identityOf v => pure (.identity (g.idOf v))
  | .relabelled v label => pure (.identity ⟨v, label⟩)
  | .fresh label => modifyGet fun n => (.identity ⟨n, label⟩, n + 1)
  | .list ts => do return .list (← Term.evalAll g ts)
  | .argument k t => do return .argument k (← t.eval g)
  | .impossible e => throw e

def Term.evalAll (g : Graph) : List Term → Evaluation (List Datum)
  | [] => pure []
  | t :: ts => do
    let d ← t.eval g
    return d :: (← Term.evalAll g ts)

end

end FitCode
