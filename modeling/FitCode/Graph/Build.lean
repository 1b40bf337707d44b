import FitCode.Graph.Basic

/-! # Making nodes

Literal values are converted and the shape of a mixture is checked when a node is made.
-/
namespace FitCode

namespace Kind

def ofConversion {α : Type} (r : Except ConversionError α) : Except Fault α :=
  r.mapError .conversion

def parameter? (value : Datum) (isConstant : Bool) : Except Fault Kind := do
  .ok (.parameter (← ofConversion value.toFloat) isConstant)

def constant? (value : Datum) : Except Fault Kind := do
  .ok (.constant (← ofConversion value.toFloat))

def polynomial? (x coefficients : Nat) (lowerOrder : Datum) : Except Fault Kind := do
  .ok (.polynomial x coefficients (← ofConversion lowerOrder.toInt))

end Kind

namespace Graph

def empty : Graph := ⟨#[]⟩

def add (g : Graph) (name : String) (kind : Kind) : Graph := ⟨g.vertices.push ⟨name, kind⟩⟩

def memberCount (g : Graph) (v : Nat) : Except Fault Nat :=
  match g.kind v with
  | .collection ms => .ok ms.length
  | _ => .error .wrongType

/-- A mixture has as many coefficients as densities, or one fewer. -/
def mixture? (g : Graph) (name : String) (densities coefficients : Nat) : Except Fault Kind := do
  let m ← g.memberCount coefficients
  let n ← g.memberCount densities
  if m = n || m + 1 = n then .ok (.mixture densities coefficients)
  else .error (.coefficientCount name n m)

def addOperands (g : Graph) (v : Nat) (operands : List Nat) : Graph :=
  ⟨g.vertices.modify v fun
    | ⟨name, .script steps args reducer⟩ => ⟨name, .script steps (args ++ operands) reducer⟩
    | other => other⟩

end Graph

end FitCode
