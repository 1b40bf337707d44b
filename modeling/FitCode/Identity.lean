import FitCode.Text.Quoted

/-! # Identities of graph objects

An identity is a serial number with a label for messages. Only the serial number counts when
identities are compared.
-/
namespace FitCode

structure Identity where
  serial : Nat
  label : String
  deriving Repr, DecidableEq, Inhabited

namespace Identity

def same (a b : Identity) : Bool := a.serial == b.serial

/-- The label, or the serial number of an identity without one. -/
def shown (id : Identity) : String := if id.label == "" then "#" ++ toString id.serial else id.label

def described (id : Identity) : String :=
  if id.label == "" then "NodeId(" ++ toString id.serial ++ ")"
  else "NodeId(" ++ toString id.serial ++ ", " ++ Text.quoted id.label ++ ")"

end Identity

end FitCode
