import FitCode.Proofs.Graph.Measure
import FitCode.Proofs.Graph.Renaming

/-! # Sizes in isomorphic graphs

Sizes are inferred alike in isomorphic graphs if corresponding objects are given the same sizes. The
known sizes are only looked up, so that their order matters no more than it does for lookup.
-/
namespace FitCode

namespace Sizing

/-- The same values for corresponding objects. -/
def Renames (e : Nat ≃ Nat) : Sizing → Sizing → Prop :=
  List.Forall₂ fun a b => Datum.Renames e a.1 b.1 ∧ b.2 = a.2

end Sizing

namespace Sizes

variable {g h : Graph} {e : Nat ≃ Nat} {s s' : Sizing} {known known' m m' : IdMap Int} {d d' : Datum}

/-- Every identity has the same size, in whatever order. -/
def SameLookup (m m' : IdMap Int) : Prop := ∀ id, m'.get? id = m.get? id

theorem SameLookup.put (hm : SameLookup m m') (id : Identity) (n : Int) :
    SameLookup (m.put id n) (m'.put id n) := by
  intro k
  rw [IdMap.get?_put, IdMap.get?_put, hm k]

/-- Takes note of a size that is given. -/
def note (g : Graph) (m : IdMap Int) (entry : Datum × Datum) : Except Fault (IdMap Int) := do
  let id ← g.identityOf entry.1
  .ok (IdMap.put m id (← Kind.ofConversion entry.2.toInt))

end Sizes

end FitCode
