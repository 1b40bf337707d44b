import FitCode.Proofs.Graph.RenamedSizes
import FitCode.Proofs.Lowering.Paired

/-! # The code of isomorphic models

Identities are opaque. Two models whose graphs are isomorphic, with corresponding arguments and the
same sizes and options, give the same text or fail in the same way. Neither the labels of nodes nor
the order in which they were made is in the code.
-/
namespace FitCode

open Emit

theorem forall₂_zipIdx {α β : Type} {R : α → β → Prop} {as : List α} {bs : List β}
    (h : List.Forall₂ R as bs) (k : Nat) :
    List.Forall₂ (fun a b => R a.1 b.1 ∧ b.2 = a.2) (as.zipIdx k) (bs.zipIdx k) := by
  induction h generalizing k with
  | nil => exact .nil
  | cons hab _ ih => exact .cons ⟨hab,rfl⟩ (ih (k + 1))

/-- The renaming carries one model to the other: its graph, its root and its arguments in order. -/
structure Model.Iso (m m' : Model) (e : Nat ≃ Nat) : Prop where
  graph : m.graph.Iso m'.graph e
  root : m.root.Renames e m'.root
  parameters : List.Forall₂ (Datum.Renames e) m.parameters m'.parameters
  observables : List.Forall₂ (Datum.Renames e) m.observables m'.observables

namespace Model.Iso

variable {m m' : Model} {e : Nat ≃ Nat} (hm : m.Iso m' e) {s s' : Setting} (hs : s.Mirrors e s')

include hm hs

theorem bindArguments : Paired e Eq (m.bindArguments s) (m'.bindArguments s') := by
  have hparam : ∀ a b : Datum × Nat, a.1.Renames e b.1 ∧ b.2 = a.2 → Paired e Eq
      (discard (s.register a.1 (s.options.paramsName ++ "[" ++ toString a.2 ++ "]") false))
      (discard (s'.register b.1 (s'.options.paramsName ++ "[" ++ toString b.2 ++ "]") false)) := by
    rintro a b ⟨hd,hi⟩
    rw [hi, hs.options]
    exact (hs.register hd _ false).discard
  refine (Paired.forM (forall₂_zipIdx hm.parameters 0) hparam).bind fun _ _ _ => ?_
  refine Paired.forM (forall₂_zipIdx hm.observables 0) ?_
  rintro ⟨d,i⟩ ⟨d',j⟩ ⟨hd,rfl⟩
  refine (hd.paired_identityOf s s').bind fun a b hab => ?_
  rw [hs.size hab, hs.options]
  exact .ite (hd.paired_assignColumn s s' j) (hs.register hd _ false).discard

theorem emitBody (hg : m.graph.Scriptless) (hgraph : s.graph = m.graph) :
    Paired e Eq (m.emitBody s) (m'.emitBody s') := by
  refine (hm.bindArguments hs).bind fun _ _ _ => ?_
  refine (hs.request (hgraph ▸ hg) hm.root).bind fun expr _ h => h ▸ hs.finish expr

end Model.Iso

namespace Model

end Model

end FitCode
