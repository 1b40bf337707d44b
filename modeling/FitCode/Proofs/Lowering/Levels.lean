import FitCode.Proofs.Lowering.Requests
import Mathlib.Data.Finset.Card
import Mathlib.Data.List.Nodup

/-! # How deep lowering nests

A node that is being lowered is not lowered again inside of its own lowering, so lowerings nest at most as
deep as the graph has nodes. What would happen further down makes no difference.
-/
namespace FitCode

theorem Emit.throw_bind {α β : Type} (e : Fault) (f : α → Emit β) : (throw e >>= f : Emit β) = throw e := rfl

/-- The two ways to call back agree two or more calls below a trail. -/
def Lowerer.AgreeBelow (trail : Trail) (l₁ l₂ : Lowerer) : Prop :=
  ∀ t : Trail, t.nodes = trail.nodes → trail.calls + 2 ≤ t.calls → ∀ d, l₁.resolve t d = l₂.resolve t d

theorem Trail.deeper_deeper (t : Trail) (a b : Nat) : (t.deeper a).deeper b = t.deeper (a + b) := by
  simp only [deeper, Nat.add_assoc]

theorem Lowerer.AgreeBelow.deeper {trail : Trail} {l₁ l₂ : Lowerer} (h : l₁.AgreeBelow trail l₂) {calls : Nat}
    (hcalls : 2 ≤ calls) (d : Datum) : l₁.resolve (trail.deeper calls) d = l₂.resolve (trail.deeper calls) d :=
  h (trail.deeper calls) rfl (Nat.add_le_add_left hcalls _) d

namespace Setting

variable {s : Setting} {trail : Trail} {l₁ l₂ : Lowerer}

/-- Lowering in which nodes nest `nesting` levels deep on top of `bottom`. -/
def nestedOver (s : Setting) (bottom : Lowerer) : (nesting : Nat) → Lowerer
  | 0 => bottom
  | nesting + 1 =>
    let emit := s.emit (s.nestedOver bottom nesting)
    ⟨s.resolve emit, emit⟩

theorem nested_eq_nestedOver (s : Setting) (nesting : Nat) :
    s.nested nesting = s.nestedOver ⟨fun _ _ => throw .tooDeep, fun _ _ => throw .tooDeep⟩ nesting := by
  induction nesting with
  | zero => rfl
  | succ nesting ih => rw [nested, nestedOver, ih]

section

variable (h : l₁.AgreeBelow trail l₂)

include h

theorem arrayOf_congr {k : Nat} (d : Datum) (name : Option String) :
    s.arrayOf l₁ (trail.deeper k) d name = s.arrayOf l₂ (trail.deeper k) d name := by
  have hms : (fun m => l₁.resolve ((trail.deeper k).deeper 2) (s.graph.datum m)) =
      fun m => l₂.resolve ((trail.deeper k).deeper 2) (s.graph.datum m) := by
    funext m
    rw [Trail.deeper_deeper]
    exact h.deeper (by omega) _
  rw [arrayOf, arrayOf, hms]

theorem callCode_congr (f : String) (args : List Datum) :
    s.callCode l₁ trail f args = s.callCode l₂ trail f args := by
  have harg : ∀ a, s.argumentCode l₁ ((trail.deeper 2).deeper 3) a =
      s.argumentCode l₂ ((trail.deeper 2).deeper 3) a := by
    rintro ⟨k,d⟩
    cases k with
    | node => simp only [argumentCode, Trail.deeper_deeper, h.deeper (show 2 ≤ 2 + 3 + 1 by decide)]
    | collection => simp only [argumentCode, Trail.deeper_deeper, arrayOf_congr h]
    | _ => rfl
  simp only [callCode, argumentsCode, harg]

theorem emitNode_congr (hg : s.graph.Scriptless) (v : Nat) : s.emitNode l₁ trail v = s.emitNode l₂ trail v := by
  have hresult : ∀ d, l₁.resolve (trail.deeper 2) d = l₂.resolve (trail.deeper 2) d :=
    h.deeper (Nat.le_refl 2)
  cases hk : s.graph.kind v with
  | script steps args reducer => exact absurd hk (hg v steps args reducer)
  | sum ts => cases ts <;> simp only [emitNode, hk, hresult]
  | product fs => cases fs <;> simp only [emitNode, hk, hresult]
  | _ => simp only [emitNode, hk, hresult, callCode_congr h, addUp]

end

/-- A node is lowered the same way if its hook does the same where it is called. -/
theorem lower_congr {emit₁ emit₂ : Trail → Datum → Emit Unit} {node : Datum} {id : Identity}
    (h : s.canLower node = true → (trail.nodes.any fun r => r.same id) = false →
      emit₁ (trail.enter id) node = emit₂ (trail.enter id) node) :
    s.lower emit₁ trail node id = s.lower emit₂ trail node id := by
  rw [lower, lower]
  by_cases hcan : s.canLower node = true
  · by_cases hrun : (trail.nodes.any fun r => r.same id) = true
    · simp only [hcan, hrun, Bool.not_true, Bool.false_eq_true, if_false, if_true, Emit.throw_bind]
    · rw [h hcan (Bool.eq_false_iff.mpr hrun)]
  · simp only [hcan, Bool.not_false, if_true, Emit.throw_bind]

theorem resolve_congr {emit₁ emit₂ : Trail → Datum → Emit Unit} {node : Datum}
    (h : trail.calls ≤ s.options.machine.calls → ∀ id, s.graph.identityOf node = .ok id →
      s.lower emit₁ trail node id = s.lower emit₂ trail node id) :
    s.resolve emit₁ trail node = s.resolve emit₂ trail node := by
  rw [resolve, resolve]
  split
  · rw [Emit.throw_bind, Emit.throw_bind]
  · rename_i hcalls
    have hlower := h (Nat.le_of_not_lt hcalls)
    cases hid : s.graph.identityOf node with
    | error e => simp only [identityOf, hid, Emit.ofExcept, Emit.throw_bind]
    | ok id => simp only [identityOf, hid, Emit.ofExcept, pure_bind, hlower id hid]

/-- Enough levels are left below a trail of these nodes: more than nodes that are not on it, or more than
calls can nest. -/
def Suffices (s : Setting) (trail : Trail) (vs : List Nat) (nesting : Nat) : Prop :=
  0 < nesting ∧ (s.graph.size < vs.length + nesting ∨ s.options.machine.calls + 1 < trail.calls + 2 * nesting)

theorem length_le_size {g : Graph} {vs : List Nat} (hvs : vs.Nodup) (h : ∀ v ∈ vs, v < g.size) :
    vs.length ≤ g.size := by
  have hsub : vs.toFinset ⊆ Finset.range g.size := by
    intro v hv
    exact Finset.mem_range.mpr (h v (List.mem_toFinset.mp hv))
  have hcard := Finset.card_le_card hsub
  rwa [List.toFinset_card_of_nodup hvs, Finset.card_range] at hcard

theorem Suffices.enter {vs : List Nat} {v nesting : Nat} {id : Identity} {t : Trail}
    (h : s.Suffices trail vs (nesting + 1)) (hvs : (vs ++ [v]).Nodup) (hlt : ∀ u ∈ vs ++ [v], u < s.graph.size)
    (hcalls : (trail.enter id).calls ≤ s.options.machine.calls) (ht : (trail.enter id).calls + 2 ≤ t.calls) :
    s.Suffices t (vs ++ [v]) nesting := by
  have hlen := length_le_size hvs hlt
  simp only [Trail.enter] at hcalls ht
  simp only [List.length_append, List.length_singleton] at hlen
  obtain ⟨-,h⟩ := h
  constructor
  · omega
  · simp only [List.length_append, List.length_singleton]
    omega

/-- The nodes on a trail stay distinct if one that is not on it is entered. -/
theorem nodup_enter {g : Graph} {vs : List Nat} {v : Nat} (hnodes : trail.nodes = vs.map g.idOf) (hvs : vs.Nodup)
    (hrun : (trail.nodes.any fun r => r.same (g.idOf v)) = false) : (vs ++ [v]).Nodup := by
  rw [List.nodup_append]
  refine ⟨hvs,List.nodup_singleton v,fun a ha b hb => ?_⟩
  rw [List.mem_singleton.mp hb]
  rintro rfl
  rw [hnodes, List.any_map, List.any_eq_false] at hrun
  exact hrun a ha (by simp [Identity.same])

theorem nestedOver_eq (hg : s.graph.Scriptless) (bottom₁ bottom₂ : Lowerer) {nesting₁ nesting₂ : Nat}
    (vs : List Nat) (hnodes : trail.nodes = vs.map s.graph.idOf) (hvs : vs.Nodup)
    (hlt : ∀ v ∈ vs, v < s.graph.size) (h₁ : s.Suffices trail vs nesting₁)
    (h₂ : s.Suffices trail vs nesting₂) (d : Datum) :
    (s.nestedOver bottom₁ nesting₁).resolve trail d = (s.nestedOver bottom₂ nesting₂).resolve trail d := by
  induction nesting₁ generalizing nesting₂ trail vs d with
  | zero => exact absurd h₁.1 (Nat.lt_irrefl 0)
  | succ m₁ ih =>
    obtain ⟨m₂,rfl⟩ : ∃ m₂, nesting₂ = m₂ + 1 := Nat.exists_eq_succ_of_ne_zero (Nat.ne_of_gt h₂.1)
    refine resolve_congr fun _ id hid => lower_congr fun hcan hrun => ?_
    obtain ⟨v,rfl⟩ : ∃ v, d = .object v := by
      cases d with
      | object v => exact ⟨v,rfl⟩
      | _ => cases hcan
    cases hid
    -- The node is not on the trail, so one node less of the graph is left.
    have hvs' := nodup_enter hnodes hvs hrun
    have hlt' : ∀ u ∈ vs ++ [v], u < s.graph.size := by
      intro u hu
      rcases List.mem_append.mp hu with hu | hu
      · exact hlt u hu
      · rw [List.mem_singleton.mp hu]
        refine Graph.lt_size_of_kind fun hk => ?_
        rw [canLower, hk] at hcan
        cases hcan
    rw [emit, emit]
    split
    · rw [Emit.throw_bind, Emit.throw_bind]
    · rename_i hcalls
      refine emitNode_congr ?_ hg v
      intro t hsame ht d
      have hcalls := Nat.le_of_not_lt hcalls
      refine ih (vs ++ [v]) ?_ hvs' hlt' (h₁.enter hvs' hlt' hcalls ht) (h₂.enter hvs' hlt' hcalls ht) d
      rw [hsame, Trail.enter, hnodes, List.map_append, List.map_singleton]

/-- A request nests at most as many levels as the graph has nodes. -/
theorem nestedOver_eq_request (hg : s.graph.Scriptless) (bottom : Lowerer) {nesting : Nat}
    (h : s.graph.size < nesting) (d : Datum) : (s.nestedOver bottom nesting).resolve {} d = s.request d := by
  rw [request, lowerer, nested_eq_nestedOver]
  refine nestedOver_eq hg bottom _ [] rfl List.nodup_nil (by simp) ⟨by omega,.inl (by simpa)⟩
    ⟨Nat.succ_pos _,.inr (by simp only; omega)⟩ d

end Setting

end FitCode
