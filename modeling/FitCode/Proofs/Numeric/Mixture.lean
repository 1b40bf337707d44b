import FitCode.Graph.Build
import FitCode.Proofs.Numeric.Exact
import Mathlib.Data.List.GetD

/-! # Mixtures over exact arithmetic

A mixture is made from as many coefficients as densities, or from one fewer. With these counts the
weighted sum never reads beyond the end of a list. It is the sum of the values times their
coefficients, where a last value without a coefficient has the weight that is left of one.
-/
namespace FitCode

namespace Graph

/-- The numbers of densities and coefficients of the mixtures that can be made. -/
def AdmitsMixture (n m : ℕ) : Prop :=
  ∃ (g : Graph) (name : String) (densities coefficients : ℕ) (k : Kind),
    g.memberCount densities = .ok n ∧ g.memberCount coefficients = .ok m ∧
      g.mixture? name densities coefficients = .ok k

theorem mixture?_of_counts {g : Graph} {ds cs n m : ℕ} (name : String)
    (hn : g.memberCount ds = .ok n) (hm : g.memberCount cs = .ok m) :
    g.mixture? name ds cs =
      if m = n ∨ m + 1 = n then .ok (.mixture ds cs) else .error (.coefficientCount name n m) := by
  unfold mixture?
  simp [hn, hm, bind, Except.bind]

/-- A graph with a collection of `n` densities and one of `m` coefficients. -/
def ofCounts (n m : ℕ) : Graph :=
  ((empty.add "unit" (.constant 1)).add "densities" (.collection (List.replicate n 0))).add
    "coefficients" (.collection (List.replicate m 0))

theorem admitsMixture_iff {n m : ℕ} : AdmitsMixture n m ↔ m = n ∨ m + 1 = n := by
  constructor
  · rintro ⟨g, name, ds, cs, k, hn, hm, hk⟩
    by_contra hcount
    rw [mixture?_of_counts name hn hm, if_neg hcount] at hk
    cases hk
  · intro hcount
    have hn : (ofCounts n m).memberCount 1 = .ok n := by
      simp [memberCount, ofCounts, empty, add, kind, vertex]
    have hm : (ofCounts n m).memberCount 2 = .ok m := by
      simp [memberCount, ofCounts, empty, add, kind, vertex]
    refine ⟨ofCounts n m, "mixture", 1, 2, .mixture 1 2, hn, hm, ?_⟩
    rw [mixture?_of_counts _ hn hm, if_pos hcount]

end Graph

namespace Numeric

open scoped BigOperators

variable {R : Type} [CommRing R]

/-- One step moves a coefficient from the remainder to the total, if there is a value for it. -/
theorem mixStep_exact (s : R × R) {vs cs : List R} {i : ℕ} (hi : i < cs.length) :
    mixStep (.exact R) vs cs s i =
      if i < vs.length then .ok (s.1 + cs.getD i 0 * vs.getD i 0, s.2 - cs.getD i 0)
      else .error .index := by
  unfold mixStep
  rw [Arithmetic.exact_item hi]
  split
  case isTrue hv =>
    rw [Arithmetic.exact_item hv]
    rfl
  case isFalse hv =>
    have hitem : (Arithmetic.exact R).item vs i = .error .index := by
      simp [Arithmetic.exact, Nat.le_of_not_lt hv]
    rw [hitem]
    rfl

theorem mix_exact {vs cs : List R} {n : ℕ} (hn : n ≤ cs.length) :
    (List.range n).foldlM (mixStep (.exact R) vs cs) (0, 1) =
      if n ≤ vs.length then
        .ok (∑ i ∈ Finset.range n, cs.getD i 0 * vs.getD i 0,
          1 - ∑ i ∈ Finset.range n, cs.getD i 0)
      else .error .index := by
  induction n with
  | zero => simp [pure, Except.pure]
  | succ n ih =>
    rw [List.range_succ, List.foldlM_append, ih (Nat.le_of_succ_le hn)]
    have hlast (s : R × R) : [n].foldlM (mixStep (.exact R) vs cs) s =
        mixStep (.exact R) vs cs s n := bind_pure _
    -- Either all steps go through, or this is the one that fails, or an earlier one did.
    rcases Nat.lt_trichotomy n vs.length with hlt | heq | hgt
    · rw [if_pos hlt.le, if_pos (Nat.succ_le_of_lt hlt), Finset.sum_range_succ,
        Finset.sum_range_succ, ← sub_sub]
      exact (hlast _).trans ((mixStep_exact _ hn).trans (if_pos hlt))
    · rw [if_pos heq.le, if_neg (by omega)]
      exact (hlast _).trans ((mixStep_exact _ hn).trans (if_neg (by omega)))
    · rw [if_neg (by omega), if_neg (by omega)]
      rfl

theorem weightedSum_exact_bind (vs cs : List R) : weightedSum (.exact R) vs cs =
    (List.range cs.length).foldlM (mixStep (.exact R) vs cs) (0, 1) >>= fun s =>
      if cs.length < vs.length then
        (Arithmetic.exact R).item vs cs.length >>= fun v => .ok (s.1 + s.2 * v)
      else .ok s.1 := rfl

theorem sum_range_getD (cs : List R) : ∑ i ∈ Finset.range cs.length, cs.getD i 0 = cs.sum := by
  rw [Finset.sum_range, ← Fin.sum_univ_getElem]
  simp

/-- The weighted sum fails only where a coefficient has no value. The first value without a
coefficient has the weight that is left, and those after it have none. -/
theorem weightedSum_exact (vs cs : List R) : weightedSum (.exact R) vs cs =
    if cs.length ≤ vs.length then
      .ok (∑ i ∈ Finset.range cs.length, cs.getD i 0 * vs.getD i 0 +
        (1 - cs.sum) * vs.getD cs.length 0)
    else .error .index := by
  rw [weightedSum_exact_bind, mix_exact (Nat.le_refl cs.length), sum_range_getD]
  rcases Nat.lt_trichotomy cs.length vs.length with hlt | heq | hgt
  · rw [if_pos hlt.le, if_pos hlt.le, Arithmetic.exact_item hlt]
    exact if_pos hlt
  · have hnone : vs.getD cs.length 0 = 0 := by simp [heq]
    rw [if_pos heq.le, if_pos heq.le, hnone, mul_zero, add_zero]
    exact if_neg (by omega)
  · rw [if_neg (by omega), if_neg (by omega)]
    rfl

/-- The weights add up to one, so that a mixture of equal values is that value. -/
theorem weightedSum_exact_const {vs cs : List R} {v : R} (hcount : cs.length + 1 = vs.length)
    (hv : ∀ w ∈ vs, w = v) : weightedSum (.exact R) vs cs = .ok v := by
  have hget {i : ℕ} (hi : i < vs.length) : vs.getD i 0 = v := by
    rw [List.getD_eq_getElem vs 0 hi]
    exact hv _ (List.getElem_mem hi)
  have hsum : ∑ i ∈ Finset.range cs.length, cs.getD i 0 * vs.getD i 0 = cs.sum * v := by
    rw [← sum_range_getD cs, Finset.sum_mul]
    refine Finset.sum_congr rfl fun i hi => ?_
    have hlt : i < cs.length := Finset.mem_range.1 hi
    rw [hget (by omega)]
  rw [weightedSum_exact, if_pos (by omega), hsum, hget (by omega)]
  exact congrArg _ (by ring)

theorem weightedSum_exact_append {vs cs : List R} (hcount : cs.length + 1 = vs.length) :
    weightedSum (.exact R) vs (cs ++ [1 - cs.sum]) = weightedSum (.exact R) vs cs := by
  have hinit : ∑ i ∈ Finset.range cs.length, (cs ++ [1 - cs.sum]).getD i 0 * vs.getD i 0 =
      ∑ i ∈ Finset.range cs.length, cs.getD i 0 * vs.getD i 0 := by
    refine Finset.sum_congr rfl fun i hi => ?_
    rw [List.getD_append _ _ _ _ (Finset.mem_range.1 hi)]
  have hlast : (cs ++ [1 - cs.sum]).getD cs.length 0 = 1 - cs.sum := by simp
  have hnone : vs.getD (cs.length + 1) 0 = 0 := by simp [hcount]
  rw [weightedSum_exact, weightedSum_exact, List.length_append, List.length_singleton,
    if_pos hcount.le, if_pos (by omega), Finset.sum_range_succ, hinit, hlast, hnone, mul_zero,
    add_zero]

/-- With the counts of a mixture, the weighted sum is what the mixture declares. Where the last
coefficient is left out, equal values mix to themselves and the coefficient can be written out. -/
theorem weightedSum_mixture (vs cs : List R)
    (hmade : Graph.AdmitsMixture vs.length cs.length) :
    (∃ hle : cs.length ≤ vs.length, weightedSum (.exact R) vs cs =
      .ok (∑ i : Fin cs.length, cs[i] * vs[i.castLE hle] +
        if cs.length + 1 = vs.length then (1 - cs.sum) * vs.getLastD 0 else 0)) ∧
    (cs.length + 1 = vs.length →
      (∀ v, (∀ w ∈ vs, w = v) → weightedSum (.exact R) vs cs = .ok v) ∧
        weightedSum (.exact R) vs (cs ++ [1 - cs.sum]) = weightedSum (.exact R) vs cs) := by
  have hcount := Graph.admitsMixture_iff.1 hmade
  have hle : cs.length ≤ vs.length := by omega
  refine ⟨⟨hle, ?_⟩, fun h => ⟨fun v => weightedSum_exact_const h, weightedSum_exact_append h⟩⟩
  have hsum : ∑ i : Fin cs.length, cs[i] * vs[i.castLE hle] =
      ∑ i ∈ Finset.range cs.length, cs.getD i 0 * vs.getD i 0 := by
    rw [Finset.sum_range]
    refine Finset.sum_congr rfl fun i _ => ?_
    rw [List.getD_eq_getElem cs 0 i.isLt, List.getD_eq_getElem vs 0 (i.isLt.trans_le hle)]
    rfl
  rw [weightedSum_exact, if_pos hle, hsum]
  rcases hcount with hfull | hshort
  · have hnone : vs.getD cs.length 0 = 0 := by simp [hfull]
    rw [if_neg (by omega), hnone, mul_zero]
  · have hlast : vs.getLastD 0 = vs.getD cs.length 0 := by
      rw [List.getLastD_eq_getLast?, List.getLast?_eq_getElem?, ← hshort, Nat.add_sub_cancel]
      rfl
    rw [if_pos hshort, hlast]

theorem weightedSum_mixture_threeValues :
    Graph.AdmitsMixture 3 2 ∧ weightedSum (.exact ℤ) [2, 4, 7] [3, -1] = .ok (-5) ∧
      weightedSum (.exact ℤ) [2, 4, 7] [3, -1, -1] = .ok (-5) ∧
      weightedSum (.exact ℤ) [6, 6, 6] [3, -1] = .ok 6 := by
  have hmade : Graph.AdmitsMixture 3 2 := Graph.admitsMixture_iff.2 (.inr rfl)
  obtain ⟨⟨_, hsum⟩, hrest⟩ := weightedSum_mixture [2, 4, 7] [(3 : ℤ), -1] hmade
  obtain ⟨_, happend⟩ := hrest rfl
  obtain ⟨hconst, _⟩ := (weightedSum_mixture [6, 6, 6] [(3 : ℤ), -1] hmade).2 rfl
  exact ⟨hmade, hsum, happend.trans hsum, hconst 6 (by decide)⟩

end Numeric

end FitCode
