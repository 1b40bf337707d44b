import FitCode.Numeric.Density
import Mathlib.Algebra.BigOperators.Fin
import Mathlib.Tactic.Ring

/-! # Densities over exact arithmetic

The definitions that run on values are read here over a commutative ring: sequences are lists, and the
only failure left is a position beyond the end of a list. Horner's scheme never meets it and gives the
sum that defines the polynomial.
-/
namespace FitCode.Numeric

open scoped BigOperators

variable {R : Type} [CommRing R]

/-- Arithmetic of a commutative ring. -/
def Arithmetic.exact (R : Type) [CommRing R] : Arithmetic Outcome R (List R) ℕ where
  zero := 0
  one := 1
  add := fun a b => .ok (a + b)
  mul := fun a b => .ok (a * b)
  addTo := fun a b => .ok (a + b)
  subFrom := fun a b => .ok (a - b)
  pow := fun a n => .ok (a ^ n)
  positive := fun n => .ok (0 < n)
  length := fun cs => .ok cs.length
  item := fun cs k => (cs[k]?).elim (.error .index) .ok

theorem Arithmetic.exact_item {cs : List R} {k : ℕ} (hk : k < cs.length) :
    (exact R).item cs k = .ok (cs.getD k 0) := by
  simp [exact, hk]

/-- One step shifts what has been read by one power and adds the next coefficient. -/
theorem hornerStep_exact (x r : R) {cs : List R} {k : ℕ} (hk : k < cs.length) :
    hornerStep (.exact R) x cs r k = .ok (r * x + cs.getD k 0) := by
  unfold hornerStep
  rw [Arithmetic.exact_item hk]
  rfl

/-- The steps over the first `n` coefficients, last one first, put them below what has been read. -/
theorem horner_exact (x r : R) {cs : List R} {n : ℕ} (hn : n ≤ cs.length) :
    (List.range n).reverse.foldlM (hornerStep (.exact R) x cs) r =
      .ok (r * x ^ n + ∑ k ∈ Finset.range n, cs.getD k 0 * x ^ k) := by
  induction n generalizing r with
  | zero => simp [pure, Except.pure]
  | succ n ih =>
    have hsplit : (r * x + cs.getD n 0) * x ^ n + ∑ k ∈ Finset.range n, cs.getD k 0 * x ^ k =
        r * x ^ (n + 1) + ∑ k ∈ Finset.range (n + 1), cs.getD k 0 * x ^ k := by
      rw [Finset.sum_range_succ]
      ring
    rw [List.range_succ, List.reverse_concat, List.foldlM_cons, hornerStep_exact x r hn]
    exact (ih _ (Nat.le_of_succ_le hn)).trans (congrArg _ hsplit)

theorem polynomial_exact_bind (x : R) (cs : List R) (m : ℕ) : polynomial (.exact R) x cs m =
    (List.range cs.length).reverse.foldlM (hornerStep (.exact R) x cs) (0 * x) >>= fun r =>
      if 0 < m then .ok (r * x ^ m + 1) else .ok r := by
  have hstart : polynomial (.exact R) x cs m =
      (List.range cs.length).reverse.foldlM (hornerStep (.exact R) x cs) (0 * x) >>= fun r =>
        if decide (0 < m) = true then .ok (r * x ^ m + 1) else .ok r := rfl
  simpa using hstart

/-- The polynomial is the sum of its coefficients times the powers from the lowest order on, with a
constant term one from the first power on. -/
theorem polynomial_exact (x : R) (cs : List R) (m : ℕ) : polynomial (.exact R) x cs m =
    .ok (∑ k : Fin cs.length, cs[k] * x ^ (k + m) + if 1 ≤ m then 1 else 0) := by
  have hloop := horner_exact x (0 * x) (Nat.le_refl cs.length)
  have hsum : ∑ k : Fin cs.length, cs[k] * x ^ (k + m) =
      (∑ k ∈ Finset.range cs.length, cs.getD k 0 * x ^ k) * x ^ m := by
    rw [Finset.sum_mul, Finset.sum_range]
    refine Finset.sum_congr rfl fun k _ => ?_
    simp [pow_add, mul_assoc]
  rw [zero_mul, zero_mul, zero_add] at hloop
  rw [hsum, polynomial_exact_bind, zero_mul, hloop]
  cases m with
  | zero => simp [bind, Except.bind]
  | succ m => simp [bind, Except.bind]

end FitCode.Numeric
