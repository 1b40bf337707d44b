import FitCode.Proofs.Lowering.Naming
import Mathlib.Order.Bounds.Defs

/-! # The first free number

A fresh name is searched for by counting up from a counter until a name is free. Nothing in the search
bounds the number of tries, so that it ends is a statement of its own: whatever names are taken, there is
a run of it, and it stops at the least free number.
-/
namespace FitCode

open Emit

/-- The search for a free number from `k` on, with as many tries as it takes, ends at `j`. -/
inductive Searches (stem : String) (taken : List String) : Nat → Nat → Prop
  | found {k : Nat} (h : numbered stem k ∉ taken) : Searches stem taken k k
  | next {k j : Nat} (h : numbered stem k ∈ taken) (hs : Searches stem taken (k + 1) j) :
    Searches stem taken k j

namespace Searches

variable {stem : String} {taken : List String} {k j : Nat}

theorem isLeast (h : Searches stem taken k j) :
    IsLeast {i | k ≤ i ∧ numbered stem i ∉ taken} j := by
  induction h with
  | found h => exact ⟨⟨Nat.le_refl _,h⟩,fun _ hi => hi.1⟩
  | @next k j h _ ih =>
    obtain ⟨⟨hle,hfree⟩,hlower⟩ := ih
    refine ⟨⟨Nat.le_of_succ_le hle,hfree⟩,fun i hi => hlower ⟨?_,hi.2⟩⟩
    -- The number itself is taken, so a free one from it on is a free one behind it.
    have hne : k ≠ i := by
      rintro rfl
      exact hi.2 h
    exact Nat.lt_of_le_of_ne hi.1 hne

/-- A bounded search that has found a free number has done what the search does. -/
theorem firstFree {steps : Nat} (h : numbered stem (firstFree stem taken steps k) ∉ taken) :
    Searches stem taken k (firstFree stem taken steps k) := by
  induction steps generalizing k with
  | zero => exact .found h
  | succ steps ih =>
    rw [FitCode.firstFree] at h ⊢
    by_cases hk : numbered stem k ∈ taken
    · rw [if_pos (by simpa using hk)] at h ⊢
      exact .next hk (ih h)
    · rw [if_neg (by simpa using hk)]
      exact .found hk

end Searches

namespace Draft

theorem searches_freeNumber (c : Draft) (stem : String) (k : Nat) :
    Searches stem c.taken k (c.freeNumber stem k) := .firstFree (firstFree_free k)

theorem arrayCount_introduce (c : Draft) (o : Options) (name statement : String) (d : Nat) :
    (c.introduce o name statement d).arrayCount = c.arrayCount := by
  simp only [introduce, queueAt]
  generalize (if o.hoist = true then d else c.depth) = D
  split
  · rfl
  · split <;> rfl

end Draft

namespace Setting

theorem gives_introduceArray_fresh (s : Setting) (c : Draft) (id : Identity) (texts : List String)
    {given : Option String} (h : explicitName given = none) :
    (s.introduceArray id texts given).Gives c (c.freshArray s.options).1
      ((c.freshArray s.options).2.bindArray s.options id (c.freshArray s.options).1 (arrayCode texts)) := by
  unfold introduceArray
  rw [gives_get_bind, h]
  rfl

/-- A fresh name, of a temporary or of an array, has the least number from its counter on whose name is not
taken, and the counter goes on behind it. -/
theorem mint_least (s : Setting) (c : Draft) :
    (∃ k c', s.freshTemp.Gives c (numbered s.options.tempStem k) c' ∧
      Searches s.options.tempStem c.taken c.tempCount k ∧
      IsLeast {j | c.tempCount ≤ j ∧ numbered s.options.tempStem j ∉ c.taken} k ∧
      c'.tempCount = k + 1) ∧
    ∀ id texts given, explicitName given = none → ∃ k c',
      (s.introduceArray id texts given).Gives c (numbered s.options.arrayStem k) c' ∧
      Searches s.options.arrayStem c.taken c.arrayCount k ∧
      IsLeast {j | c.arrayCount ≤ j ∧ numbered s.options.arrayStem j ∉ c.taken} k ∧
      c'.arrayCount = k + 1 := by
  constructor
  · have hs := c.searches_freeNumber s.options.tempStem c.tempCount
    exact ⟨_,(c.freshTemp s.options).2,rfl,hs,hs.isLeast,rfl⟩
  · intro id texts given hgiven
    have hs := c.searches_freeNumber s.options.arrayStem c.arrayCount
    refine ⟨_,_,s.gives_introduceArray_fresh c id texts hgiven,hs,hs.isLeast,?_⟩
    exact Draft.arrayCount_introduce ..

/-- A draft in which the first temporary and the first array would clash with names that were given. -/
def withGivenNames : Draft := scaledSum.reach 4
  [.bindTemp (.object 1) "1" (some "t0"), .bindTemp (.object 1) "1" (some "arr0")]

theorem mint_least_scaledSum : explicitName (some "") = none ∧
    ∃ c', (scaledSum.introduceArray ⟨4, "c"⟩ [] (some "")).Gives withGivenNames "arr1" c' ∧
      c'.arrayCount = 2 := by
  have hnone : explicitName (some "") = none := by decide
  have htaken : withGivenNames.taken = ["arr0", "t0"] := by decide +kernel
  have hcount : withGivenNames.arrayCount = 0 := by decide +kernel
  obtain ⟨k,c',hgives,_,⟨⟨_,hfree⟩,hleast⟩,hnext⟩ :=
    (mint_least scaledSum withGivenNames).2 ⟨4, "c"⟩ [] (some "") hnone
  have hle : k ≤ 1 := hleast ⟨by omega,by rw [htaken]; decide⟩
  have hne : k ≠ 0 := by
    rintro rfl
    exact hfree (by rw [htaken]; decide)
  obtain rfl : k = 1 := by omega
  exact ⟨hnone,c',hgives,hnext⟩

end Setting

end FitCode
