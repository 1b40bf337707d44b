import FitCode.Datum
import FitCode.Proofs.Text.Names

/-! # Characters of number texts -/
namespace FitCode.Decimal

/-- The characters that texts of finite numbers are made of. -/
def isNumeral (c : Char) : Bool :=
  c.isDigit || c == '.' || c == '-' || c == '+' || c == 'e'

theorem isNumeral_of_isDigit {c : Char} (h : c.isDigit = true) : isNumeral c = true := by
  simp [isNumeral, h]

theorem isNumeral_digitsOf {n : Nat} {c : Char} (h : c ∈ digitsOf n) : isNumeral c = true :=
  isNumeral_of_isDigit (Nat.isDigit_of_mem_toDigits (by decide) (by decide) h)

theorem isNumeral_replicate {n : Nat} {c : Char} (h : c ∈ List.replicate n '0') :
    isNumeral c = true := by
  rw [List.eq_of_mem_replicate h]
  decide

theorem isNumeral_exponentText {e : Int} {c : Char} (h : c ∈ exponentText e) :
    isNumeral c = true := by
  simp only [exponentText, List.cons_append, List.mem_cons, List.mem_append] at h
  rcases h with rfl | rfl | h | h
  · decide
  · split <;> decide
  · exact isNumeral_replicate h
  · exact isNumeral_digitsOf h

theorem isNumeral_positional {ds : List Char} (hds : ∀ c ∈ ds, isNumeral c = true) {point : Int}
    {c : Char} (h : c ∈ positional ds point) : isNumeral c = true := by
  unfold positional at h
  split at h
  · simp only [List.cons_append, List.mem_cons, List.mem_append] at h
    rcases h with rfl | rfl | h | h
    · decide
    · decide
    · exact isNumeral_replicate h
    · exact hds c h
  · dsimp only at h
    split at h
    · simp only [List.mem_append, List.mem_cons, List.not_mem_nil, or_false] at h
      rcases h with (h | h) | rfl | rfl
      · exact hds c h
      · exact isNumeral_replicate h
      · decide
      · decide
    · simp only [List.mem_append, List.mem_cons] at h
      rcases h with h | rfl | h
      · exact hds c (List.mem_of_mem_take h)
      · decide
      · exact hds c (List.mem_of_mem_drop h)

theorem isNumeral_writeShortest {d : Scaled} {c : Char} (h : c ∈ writeShortest d) :
    isNumeral c = true := by
  have hds : ∀ c ∈ ((digitsOf d.digits).reverse.dropWhile (· == '0')).reverse,
      isNumeral c = true := by
    intro c hc
    have hc := (List.dropWhile_sublist _).subset (List.mem_reverse.mp hc)
    exact isNumeral_digitsOf (List.mem_reverse.mp hc)
  unfold writeShortest at h
  dsimp only at h
  split at h
  · exact isNumeral_positional hds h
  · rcases List.mem_append.mp h with h | h
    · split at h
      · rename_i a b ds heq
        rw [heq] at hds
        simp only [List.mem_cons] at h
        rcases h with rfl | rfl | rfl | h
        · exact hds _ (by simp)
        · decide
        · exact hds _ (by simp)
        · exact hds _ (by simp [h])
      · exact hds c h
    · exact isNumeral_exponentText h

theorem isNumeral_signText {negative : Bool} {cs : List Char}
    (hcs : ∀ c ∈ cs, isNumeral c = true) {c : Char} (h : c ∈ signText negative cs) :
    isNumeral c = true := by
  cases negative with
  | false => exact hcs c h
  | true =>
    rcases List.mem_cons.mp h with rfl | h
    · decide
    · exact hcs c h

/-- The text of a finite number consists of digits, signs, points and exponent marks. -/
theorem isNumeral_shortText {x : Float} {negative : Bool} {m : Nat} {q : Int}
    (hx : read x = .finite negative m q) {c : Char} (h : c ∈ (shortText x).toList) :
    isNumeral c = true := by
  rw [shortText, BinaryFormat.text, hx, String.toList_ofList] at h
  refine isNumeral_signText (fun d hd => ?_) h
  dsimp only at hd
  split at hd
  · simp only [List.mem_cons, List.not_mem_nil, or_false] at hd
    rcases hd with rfl | rfl | rfl <;> decide
  · exact isNumeral_writeShortest hd

end FitCode.Decimal

namespace FitCode.Datum

open Text

/-- The only names in the code of a number are `np` and such that start with an `e`. -/
theorem names_floatCode {x : Float} {n : String} (h : n ∈ namesIn (floatCode x).toList) :
    n = "np" ∨ n.toList.head? = some 'e' := by
  unfold floatCode at h
  split at h
  · have hn : namesIn "np.nan".toList = ["np"] := by decide
    rw [hn] at h
    exact .inl (List.mem_singleton.mp h)
  · rename_i negative _
    have hp : namesIn "np.inf".toList = ["np"] := by decide
    have hm : namesIn "-np.inf".toList = ["np"] := by decide
    cases negative with
    | false => rw [if_neg (by decide), hp] at h; exact .inl (List.mem_singleton.mp h)
    | true => rw [if_pos rfl, hm] at h; exact .inl (List.mem_singleton.mp h)
  · rename_i hx
    obtain ⟨c,hc,hs,hh⟩ := exists_mem_of_mem_namesIn h
    have hn := Decimal.isNumeral_shortText hx hc
    right
    rw [hh]
    simp only [Decimal.isNumeral, Bool.or_eq_true, beq_iff_eq] at hn
    rcases hn with (((hd | rfl) | rfl) | rfl) | rfl
    · rw [isNameStart_digit hd] at hs
      cases hs
    · cases hs
    · cases hs
    · cases hs
    · rfl

end FitCode.Datum
