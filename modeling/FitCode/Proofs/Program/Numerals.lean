import FitCode.Program.Literal
import Mathlib.Data.List.TakeDrop
import Mathlib.Data.List.TakeWhile
import Mathlib.Data.Nat.Digits.Defs
import Mathlib.Tactic.IntervalCases

/-! # Reading back numerals

A numeral of decimal digits, with or without a fraction and an exponent, is read as one token up to its
end, if what follows does not continue it.
-/
namespace FitCode.Program

open FitCode.Text

/-- What holds of each character of a list is checked one by one. -/
theorem forall_of_all {cs : List Char} {P : Char → Prop} [DecidablePred P]
    (h : (cs.all fun c => decide (P c)) = true) : ∀ c ∈ cs, P c :=
  fun c hc => of_decide_eq_true (List.all_eq_true.mp h c hc)

/-- A numeral: its whole digits, the digits behind its point and those of its exponent with their
sign. -/
structure Numeral where
  whole : List Char
  fraction : Option (List Char) := none
  exponent : Option (List Char × List Char) := none

namespace Numeral

/-- The characters of an exponent. -/
def exponentChars (e : List Char × List Char) : List Char := 'e' :: (e.1 ++ e.2)

def chars (m : Numeral) : List Char :=
  m.whole ++ (m.fraction.elim [] ('.' :: ·) ++ m.exponent.elim [] exponentChars)

/-- Digits where digits have to be. -/
structure Valid (m : Numeral) : Prop where
  whole : ∀ c ∈ m.whole, isDigit c = true
  nonempty : m.whole ≠ []
  fraction : ∀ ds ∈ m.fraction, ∀ c ∈ ds, isDigit c = true
  signs : ∀ e ∈ m.exponent, e.1 = [] ∨ e.1 = ['-'] ∨ e.1 = ['+']
  powers : ∀ e ∈ m.exponent, e.2 ≠ [] ∧ ∀ c ∈ e.2, isDigit c = true

def exponentValue (e : List Char × List Char) : Int :=
  let n := (natOfDigits? e.2).getD 0
  if e.1 = ['-'] then -(n : Int) else n

/-- The number with a fraction or an exponent. -/
def float (m : Numeral) : Float :=
  let places := m.fraction.getD []
  Decimal.ofScientific false (ofDigits ((m.whole ++ places).map fun c => c.toNat - 48))
    ((m.exponent.map exponentValue).getD 0 - places.length)

/-- The token that a numeral is. -/
def token? (m : Numeral) : Option Token :=
  if m.fraction.isSome || m.exponent.isSome then some (.float m.float) else wholeNumber? m.whole

end Numeral

/-- Whether a character ends a number or a name before it. -/
def isStop (c : Char) : Bool := !isWordChar c && c != '.' && c != '"' && c != '\''

/-- What follows a number or a name without continuing it. -/
def Stops (rest : List Char) : Prop := ∀ c ∈ rest.head?, isStop c = true

theorem isWordChar_of_isDigit {c : Char} (h : isDigit c = true) : isWordChar c = true := by
  have hd : c.isDigit = true := by
    simp only [isDigit, Bool.and_eq_true, decide_eq_true_eq] at h
    simp only [Char.isDigit, Bool.and_eq_true, decide_eq_true_eq]
    exact ⟨UInt32.le_iff_toNat_le.mpr h.1,UInt32.le_iff_toNat_le.mpr h.2⟩
  simp [isWordChar, Char.isAlphanum, hd]

theorem not_digit_of_isStop {c : Char} (h : isStop c = true) : isDigit c = false ∧ c ≠ '_' := by
  simp only [isStop, Bool.and_eq_true, Bool.not_eq_true'] at h
  constructor
  · cases hd : isDigit c with
    | false => rfl
    | true => rw [isWordChar_of_isDigit hd] at h; cases h.1.1.1
  · rintro rfl
    have hw : isWordChar '_' = true := by decide
    rw [hw] at h
    cases h.1.1.1

theorem endsNumber_of_stops {rest : List Char} (h : Stops rest) : endsNumber rest = true := by
  cases rest with
  | nil => rfl
  | cons c rest =>
    have hc := h c rfl
    have hw : isWordChar c = false := by
      simp only [isStop, Bool.and_eq_true, Bool.not_eq_true'] at hc
      exact hc.1.1.1
    have hi : c ≠ 'i' := by
      rintro rfl
      cases hw
    unfold endsNumber
    split
    · rfl
    · rename_i heq
      exact absurd (List.cons.inj heq).1 hi
    · rename_i heq
      rw [← (List.cons.inj heq).1, hw]
      rfl

section Digits

variable {ds rest : List Char}

theorem digitRun_append (hd : ∀ c ∈ ds, isDigit c = true)
    (hr : ∀ c ∈ rest.head?, isDigit c = false ∧ c ≠ '_') :
    digitRun isDigit (ds ++ rest) = (ds, rest) := by
  have hp : ∀ c ∈ ds, (isDigit c || c == '_') = true := fun c hc => by simp [hd c hc]
  rw [digitRun, List.span_eq_takeWhile_dropWhile, List.takeWhile_append_of_pos hp,
    List.dropWhile_append_of_pos hp]
  cases rest with
  | nil => simp
  | cons c rest =>
    have hc := hr c rfl
    simp [hc.1, hc.2]

theorem joinGroups_digits (afterDigit : Bool) (hd : ∀ c ∈ ds, isDigit c = true)
    (hne : afterDigit = true ∨ ds ≠ []) : joinGroups afterDigit ds = some ds := by
  induction ds generalizing afterDigit with
  | nil => simpa [joinGroups] using hne
  | cons c ds ih =>
    have hc : c ≠ '_' := by
      rintro rfl
      have := hd '_' (by simp)
      cases this
    simp [joinGroups, hc, ih true (fun d h => hd d (by simp [h])) (.inl rfl)]

theorem digitValue_of_isDigit {c : Char} (h : isDigit c = true) :
    digitValue? c = some (c.toNat - 48) := by
  simp only [isDigit, Bool.and_eq_true, decide_eq_true_eq] at h
  have h48 : (48 ≤ c.toNat && c.toNat < 48 + 10) = true := by
    simp only [Bool.and_eq_true, decide_eq_true_eq]
    omega
  simp only [digitValue?, zeros, List.find?_cons, h48, Option.map_some]

theorem natOfDigits_digits (hd : ∀ c ∈ ds, isDigit c = true) (hne : ds ≠ []) :
    natOfDigits? ds = some (ofDigits (ds.map fun c => c.toNat - 48)) := by
  have hmap : ds.mapM digitValue? = some (ds.map fun c => c.toNat - 48) := by
    clear hne
    induction ds with
    | nil => rfl
    | cons c ds ih =>
      rw [List.mapM_cons, digitValue_of_isDigit (hd c (by simp)), ih fun d h => hd d (by simp [h])]
      rfl
  rw [natOfDigits?, if_neg (by simpa using hne), hmap]
  rfl

end Digits

section Exponents

variable {rest : List Char}

theorem ne_of_isStop {c d : Char} (hc : isStop c = true) (hd : isStop d = false) : c ≠ d := by
  rintro rfl
  rw [hc] at hd
  cases hd

theorem exponent_none (hr : Stops rest) : exponent? rest = some (none, rest) := by
  cases rest with
  | nil => rfl
  | cons c rest =>
    have he : c ≠ 'e' := ne_of_isStop (hr c rfl) (by decide)
    have hE : c ≠ 'E' := ne_of_isStop (hr c rfl) (by decide)
    simp [exponent?, he, hE]

theorem splitSign_append {s cs : List Char} (hs : s = [] ∨ s = ['-'] ∨ s = ['+'])
    (hc : ∀ c ∈ cs.head?, isDigit c = true) : Decimal.splitSign (s ++ cs) = (decide (s = ['-']), cs) := by
  rcases hs with rfl | rfl | rfl
  · cases cs with
    | nil => rfl
    | cons c cs =>
      have hd := hc c rfl
      simp only [List.nil_append]
      unfold Decimal.splitSign
      split
      · rename_i heq
        rw [(List.cons.inj heq).1] at hd
        cases hd
      · rename_i heq
        rw [(List.cons.inj heq).1] at hd
        cases hd
      · rfl
  · rfl
  · rfl

theorem exponent_some {s ds : List Char} (hs : s = [] ∨ s = ['-'] ∨ s = ['+']) (hne : ds ≠ [])
    (hd : ∀ c ∈ ds, isDigit c = true) (hr : Stops rest) :
    exponent? (Numeral.exponentChars (s, ds) ++ rest) =
      some (some (Numeral.exponentValue (s, ds)), rest) := by
  have hhead : ∃ c, (ds ++ rest).head? = some c ∧ isDigit c = true := by
    obtain ⟨c,cs,rfl⟩ := List.exists_cons_of_ne_nil hne
    exact ⟨c,rfl,hd c (by simp)⟩
  obtain ⟨c,hc,hdigit⟩ := hhead
  have hsplit : Decimal.splitSign (s ++ (ds ++ rest)) = (decide (s = ['-']), ds ++ rest) := by
    refine splitSign_append hs fun d hd' => ?_
    rw [hc] at hd'
    cases hd'
    exact hdigit
  have hrun := digitRun_append hd fun d hd => not_digit_of_isStop (hr d hd)
  simp only [exponent?, Numeral.exponentChars, List.cons_append, List.append_assoc, hsplit, hc, hrun,
    Option.any_some, hdigit, if_true, joinGroups_digits false hd (.inr hne), Option.bind_some,
    natOfDigits_digits hd hne, Numeral.exponentValue, Option.getD_some]
  simp

end Exponents

/-- Only a base mark behind a zero makes a number other than a decimal one. -/
theorem number_eq_decimal {cs : List Char}
    (h : ∀ c ∈ cs.tail.head?, c ∉ ['x', 'X', 'o', 'O', 'b', 'B']) : number? cs = decimalNumber? cs := by
  unfold number?
  split
  · rename_i c cs
    have hc := h c rfl
    simp only [List.mem_cons, List.not_mem_nil, or_false, not_or] at hc
    simp [hc]
  · rfl

namespace Numeral

variable {m : Numeral} {rest : List Char}

theorem mem_chars (hm : m.Valid) {c : Char} (hc : c ∈ m.chars) :
    isDigit c = true ∨ c ∈ ['.', 'e', '-', '+'] := by
  rcases List.mem_append.mp hc with hc | hc
  · exact .inl (hm.whole c hc)
  · rcases List.mem_append.mp hc with hc | hc
    · cases hf : m.fraction with
      | none => simp [hf] at hc
      | some ds =>
        rw [hf] at hc
        rcases List.mem_cons.mp hc with rfl | hc
        · exact .inr (by decide)
        · exact .inl (hm.fraction ds hf c hc)
    · cases he : m.exponent with
      | none => simp [he] at hc
      | some e =>
        rw [he] at hc
        rcases List.mem_cons.mp hc with rfl | hc
        · exact .inr (by decide)
        · rcases List.mem_append.mp hc with hc | hc
          · rcases hm.signs e he with hs | hs | hs
            · simp [hs] at hc
            · simp [hs] at hc; simp [hc]
            · simp [hs] at hc; simp [hc]
          · exact .inl ((hm.powers e he).2 c hc)

/-- What stands behind the whole digits. -/
def tail (m : Numeral) (rest : List Char) : List Char :=
  m.fraction.elim [] ('.' :: ·) ++ (m.exponent.elim [] exponentChars ++ rest)

theorem chars_append (m : Numeral) (rest : List Char) : m.chars ++ rest = m.whole ++ m.tail rest := by
  simp [chars, tail]

theorem exponent_eq (hm : m.Valid) (hr : Stops rest) :
    exponent? (m.exponent.elim [] exponentChars ++ rest) = some (m.exponent.map exponentValue, rest) := by
  cases he : m.exponent with
  | none => exact exponent_none hr
  | some e => exact exponent_some (hm.signs e he) (hm.powers e he).1 (hm.powers e he).2 hr

/-- Neither an exponent nor what follows the numeral starts like a digit or a point. -/
theorem head_exponent (hr : Stops rest) {c : Char}
    (hc : c ∈ (m.exponent.elim [] exponentChars ++ rest).head?) :
    isDigit c = false ∧ c ≠ '_' ∧ c ≠ '.' ∧ c ∉ ['x', 'X', 'o', 'O', 'b', 'B'] := by
  cases he : m.exponent with
  | none =>
    rw [he] at hc
    have hstop := hr c hc
    obtain ⟨hd,hu⟩ := not_digit_of_isStop hstop
    refine ⟨hd,hu,ne_of_isStop hstop (by decide),fun hmem => ?_⟩
    have hall : ∀ d ∈ ['x', 'X', 'o', 'O', 'b', 'B'], isStop d = false := forall_of_all (by decide)
    rw [hall c hmem] at hstop
    cases hstop
  | some e =>
    rw [he] at hc
    cases hc
    decide

theorem head_tail (hr : Stops rest) {c : Char} (hc : c ∈ (m.tail rest).head?) :
    isDigit c = false ∧ c ≠ '_' ∧ c ∉ ['x', 'X', 'o', 'O', 'b', 'B'] := by
  rw [tail] at hc
  cases hf : m.fraction with
  | none =>
    rw [hf] at hc
    obtain ⟨hd,hu,_,hb⟩ := head_exponent (m := m) hr hc
    exact ⟨hd,hu,hb⟩
  | some ds =>
    rw [hf] at hc
    cases hc
    decide

theorem ending_eq {t : Token} (hr : Stops rest) (ht : m.token? = some t) :
    decimalNumber?.ending m.whole m.fraction (m.exponent.map exponentValue) rest = some (t, rest) := by
  simp only [decimalNumber?.ending, endsNumber_of_stops hr, Option.isSome_map]
  rw [token?] at ht
  split at ht
  · rename_i h
    cases ht
    simp [h, float]
  · rename_i h
    simp [h, ht]

theorem not_mem_second (hm : m.Valid) (hr : Stops rest) {c : Char}
    (hc : c ∈ (m.whole ++ m.tail rest).tail.head?) : c ∉ ['x', 'X', 'o', 'O', 'b', 'B'] := by
  obtain ⟨d,ds,hds⟩ := List.exists_cons_of_ne_nil hm.nonempty
  rw [hds, List.cons_append, List.tail_cons] at hc
  cases ds with
  | nil => exact (head_tail hr hc).2.2
  | cons e ds =>
    cases hc
    have hdigit : isDigit c = true := hm.whole c (by simp [hds])
    intro hmem
    have hall : ∀ d ∈ ['x', 'X', 'o', 'O', 'b', 'B'], isDigit d = false :=
      forall_of_all (by decide)
    rw [hall c hmem] at hdigit
    cases hdigit

theorem number_chars (hm : m.Valid) (hr : Stops rest) {t : Token} (ht : m.token? = some t) :
    number? (m.chars ++ rest) = some (t, rest) := by
  have hrun : digitRun isDigit (m.whole ++ m.tail rest) = (m.whole, m.tail rest) :=
    digitRun_append hm.whole fun c hc => ⟨(head_tail hr hc).1,(head_tail hr hc).2.1⟩
  have hwhole : joinGroups false m.whole = some m.whole := joinGroups_digits false hm.whole (.inr hm.nonempty)
  have hempty : m.whole.isEmpty = false := by simpa using hm.nonempty
  have hend := ending_eq hr ht
  rw [chars_append, number_eq_decimal fun c hc => not_mem_second hm hr hc]
  simp only [decimalNumber?, hrun, hempty, hwhole, Bool.false_eq_true, if_false, bind, Option.bind_some]
  have hexp := exponent_eq hm hr
  have hj : ∀ c ∈ rest.head?, (c == 'j' || c == 'J') = false := by
    intro c hc
    simp [ne_of_isStop (hr c hc) (d := 'j') (by decide), ne_of_isStop (hr c hc) (d := 'J') (by decide)]
  cases hf : m.fraction with
  | none =>
    rw [hf] at hend
    have htail : m.tail rest = m.exponent.elim [] exponentChars ++ rest := by simp [tail, hf]
    rw [htail]
    split
    · rename_i r heq
      exact absurd rfl (head_exponent (m := m) (c := '.') hr (by rw [heq]; rfl)).2.2.1
    · simp only [hexp, Option.bind_some]
      cases rest with
      | nil => exact hend
      | cons c rest => simpa [hj c rfl] using hend
  | some ds =>
    rw [hf] at hend
    have htail : m.tail rest = '.' :: (ds ++ (m.exponent.elim [] exponentChars ++ rest)) := by
      simp [tail, hf]
    rw [htail]
    cases ds with
    | nil =>
      have hhead : ((m.exponent.elim [] exponentChars ++ rest).head?).any isDigit = false := by
        cases hc : (m.exponent.elim [] exponentChars ++ rest).head? with
        | none => rfl
        | some c => exact (head_exponent (m := m) hr hc).1
      simp only [List.nil_append, hhead, Bool.false_eq_true, if_false, Option.bind_some, hexp]
      cases rest with
      | nil => exact hend
      | cons c rest => simpa [hj c rfl] using hend
    | cons d ds =>
      have hds : ∀ c ∈ d :: ds, isDigit c = true := hm.fraction _ hf
      have hfrac := digitRun_append hds fun c hc =>
        ⟨(head_exponent (m := m) hr hc).1,(head_exponent (m := m) hr hc).2.1⟩
      have hany : ((d :: ds ++ (m.exponent.elim [] exponentChars ++ rest)).head?).any isDigit = true := by
        simp [hds d (by simp)]
      simp only [hany, if_true, hfrac, joinGroups_digits false hds (.inr (List.cons_ne_nil d ds)),
        Option.map_some, Option.bind_some, hexp]
      cases rest with
      | nil => exact hend
      | cons c rest => simpa [hj c rfl] using hend

end Numeral

section Naturals

theorem isDigit_of_char {c : Char} (h : c.isDigit = true) : isDigit c = true := by
  simp only [Char.isDigit, Bool.and_eq_true, decide_eq_true_eq] at h
  simp only [isDigit, Bool.and_eq_true, decide_eq_true_eq]
  exact ⟨UInt32.le_iff_toNat_le.mp h.1,UInt32.le_iff_toNat_le.mp h.2⟩

theorem isDigit_toDigits {n : Nat} {c : Char} (h : c ∈ Nat.toDigits 10 n) : isDigit c = true :=
  isDigit_of_char (Nat.isDigit_of_mem_toDigits (by decide) (by decide) h)

theorem ofDigits_toDigits (n : Nat) : ofDigits ((Nat.toDigits 10 n).map fun c => c.toNat - 48) = n := by
  have h := Nat.ofDigitChars_toDigits (b := 10) (n := n) (by decide) (by decide)
  rw [ofDigits, List.foldl_map]
  exact h

theorem head_toDigits {n : Nat} (hn : 0 < n) : (Nat.toDigits 10 n).head? ≠ some '0' := by
  induction n using Nat.strongRecOn with
  | _ n ih =>
    by_cases hlt : n < 10
    · rw [Nat.toDigits_of_lt_base hlt]
      interval_cases n <;> decide
    · have hdiv : 0 < n / 10 := by omega
      have hsplit := Nat.toDigits_append_toDigits (b := 10) (n := n / 10) (d := n % 10) (by decide) hdiv
        (by omega)
      rw [Nat.div_add_mod] at hsplit
      rw [← hsplit, List.head?_append]
      have hhead := ih (n / 10) (by omega) hdiv
      cases hd : (Nat.toDigits 10 (n / 10)).head? with
      | none => exact absurd (List.head?_eq_none_iff.mp hd) Nat.toDigits_ne_nil
      | some c =>
        rw [hd] at hhead
        exact hhead

/-- The numeral of a natural number. -/
def Numeral.ofNat (n : Nat) : Numeral := { whole := Nat.toDigits 10 n }

theorem Numeral.chars_ofNat (n : Nat) : (ofNat n).chars = (toString n).toList := by
  simp [chars, ofNat, Nat.toString_eq_repr, Nat.toList_repr]

theorem Numeral.valid_ofNat (n : Nat) : (ofNat n).Valid where
  whole := fun _ hc => isDigit_toDigits hc
  nonempty := Nat.toDigits_ne_nil
  fraction := by simp [ofNat]
  signs := by simp [ofNat]
  powers := by simp [ofNat]

theorem Numeral.token_ofNat {n : Nat} (hn : n < 10 ^ Decimal.maxDigits) :
    (ofNat n).token? = some (.int n) := by
  have hlen : ¬ Decimal.maxDigits < (Nat.toDigits 10 n).length :=
    Nat.not_lt.mpr (Nat.toDigits_length 10 n _ (by decide) hn)
  have hvalue := natOfDigits_digits (fun _ hc => isDigit_toDigits (n := n) hc) Nat.toDigits_ne_nil
  rw [ofDigits_toDigits] at hvalue
  show wholeNumber? (Nat.toDigits 10 n) = _
  rcases Nat.eq_zero_or_pos n with rfl | hpos
  · rfl
  · have hhead : ((Nat.toDigits 10 n).head? == some '0') = false := by simpa using head_toDigits hpos
    simp only [wholeNumber?, hhead, Bool.false_eq_true, if_false, hlen, hvalue, Option.map_some]

end Naturals

end FitCode.Program
