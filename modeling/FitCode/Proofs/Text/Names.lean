import FitCode.Text.Blank
import FitCode.Text.Word

/-! # Names in composed texts

A character that is neither part of a word nor a dot ends the name before it and leaves room for one
behind it. So the names of a text are those of its parts, wherever such a character stands between
them.
-/
namespace FitCode.Text

/-- Whether a character keeps the names on its two sides apart. -/
def isBreak (c : Char) : Bool := !isWord c && c != '.'

/-- The names in a list of characters. -/
def namesIn (cs : List Char) : List String := scanNames none true cs

theorem names_eq (text : String) : names text = namesIn text.toList := rfl

theorem isWord_of_isNameStart {c : Char} (h : isNameStart c = true) : isWord c = true := by
  have hc : c.toNat < 128 := by
    delta isNameStart Char.isAlpha Char.isUpper Char.isLower at h
    simp only [Bool.or_eq_true, Bool.and_eq_true, decide_eq_true_eq, beq_iff_eq] at h
    rcases h with (h | h) | rfl
    · exact Nat.lt_of_le_of_lt (UInt32.le_iff_toNat_le.mp h.2) (by decide)
    · exact Nat.lt_of_le_of_lt (UInt32.le_iff_toNat_le.mp h.2) (by decide)
    · decide
  simp only [isNameStart, Bool.or_eq_true] at h
  simp only [isWord, if_pos hc, Char.isAlphanum, Bool.or_eq_true]
  rcases h with h | h
  · exact .inl (.inl h)
  · exact .inr h

theorem isBreak_iff {c : Char} : isBreak c = true ↔ isWord c = false ∧ c ≠ '.' := by
  simp [isBreak]

theorem scanNames_append_break (word : Option (List Char)) (free : Bool) (as bs : List Char)
    {c : Char} (hc : isBreak c = true) :
    scanNames word free (as ++ c :: bs) = scanNames word free as ++ namesIn bs := by
  obtain ⟨hw,hd⟩ := isBreak_iff.mp hc
  have hd : (c != '.') = true := bne_iff_ne.mpr hd
  induction as generalizing word free with
  | nil =>
    cases word with
    | none =>
      have hs : isNameStart c = false := by
        cases h : isNameStart c with
        | false => rfl
        | true => rw [isWord_of_isNameStart h] at hw; cases hw
      simp [scanNames, namesIn, hs, hw, hd]
    | some w => simp [scanNames, namesIn, hw, hd]
  | cons a as ih =>
    cases word with
    | none =>
      simp only [List.cons_append, scanNames]
      split <;> exact ih ..
    | some w =>
      simp only [List.cons_append, scanNames]
      split
      · exact ih ..
      · rw [ih, List.cons_append]

/-- The names on the two sides of a break are found independently. -/
theorem namesIn_append_break (as bs : List Char) {c : Char} (hc : isBreak c = true) :
    namesIn (as ++ c :: bs) = namesIn as ++ namesIn bs :=
  scanNames_append_break none true as bs hc

theorem namesIn_cons_break (bs : List Char) {c : Char} (hc : isBreak c = true) :
    namesIn (c :: bs) = namesIn bs := namesIn_append_break [] bs hc

theorem namesIn_append_of_breaks (as bs : List Char) (hb : ∀ c ∈ bs, isBreak c = true) :
    namesIn (as ++ bs) = namesIn as := by
  induction bs generalizing as with
  | nil => simp
  | cons b bs ih =>
    rw [namesIn_append_break as bs (hb b (by simp)), ← List.nil_append bs,
      ih [] (fun c hc => hb c (by simp [hc]))]
    exact List.append_nil _

theorem namesIn_breaks_append (as bs : List Char) (ha : ∀ c ∈ as, isBreak c = true) :
    namesIn (as ++ bs) = namesIn bs := by
  induction as with
  | nil => rfl
  | cons a as ih =>
    rw [List.cons_append, namesIn_cons_break _ (ha a (by simp)), ih fun c hc => ha c (by simp [hc])]

/-- A list of texts with breaks between them has the names of the texts. -/
theorem namesIn_intercalate {sep : List Char} (hs : sep ≠ []) (hb : ∀ c ∈ sep, isBreak c = true)
    (ls : List (List Char)) : namesIn (sep.intercalate ls) = ls.flatMap namesIn := by
  obtain ⟨c,sep,rfl⟩ := List.exists_cons_of_ne_nil hs
  induction ls with
  | nil => rfl
  | cons l ls ih =>
    cases ls with
    | nil => simp [List.intercalate]
    | cons l' ls =>
      rw [List.intercalate_cons_cons, List.append_assoc, List.cons_append,
        namesIn_append_break _ _ (hb c (by simp)),
        namesIn_breaks_append _ _ (fun d hd => hb d (by simp [hd])), ih]
      rfl

theorem scanNames_word (w : List Char) (free : Bool) (cs : List Char)
    (hc : ∀ c ∈ cs, isWord c = true) :
    scanNames (some w) free cs = [String.ofList (w.reverse ++ cs)] := by
  induction cs generalizing w with
  | nil => simp [scanNames]
  | cons c cs ih =>
    rw [scanNames, if_pos (hc c (by simp)), ih (c :: w) (fun d hd => hc d (by simp [hd]))]
    simp

theorem namesIn_word {c : Char} {cs : List Char} (hs : isNameStart c = true)
    (hc : ∀ d ∈ cs, isWord d = true) : namesIn (c :: cs) = [String.ofList (c :: cs)] := by
  rw [namesIn, scanNames, if_pos (by simp [hs]), scanNames_word [c] true cs hc]
  rfl

theorem scanNames_head {word : Option (List Char)} {free : Bool} {cs : List Char} {n : String}
    (hn : n ∈ scanNames word free cs) (hw : ∀ w, word = some w → w ≠ []) :
    (∃ w, word = some w ∧ n.toList.head? = w.getLast?) ∨
      ∃ c ∈ cs, isNameStart c = true ∧ n.toList.head? = some c := by
  induction cs generalizing word free with
  | nil =>
    cases word with
    | none => simp [scanNames] at hn
    | some w =>
      simp only [scanNames, List.mem_singleton] at hn
      subst hn
      exact .inl ⟨w,rfl,by simp⟩
  | cons c cs ih =>
    cases word with
    | none =>
      simp only [scanNames] at hn
      split at hn
      · rename_i hs
        simp only [Bool.and_eq_true] at hs
        rcases ih hn (by simp) with ⟨w,hw,hh⟩ | ⟨d,hd,hds,hh⟩
        · cases hw
          exact .inr ⟨c,by simp,hs.2,by simpa using hh⟩
        · exact .inr ⟨d,by simp [hd],hds,hh⟩
      · rcases ih hn (by simp) with ⟨w,hw,_⟩ | ⟨d,hd,hds,hh⟩
        · cases hw
        · exact .inr ⟨d,by simp [hd],hds,hh⟩
    | some w =>
      have hne := hw w rfl
      simp only [scanNames] at hn
      split at hn
      · rcases ih hn (by simp) with ⟨v,hv,hh⟩ | ⟨d,hd,hds,hh⟩
        · cases hv
          refine .inl ⟨w,rfl,?_⟩
          rw [hh, List.getLast?_cons_of_ne_nil hne]
        · exact .inr ⟨d,by simp [hd],hds,hh⟩
      · rcases List.mem_cons.mp hn with rfl | hn
        · exact .inl ⟨w,rfl,by simp⟩
        · rcases ih hn (by simp) with ⟨v,hv,_⟩ | ⟨d,hd,hds,hh⟩
          · cases hv
          · exact .inr ⟨d,by simp [hd],hds,hh⟩

theorem exists_mem_of_mem_namesIn {cs : List Char} {n : String} (hn : n ∈ namesIn cs) :
    ∃ c ∈ cs, isNameStart c = true ∧ n.toList.head? = some c := by
  rcases scanNames_head hn (by simp) with ⟨w,hw,_⟩ | h
  · cases hw
  · exact h

theorem namesIn_eq_nil {cs : List Char} (h : ∀ c ∈ cs, isNameStart c = false) :
    namesIn cs = [] := by
  apply List.eq_nil_iff_forall_not_mem.mpr
  intro n hn
  obtain ⟨c,hc,hs,_⟩ := exists_mem_of_mem_namesIn hn
  rw [h c hc] at hs
  cases hs

theorem isNameStart_digit {c : Char} (h : c.isDigit = true) : isNameStart c = false := by
  simp only [Char.isDigit, Bool.and_eq_true, decide_eq_true_eq, UInt32.le_iff_toNat_le,
    ge_iff_le] at h
  have h9 : '9'.val.toNat = 57 := rfl
  cases hs : isNameStart c with
  | false => rfl
  | true =>
    delta isNameStart Char.isAlpha Char.isUpper Char.isLower at hs
    simp only [Bool.or_eq_true, Bool.and_eq_true, decide_eq_true_eq, UInt32.le_iff_toNat_le, ge_iff_le,
      beq_iff_eq] at hs
    have hA : 'A'.val.toNat = 65 := rfl
    have ha : 'a'.val.toNat = 97 := rfl
    rcases hs with (hs | hs) | rfl
    · omega
    · omega
    · have h_ : '_'.val.toNat = 95 := rfl
      omega

theorem isWord_digit {c : Char} (h : c.isDigit = true) : isWord c = true := by
  have hc : c.toNat < 128 := by
    simp only [Char.isDigit, Bool.and_eq_true, decide_eq_true_eq, UInt32.le_iff_toNat_le,
      ge_iff_le] at h
    have h9 : '9'.val.toNat = 57 := rfl
    have hv : c.toNat = c.val.toNat := rfl
    omega
  rw [isWord, if_pos hc, Char.isAlphanum, h]
  simp

theorem toList_toString_nat (n : Nat) : (toString n).toList = Nat.toDigits 10 n := by
  rw [Nat.toString_eq_repr, Nat.toList_repr]

theorem isDigit_toString {n : Nat} {c : Char} (h : c ∈ (toString n).toList) :
    c.isDigit = true := by
  rw [toList_toString_nat] at h
  exact Nat.isDigit_of_mem_toDigits (by decide) (by decide) h

theorem namesIn_toString_nat (n : Nat) : namesIn (toString n).toList = [] :=
  namesIn_eq_nil fun _ hc => isNameStart_digit (isDigit_toString hc)

end FitCode.Text
