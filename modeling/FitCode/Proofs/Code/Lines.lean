import FitCode.Proofs.Code.Mention

/-! # Statements as lines

A statement without a newline that does not start with a blank is one line, at the depth it is
written at.
-/
namespace FitCode

open Text

namespace Text

theorem lines_of_not_mem {cs : List Char} (h : '\n' ∉ cs) : lines cs = [cs] := by
  induction cs with
  | nil => rfl
  | cons c cs ih =>
    have hc : (c == '\n') = false := by
      simp only [List.mem_cons, not_or] at h
      exact beq_false_of_ne (Ne.symm h.1)
    rw [lines, hc, ih (fun hm => h (by simp [hm]))]
    rfl

theorem lines_append_newline {as : List Char} (h : '\n' ∉ as) (bs : List Char) :
    lines (as ++ '\n' :: bs) = as :: lines bs := by
  induction as with
  | nil => simp [lines]
  | cons a as ih =>
    rw [List.mem_cons, not_or] at h
    simp [lines, Ne.symm h.1, ih h.2]

theorem trimEnd_of_not_mem {p : Char → Bool} {cs : List Char} (h : ∀ c ∈ cs, p c = false) :
    trimEnd p cs = cs := by
  have hd : cs.reverse.dropWhile p = cs.reverse := by
    cases hr : cs.reverse with
    | nil => rfl
    | cons c r =>
      have hc : p c = false := h c (List.mem_reverse.mp (by simp [hr]))
      simp [List.dropWhile, hc]
  rw [trimEnd, hd, List.reverse_reverse]

theorem dropMargin_of_not_mem {c : Char} {cs : List Char} (hc : isPad c = false)
    (h : '\n' ∉ c :: cs) : dropMargin (c :: cs) = c :: cs := by
  have hall : (c :: cs).all isPad = false := by simp [hc]
  have hown : (c :: cs).takeWhile isPad = [] := by simp [hc]
  rw [dropMargin, lines_of_not_mem h, dropMarginLines]
  simp [margin?, hall, hown, hc, joinLines]

end Text

theorem Line.ofSnippet_single {text : String} {c : Char} {cs : List Char} (ht : text.toList = c :: cs)
    (hc : isPad c = false) (h : '\n' ∉ text.toList) (depth : Nat) :
    Line.ofSnippet text depth = [Item.lineOf depth text] := by
  rw [ht] at h
  have hn : ∀ d ∈ c :: cs, (d == '\n') = false := fun d hd =>
    beq_false_of_ne fun he => h (he ▸ hd)
  have hdrop : (c :: cs).dropWhile (· == '\n') = c :: cs := by
    simp [List.dropWhile, hn c (by simp)]
  have hpad : (c == ' ') = false := by
    simp only [isPad, Bool.or_eq_false_iff] at hc
    exact hc.1
  rw [ofSnippet, ht, dropMargin_of_not_mem hc h, trimBoth, hdrop, trimEnd_of_not_mem hn,
    lines_of_not_mem h]
  simp [ofSnippetLine, Item.lineOf, ht, List.takeWhile, List.dropWhile, hpad]

theorem newline_not_mem_toString (n : Nat) : '\n' ∉ (toString n).toList := by
  intro h
  have := isDigit_toString h
  simp at this

theorem Var.newline_not_mem_text (x : Var) : '\n' ∉ x.text.toList :=
  fun h => absurd (isWord_of_mem_text h) (by decide)

theorem Operand.newline_not_mem_text (e : Operand) : '\n' ∉ e.text.toList := by
  cases e with
  | var x => exact x.newline_not_mem_text
  | parameter i => simpa [text] using newline_not_mem_toString i
  | column c => simpa [text] using newline_not_mem_toString c
  | first c => simpa [text] using newline_not_mem_toString c
  | entry c k =>
    have hc := newline_not_mem_toString c
    have hk := (Var.index k).newline_not_mem_text
    simp only [text, String.toList_append, List.mem_append, hc, hk, or_false]
    decide
  | literal x =>
    intro h
    rw [text, Datum.floatCode] at h
    split at h
    · simp at h
    · split at h <;> simp at h
    · rename_i hx
      exact absurd (Decimal.isNumeral_shortText hx h) (by decide)
  | whole n =>
    intro h
    rw [text, Int.toString_eq_repr, Int.repr_eq_if, ← Nat.toString_eq_repr,
      ← Nat.toString_eq_repr] at h
    split at h
    · exact newline_not_mem_toString _ h
    · rw [String.toList_append] at h
      rcases List.mem_append.mp h with h | h
      · simp at h
      · exact newline_not_mem_toString _ h

theorem mem_intercalate {sep : List Char} {ls : List (List Char)} {c : Char}
    (h : c ∈ sep.intercalate ls) : c ∈ sep ∨ ∃ l ∈ ls, c ∈ l := by
  induction ls with
  | nil => simp at h
  | cons l ls ih =>
    cases ls with
    | nil => exact .inr ⟨l,by simp,by simpa using h⟩
    | cons l' ls =>
      rw [List.intercalate_cons_cons, List.mem_append, List.mem_append] at h
      rcases h with (h | h) | h
      · exact .inr ⟨l,by simp,h⟩
      · exact .inl h
      · rcases ih h with h | ⟨m,hm,h⟩
        · exact .inl h
        · exact .inr ⟨m,by simp [hm],h⟩

theorem newline_not_mem_intercalate {sep : String} (hs : '\n' ∉ sep.toList) {ts : List String}
    (ht : ∀ t ∈ ts, '\n' ∉ t.toList) : '\n' ∉ (String.intercalate sep ts).toList := by
  rw [String.toList_intercalate]
  intro h
  rcases mem_intercalate h with h | ⟨l,hl,h⟩
  · exact hs h
  · obtain ⟨t,htm,rfl⟩ := List.mem_map.mp hl
    exact ht t htm h

theorem newline_not_mem_operands (sep : String) (hs : '\n' ∉ sep.toList) (xs : List Operand) :
    '\n' ∉ (String.intercalate sep (xs.map Operand.text)).toList := by
  refine newline_not_mem_intercalate hs fun t ht => ?_
  obtain ⟨x,_,rfl⟩ := List.mem_map.mp ht
  exact x.newline_not_mem_text

theorem Compound.newline_not_mem_text {e : Compound} (he : e.Proper) : '\n' ∉ e.text.toList := by
  cases e with
  | single x => exact x.newline_not_mem_text
  | sum xs => exact newline_not_mem_operands _ (by decide) xs
  | product xs =>
    refine newline_not_mem_intercalate (by decide) fun t ht => ?_
    obtain ⟨x,_,rfl⟩ := List.mem_map.mp ht
    simpa using x.newline_not_mem_text
  | filled o xs =>
    rw [text, String.toList_ofList]
    intro h
    rcases Outline.mem_fill h with h | ⟨l,hl,h⟩
    · exact he.1 h
    · obtain ⟨m,hm,rfl⟩ := List.mem_map.mp hl
      obtain ⟨x,_,rfl⟩ := List.mem_map.mp hm
      exact x.newline_not_mem_text (by simpa [Outline.parens] using h)
  | call f xs =>
    have hxs := newline_not_mem_operands ", " (by decide) xs
    have hf : '\n' ∉ f.name.toList := by cases f <;> decide
    simp only [text, String.toList_append, List.mem_append, hxs, hf, or_false, false_or]
    decide
  | array xs =>
    have hxs := newline_not_mem_operands ", " (by decide) xs
    rw [text]
    split
    · decide
    · simp only [String.toList_append, List.mem_append, hxs, or_false]
      decide

namespace Item

private theorem exists_head (x : Var) : ∃ c cs, x.text.toList = c :: cs ∧ isPad c = false := by
  rw [Var.toList_text, Var.toList_stem]
  cases x with
  | temp k => exact ⟨_,_,rfl,by decide⟩
  | array k => exact ⟨_,_,rfl,by decide⟩
  | index k => exact ⟨_,_,rfl,by decide⟩

theorem ofSnippet_statement (x : Var) (rest : String) (h : '\n' ∉ rest.toList) (depth : Nat) :
    Line.ofSnippet (x.text ++ rest) depth = [lineOf depth (x.text ++ rest)] := by
  obtain ⟨c,cs,hx,hc⟩ := exists_head x
  refine Line.ofSnippet_single (c := c) (by rw [String.toList_append, hx, List.cons_append]) hc ?_ _
  rw [String.toList_append, List.mem_append]
  exact not_or.mpr ⟨x.newline_not_mem_text,h⟩

theorem ofSnippet_assign (x : Var) {e : Compound} (he : e.Proper) (depth : Nat) :
    Line.ofSnippet (x.text ++ " = " ++ e.text) depth = lines depth (.assign x e) := by
  have h := ofSnippet_statement x (" = " ++ e.text)
    (by simpa using e.newline_not_mem_text he) depth
  rw [← String.append_assoc] at h
  exact h

theorem ofSnippet_update (x : Var) (log : Bool) (value : Operand) (depth : Nat) :
    Line.ofSnippet (updateText x log value) depth = lines depth (.update x log value) := by
  have hv := value.newline_not_mem_text
  cases log with
  | false =>
    have h := ofSnippet_statement x (" += " ++ value.text) (by simpa using hv) depth
    rw [← String.append_assoc] at h
    exact h
  | true =>
    have h := ofSnippet_statement x (" -= np.log(" ++ value.text ++ ")")
      (by simpa using hv) depth
    rw [← String.append_assoc, ← String.append_assoc] at h
    exact h

theorem ofSnippet_loop (k length depth : Nat) :
    Line.ofSnippet (loopText k length) depth = [lineOf depth (loopText k length)] := by
  have ht : (loopText k length).toList = 'f' :: ("or ".toList ++ ((Var.index k).text.toList ++
      (" in range(".toList ++ ((toString length).toList ++ "):".toList)))) := by
    simp [loopText]
  refine Line.ofSnippet_single ht (by decide) ?_ _
  have hk := (Var.index k).newline_not_mem_text
  have hn := newline_not_mem_toString length
  simp only [loopText, String.toList_append, List.mem_append, hk, hn, or_false]
  decide

@[simp] theorem linesAll_nil (d : Nat) : linesAll d [] = [] := by simp [linesAll]

@[simp] theorem linesAll_cons (d : Nat) (i : Item) (is : List Item) :
    linesAll d (i :: is) = lines d i ++ linesAll d is := by simp [linesAll]

theorem linesAll_append (d : Nat) (is js : List Item) :
    linesAll d (is ++ js) = linesAll d is ++ linesAll d js := by
  induction is with
  | nil => simp
  | cons i is ih => simp [ih]

theorem linesAll_ne_nil {is : List Item} (h : is ≠ []) (d : Nat) : linesAll d is ≠ [] := by
  obtain ⟨i,is,rfl⟩ := List.exists_cons_of_ne_nil h
  cases i <;> simp [lines]

end Item

end FitCode
