import FitCode.Proofs.Code.Item
import Std.Data.String.ToNat

/-! # Names that generated code mentions

The introduced names that are found in a text are those of the data the text is written from. This
needs templates that are plain and mention no such name themselves.
-/
namespace FitCode

open Text

namespace Var

theorem toList_text (x : Var) : x.text.toList = x.stem.toList ++ (toString x.number).toList := by
  simp [text, numbered]

theorem toList_stem (x : Var) : x.stem.toList =
    match x with
    | temp _ => ['t']
    | array _ => ['a', 'r', 'r']
    | index _ => ['l', 'o', 'o', 'p', '_', 'i', 'd', 'x'] := by
  cases x <;> simp [stem]

theorem isWord_of_mem_text {x : Var} {c : Char} (hc : c ∈ x.text.toList) : isWord c = true := by
  have hstem : ∀ d ∈ x.stem.toList, isWord d = true := by
    rw [toList_stem]
    cases x with
    | temp k => exact show ∀ d ∈ ['t'], isWord d = true from List.all_eq_true.mp (by decide)
    | array k => exact show ∀ d ∈ ['a', 'r', 'r'], isWord d = true from List.all_eq_true.mp (by decide)
    | index k =>
      exact show ∀ d ∈ ['l', 'o', 'o', 'p', '_', 'i', 'd', 'x'], isWord d = true from
        List.all_eq_true.mp (by decide)
  rw [toList_text] at hc
  rcases List.mem_append.mp hc with hc | hc
  · exact hstem c hc
  · exact isWord_digit (isDigit_toString hc)

theorem namesIn_text (x : Var) : namesIn x.text.toList = [x.text] := by
  obtain ⟨c,w,hw,hc⟩ : ∃ c w, x.text.toList = c :: w ∧ isNameStart c = true := by
    rw [toList_text, toList_stem]
    cases x with
    | temp k => exact ⟨_,_,rfl,by decide⟩
    | array k => exact ⟨_,_,rfl,by decide⟩
    | index k => exact ⟨_,_,rfl,by decide⟩
  rw [hw, namesIn_word hc, ← hw, String.ofList_toList]
  intro d hd
  exact isWord_of_mem_text (hw ▸ List.mem_cons_of_mem c hd)

theorem head_text (x : Var) : x.text.toList.head? =
    match x with
    | temp _ => some 't'
    | array _ => some 'a'
    | index _ => some 'l' := by
  rw [toList_text, toList_stem]
  cases x <;> rfl

theorem text_injective {x y : Var} (h : x.text = y.text) : x = y := by
  have hh := head_text x
  rw [h, head_text y] at hh
  have hn : x.stem = y.stem → x.number = y.number := by
    intro hs
    have ht := congrArg String.toList h
    rw [toList_text, toList_text, hs] at ht
    have ht := String.toList_injective (List.append_cancel_left ht)
    exact Nat.repr_injective (by simpa [Nat.toString_eq_repr] using ht)
  cases x with
  | temp k =>
    cases y with
    | temp l => exact congrArg temp (hn rfl)
    | array l => simp at hh
    | index l => simp at hh
  | array k =>
    cases y with
    | temp l => simp at hh
    | array l => exact congrArg array (hn rfl)
    | index l => simp at hh
  | index k =>
    cases y with
    | temp l => simp at hh
    | array l => simp at hh
    | index l => exact congrArg index (hn rfl)

@[simp] theorem text_inj {x y : Var} : x.text = y.text ↔ x = y := ⟨text_injective,congrArg _⟩

theorem text_ne {s : String} (hs : s.toList.getLast?.any Char.isDigit = false) (x : Var) :
    x.text ≠ s := by
  rintro rfl
  rw [toList_text, List.getLast?_append] at hs
  cases hd : (toString x.number).toList.getLast? with
  | none =>
    have hnil : Nat.toDigits 10 x.number = [] := by
      rw [← toList_toString_nat]
      exact List.getLast?_eq_none_iff.mp hd
    exact Nat.toDigits_ne_nil hnil
  | some c =>
    rw [hd] at hs
    have hc := isDigit_toString (List.mem_of_getLast? hd)
    simp [hc] at hs

end Var

theorem namesIn_indexed (cs : List Char) (n : Nat) (rest : List Char) :
    namesIn (cs ++ '[' :: ((toString n).toList ++ ']' :: rest)) = namesIn cs ++ namesIn rest := by
  rw [namesIn_append_break _ _ (by decide), namesIn_append_break _ _ (by decide),
    namesIn_toString_nat]
  rfl

namespace Operand

theorem namesIn_parameter (i : Nat) : namesIn (parameter i).text.toList = ["params"] := by
  have h : (parameter i).text.toList = "params".toList ++ '[' :: ((toString i).toList ++ [']']) := by
    simp [text]
  rw [h, namesIn_indexed]
  decide

theorem namesIn_column (c : Nat) : namesIn (column c).text.toList = ["obs"] := by
  have h : (column c).text.toList = "obs".toList ++ '[' :: ((toString c).toList ++ [']']) := by
    simp [text]
  rw [h, namesIn_indexed]
  decide

theorem namesIn_first (c : Nat) : namesIn (first c).text.toList = ["obs"] := by
  have h : (first c).text.toList =
      "obs".toList ++ '[' :: ((toString c).toList ++ ']' :: ['[', '0', ']']) := by
    simp [text]
  rw [h, namesIn_indexed]
  decide

theorem namesIn_entry (c k : Nat) :
    namesIn (entry c k).text.toList = ["obs", (Var.index k).text] := by
  have h : (entry c k).text.toList = "obs".toList ++ '[' :: ((toString c).toList ++
      ']' :: ('[' :: ((Var.index k).text.toList ++ [']']))) := by
    simp [text]
  have hobs : namesIn "obs".toList = ["obs"] := by decide
  rw [h, namesIn_indexed, namesIn_cons_break _ (by decide), namesIn_append_break _ _ (by decide),
    Var.namesIn_text, hobs]
  rfl

theorem namesIn_whole (n : Int) : namesIn (whole n).text.toList = [] := by
  refine namesIn_eq_nil fun c hc => ?_
  rw [text, Int.toString_eq_repr, Int.repr_eq_if] at hc
  split at hc
  · rw [← Nat.toString_eq_repr] at hc
    exact isNameStart_digit (isDigit_toString hc)
  · rw [String.toList_append, ← Nat.toString_eq_repr] at hc
    rcases List.mem_append.mp hc with hc | hc
    · have hc : c = '-' := by simpa using hc
      subst hc
      decide
    · exact isNameStart_digit (isDigit_toString hc)

/-- The introduced names in the text of an operand are those of its variables. -/
theorem mem_namesIn_text (x : Var) (e : Operand) : x.text ∈ namesIn e.text.toList ↔ x ∈ e.vars := by
  cases e with
  | var y => simp [text, vars, Var.namesIn_text]
  | parameter i =>
    have hx := Var.text_ne (s := "params") (by decide) x
    simp [namesIn_parameter, vars, hx]
  | column c =>
    have hx := Var.text_ne (s := "obs") (by decide) x
    simp [namesIn_column, vars, hx]
  | first c =>
    have hx := Var.text_ne (s := "obs") (by decide) x
    simp [namesIn_first, vars, hx]
  | entry c k =>
    have hx := Var.text_ne (s := "obs") (by decide) x
    simp [namesIn_entry, vars, hx]
  | literal a =>
    simp only [text, vars, List.not_mem_nil, iff_false]
    intro h
    rcases Datum.names_floatCode h with h | h
    · exact Var.text_ne (by decide) x h
    · rw [Var.head_text] at h
      cases x <;> simp at h
  | whole n => simp [namesIn_whole, vars]

theorem mem_flatMap_namesIn (x : Var) (es : List Operand) :
    x.text ∈ (es.map fun e => e.text.toList).flatMap namesIn ↔ x ∈ es.flatMap vars := by
  simp [List.mem_flatMap, mem_namesIn_text]

end Operand

theorem namesIn_parens (cs : List Char) : namesIn (Outline.parens cs) = namesIn cs := by
  rw [Outline.parens, namesIn_cons_break _ (by decide)]
  exact namesIn_append_of_breaks _ _ (List.all_eq_true.mp (by decide))

theorem namesIn_call (f cs : List Char) :
    namesIn (f ++ '(' :: (cs ++ [')'])) = namesIn f ++ namesIn cs := by
  rw [namesIn_append_break _ _ (by decide), namesIn_append_of_breaks _ _ (List.all_eq_true.mp (by decide))]

theorem Routine.namesIn_name (f : Routine) : namesIn f.name.toList = [f.name] := by
  cases f <;> decide

namespace Compound

private theorem mem_namesIn_intercalate (x : Var) (xs : List Operand) {sep : String}
    (hs : sep.toList ≠ []) (hb : ∀ c ∈ sep.toList, isBreak c = true) :
    x.text ∈ namesIn (String.intercalate sep (xs.map Operand.text)).toList ↔
      x ∈ xs.flatMap Operand.vars := by
  rw [String.toList_intercalate, namesIn_intercalate hs hb, List.map_map]
  exact Operand.mem_flatMap_namesIn x xs

/-- The introduced names in the text of an expression are those of its variables. -/
theorem mem_namesIn_text {e : Compound} (he : e.Proper) (x : Var) :
    x.text ∈ namesIn e.text.toList ↔ x ∈ e.vars := by
  cases e with
  | single y => simpa [text, vars, operands] using Operand.mem_namesIn_text x y
  | sum xs => exact mem_namesIn_intercalate x xs (by decide) (List.all_eq_true.mp (by decide))
  | product xs =>
    have h : (xs.map fun y => "(" ++ y.text ++ ")").map String.toList =
        (xs.map fun y => y.text.toList).map Outline.parens := by
      simp [Outline.parens]
    rw [text, String.toList_intercalate, namesIn_intercalate (by decide) (List.all_eq_true.mp (by decide)), h,
      List.flatMap_map]
    simp only [namesIn_parens]
    exact Operand.mem_flatMap_namesIn x xs
  | filled o xs =>
    obtain ⟨_,hi,hn⟩ := he
    rw [text, String.toList_ofList, Outline.mem_namesIn_fill (by simpa using hi)]
    simp only [hn x, false_or, vars, operands, List.mem_flatMap, List.mem_filterMap]
    constructor
    · rintro ⟨i,hio,hx⟩
      have hlt := hi i hio
      simp only [List.getElem?_map, List.getElem?_eq_getElem hlt, Option.map_some,
        Option.getD_some] at hx
      exact ⟨xs[i],⟨i,hio,List.getElem?_eq_getElem hlt⟩,(Operand.mem_namesIn_text x _).mp hx⟩
    · rintro ⟨y,⟨i,hio,hy⟩,hx⟩
      refine ⟨i,hio,?_⟩
      simpa [hy] using (Operand.mem_namesIn_text x y).mpr hx
  | call f xs =>
    have h : (call f xs).text.toList = f.name.toList ++
        '(' :: ((String.intercalate ", " (xs.map Operand.text)).toList ++ [')']) := by
      simp [text]
    have hf : x.text ∉ namesIn f.name.toList := by
      rw [Routine.namesIn_name, List.mem_singleton]
      exact Var.text_ne (by cases f <;> decide) x
    rw [h, namesIn_call, List.mem_append, or_iff_right hf]
    exact mem_namesIn_intercalate x xs (by decide) (List.all_eq_true.mp (by decide))
  | array xs =>
    have hnp : ["np"] = namesIn "np.array".toList := by decide
    have hx : x.text ∉ ["np"] := by simpa using Var.text_ne (by decide) x
    cases xs with
    | nil =>
      have h : namesIn (array []).text.toList = ["np"] := by decide
      simpa [h, vars, operands] using hx
    | cons y ys =>
      have h : (array (y :: ys)).text.toList = "np.array".toList ++ '(' :: '[' ::
          ((String.intercalate ", " ((y :: ys).map Operand.text)).toList ++ [']', ')']) := by
        simp [text]
      rw [h, namesIn_append_break _ _ (by decide), namesIn_cons_break _ (by decide),
        namesIn_append_of_breaks _ _ (List.all_eq_true.mp (by decide)), ← hnp, List.mem_append, or_iff_right hx]
      exact mem_namesIn_intercalate x (y :: ys) (by decide) (List.all_eq_true.mp (by decide))

end Compound

end FitCode
