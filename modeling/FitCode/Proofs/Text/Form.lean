import FitCode.Proofs.Text.Outline

/-! # Templates spelled out

A plain template is written as literal texts with numbered holes between them, where a brace that is text is
written twice. Reading the template gives these texts and holes back, so filling it puts arguments between
the literal texts; it fails only on a number beyond the arguments, or too large to be read at all.
-/
namespace FitCode.Text

/-- Literal texts with numbered holes between them. -/
structure Form where
  first : String
  rest : List (Nat × String)
  deriving Repr, DecidableEq

namespace Outline

/-- What stands in a template for a character or a hole. -/
def spell : Char ⊕ Nat → List Char
  | .inl c => if c == '{' || c == '}' then [c, c] else [c]
  | .inr i => '{' :: ((toString i).toList ++ ['}'])

/-- The template of an outline. -/
def spelled (o : Outline) : List Char := o.flatMap spell

end Outline

namespace Form

def literals (f : Form) : List String := f.first :: f.rest.map (·.2)

def holes (f : Form) : List Nat := f.rest.map (·.1)

/-- The outline of holes, each with the literal text behind it. -/
def outlineOf (rest : List (Nat × String)) : Outline :=
  rest.flatMap fun p => .inr p.1 :: p.2.toList.map .inl

def outline (f : Form) : Outline := f.first.toList.map .inl ++ outlineOf f.rest

def template (f : Form) : String := String.ofList f.outline.spelled

end Form

theorem toList_toString_ne_nil (i : Nat) : (toString i).toList ≠ [] := by
  rw [toList_toString_nat]
  exact Nat.toDigits_ne_nil

variable {address : Nat → List Char → Nat}

namespace Template

/-- The piece of a template that a character or a hole is read as. -/
def Piece.ofOutline : Char ⊕ Nat → Piece
  | .inl c => .char c
  | .inr i => .field ⟨(toString i).toList, none, []⟩

theorem scan_name {ds : List Char} (h : ∀ c ∈ ds, c.isDigit = true) (read cs : List Char) :
    scan (.name read false) (ds ++ '}' :: cs) =
      .field ⟨read.reverse ++ ds, none, []⟩ :: scan .literal cs := by
  induction ds generalizing read with
  | nil => simp [scan]
  | cons d ds ih =>
    have hd := h d (by simp)
    have hne : ∀ c : Char, c.isDigit = false → (d == c) = false := fun c hc =>
      beq_false_of_ne fun he => by rw [he, hc] at hd; cases hd
    rw [List.cons_append, scan, hne '{' rfl, hne '}' rfl, hne ':' rfl, hne '!' rfl, hne '[' rfl]
    simp [ih fun c hc => h c (by simp [hc])]

theorem scan_char {c : Char} (ho : c ≠ '{') (hc : c ≠ '}') (cs : List Char) :
    scan .literal (c :: cs) = .char c :: scan .literal cs := by
  rw [scan]
  · simp [ho, hc]
  · exact fun _ he _ => ho he
  · exact fun _ he _ => hc he

theorem scan_hole {d : Char} (hd : d ≠ '{') (cs : List Char) :
    scan .literal ('{' :: d :: cs) = scan (.name [] false) (d :: cs) := by
  rw [scan]
  · rfl
  · exact fun _ _ he => hd (List.cons.inj he).1
  · exact fun _ he _ => absurd he (by decide)

theorem scan_spelled (o : Outline) : scan .literal o.spelled = o.map Piece.ofOutline := by
  induction o with
  | nil => rfl
  | cons p o ih =>
    have hspelled : Outline.spelled (p :: o) = Outline.spell p ++ Outline.spelled o := by
      simp [Outline.spelled]
    rw [hspelled, List.map_cons, ← ih]
    cases p with
    | inl c =>
      by_cases ho : c = '{'
      · subst ho
        rfl
      · by_cases hc : c = '}'
        · subst hc
          rfl
        · rw [Outline.spell, if_neg (by simp [ho, hc])]
          exact scan_char ho hc _
    | inr i =>
      have hdigits : ∀ c ∈ (toString i).toList, c.isDigit = true := fun c hc => isDigit_toString hc
      obtain ⟨d,ds,hds⟩ := List.exists_cons_of_ne_nil (toList_toString_ne_nil i)
      have hname := scan_name hdigits [] (Outline.spelled o)
      have hne : d ≠ '{' := by
        rintro rfl
        exact absurd (hdigits '{' (hds ▸ List.mem_cons_self)) (by decide)
      rw [hds] at hname
      simp only [Outline.spell, Piece.ofOutline, hds, List.cons_append, List.append_assoc]
      rw [scan_hole hne]
      exact hname

/-! ## Numbers -/

theorem digitValue?_digit {c : Char} (h : c.isDigit = true) : digitValue? c = some (c.toNat - '0'.toNat) := by
  simp only [Char.isDigit, Bool.and_eq_true, decide_eq_true_eq, UInt32.le_iff_toNat_le, ge_iff_le] at h
  have hv : c.toNat = c.val.toNat := rfl
  have h0 : '0'.val.toNat = 48 := rfl
  have h9 : '9'.val.toNat = 57 := rfl
  have hin : 48 ≤ c.toNat ∧ c.toNat < 48 + 10 := by omega
  simp [digitValue?, zeros, hin]

theorem le_ofDigitChars (cs : List Char) (n : Nat) : n ≤ Nat.ofDigitChars 10 cs n := by
  induction cs generalizing n with
  | nil => simp
  | cons c cs ih =>
    rw [Nat.ofDigitChars_cons]
    exact Nat.le_trans (by omega) (ih _)

/-- A run of digits is read as its number, unless that is too large. -/
theorem number?_digits {cs : List Char} (h : ∀ c ∈ cs, c.isDigit = true) {n : Nat} (hn : n ≤ maxNumber) :
    number? n cs = if Nat.ofDigitChars 10 cs n ≤ maxNumber then .ok (some (Nat.ofDigitChars 10 cs n))
      else .error .malformed := by
  induction cs generalizing n with
  | nil => simp [number?, hn]
  | cons c cs ih =>
    rw [number?, digitValue?_digit (h c (by simp)), Nat.ofDigitChars_cons]
    dsimp only
    by_cases hmax : 10 * n + (c.toNat - '0'.toNat) > maxNumber
    · have hle := le_ofDigitChars cs (10 * n + (c.toNat - '0'.toNat))
      rw [if_pos hmax, if_neg (by omega)]
    · rw [if_neg hmax, ih (fun c hc => h c (by simp [hc])) (by omega)]

theorem position?_toString (i : Nat) : position? (toString i).toList =
    if i ≤ maxNumber then .ok (some i) else .error .malformed := by
  have hdigits : ∀ c ∈ (toString i).toList, c.isDigit = true := fun c hc => isDigit_toString hc
  rw [position?, if_neg (by simp), number?_digits hdigits (Nat.zero_le maxNumber), toList_toString_nat,
    Nat.ofDigitChars_toDigits (by decide) (by decide)]

/-! ## Filling -/

theorem mapM_plain?_ofOutline {o : Outline} (h : ∀ i ∈ o.holes, i ≤ maxNumber) :
    (o.map Piece.ofOutline).mapM Piece.plain? = some o := by
  induction o with
  | nil => rfl
  | cons p o ih =>
    cases p with
    | inl c => simp [Piece.ofOutline, Piece.plain?, ih h]
    | inr i =>
      have hi : i ≤ maxNumber := h i (by simp)
      have hplain : (Piece.ofOutline (.inr i)).plain? = some (.inr i) := by
        simp only [Piece.ofOutline, Piece.plain?, position?_toString, if_pos hi]
      simp [hplain, ih fun j hj => h j (by simp [hj])]

/-- A spelled outline that has been filled has no number too large to be read. -/
theorem le_maxNumber_of_fillPieces {args : List (List Char)}
    {fillSpec : Numbering → List Char → Except TemplateError (List Char × Numbering)} {o : Outline}
    {n n' : Numbering} {cs : List Char}
    (h : fillPieces address args fillSpec n (o.map Piece.ofOutline) = .ok (cs, n')) :
    ∀ i ∈ o.holes, i ≤ maxNumber := by
  induction o generalizing n cs with
  | nil => simp [Outline.holes]
  | cons p o ih =>
    cases p with
    | inl c =>
      rw [List.map_cons, Piece.ofOutline, fillPieces] at h
      cases hr : fillPieces address args fillSpec n (o.map Piece.ofOutline) with
      | error e => rw [hr] at h; cases h
      | ok r =>
        rw [hr] at h
        cases h
        exact ih hr
    | inr i =>
      have hi : i ≤ maxNumber := by
        by_contra hlarge
        have hread : position? (toString i).toList = .error .malformed := by
          rw [position?_toString, if_neg hlarge]
        have hdigits : ∀ c ∈ (toString i).toList, (digitValue? c).isSome = true := fun c hc => by
          rw [digitValue?_digit (isDigit_toString hc)]
          rfl
        have hplain := isPlain_of_digit hdigits
        rw [List.map_cons, Piece.ofOutline, fillPieces, List.takeWhile_eq_self_iff.mpr hplain, select, hread] at h
        cases h
      have hread : position? (toString i).toList = .ok (some i) := by
        rw [position?_toString, if_pos hi]
      obtain ⟨_,rest,n₁,_,hrest,_⟩ := fillPieces_field (f := ⟨(toString i).toList, none, []⟩) hread rfl rfl h
      intro j hj
      rcases List.mem_cons.mp hj with rfl | hj
      · exact hi
      · exact ih hrest j hj

end Template

/-- The names in a filled template are its own and those of the arguments in its holes, which stand in
parentheses. -/
theorem mem_names_fillTemplate {template : String} {o : Outline} (ho : outline? template = some o)
    {args : List String} {text : String}
    (h : fillTemplate address template (args.map fun t => "(" ++ t ++ ")") = .ok text) (n : String) :
    n ∈ names text ↔ n ∈ o.names ∨ ∃ i ∈ o.holes, ∃ t, args[i]? = some t ∧ n ∈ names t := by
  obtain ⟨hholes,htext⟩ := fillTemplate_plain ho h
  have hargs : (args.map fun t => "(" ++ t ++ ")").map String.toList =
      (args.map String.toList).map Outline.parens := by simp [Outline.parens]
  rw [names_eq, htext, hargs, Outline.mem_namesIn_fill (by simpa using hholes)]
  refine or_congr_right (exists_congr fun i => and_congr_right fun hi => ?_)
  have hlt : i < args.length := by simpa using hholes i hi
  simp [hlt, names_eq]

namespace Outline

theorem holes_chars (cs : List Char) : holes (cs.map .inl) = [] := by simp [holes]

theorem namesFrom_chars (read cs : List Char) (o : Outline) :
    namesFrom read (cs.map .inl ++ o) = namesFrom (cs.reverse ++ read) o := by
  induction cs generalizing read with
  | nil => rfl
  | cons c cs ih => simp [namesFrom, ih]

end Outline

namespace Form

theorem holes_outlineOf (rest : List (Nat × String)) : (outlineOf rest).holes = rest.map (·.1) := by
  induction rest with
  | nil => rfl
  | cons p rest ih =>
    have hcons : outlineOf (p :: rest) = (.inr p.1 :: p.2.toList.map .inl) ++ outlineOf rest := rfl
    rw [hcons, Outline.holes_append, Outline.holes_inr, Outline.holes_chars, ih]
    rfl

theorem holes_outline (f : Form) : f.outline.holes = f.holes := by
  rw [outline, Outline.holes_append, Outline.holes_chars, holes_outlineOf, holes, List.nil_append]

theorem namesFrom_outlineOf (cs : List Char) (rest : List (Nat × String)) :
    Outline.namesFrom [] (cs.map .inl ++ outlineOf rest) =
      namesIn cs ++ rest.flatMap fun p => Text.names p.2 := by
  rw [Outline.namesFrom_chars, List.append_nil]
  induction rest generalizing cs with
  | nil => simp [outlineOf, Outline.namesFrom]
  | cons p rest ih =>
    have hcons : outlineOf (p :: rest) = .inr p.1 :: (p.2.toList.map .inl ++ outlineOf rest) := rfl
    rw [hcons, Outline.namesFrom, List.reverse_reverse, Outline.namesFrom_chars, List.append_nil, ih,
      List.flatMap_cons, names_eq]

theorem names_outline (f : Form) : f.outline.names = f.literals.flatMap Text.names := by
  rw [Outline.names, outline, namesFrom_outlineOf, literals, List.flatMap_cons, List.flatMap_map, names_eq]

theorem outline?_template {f : Form} (h : ∀ i ∈ f.holes, i ≤ Template.maxNumber) :
    outline? f.template = some f.outline := by
  rw [outline?, template, String.toList_ofList, Template.scan_spelled]
  exact Template.mapM_plain?_ofOutline (by rwa [holes_outline])

theorem le_maxNumber_of_fillTemplate {f : Form} {args : List String} {text : String}
    (h : fillTemplate address f.template args = .ok text) : ∀ i ∈ f.holes, i ≤ Template.maxNumber := by
  simp only [fillTemplate, Template.fill, template, String.toList_ofList, Template.scan_spelled, bind,
    Except.bind] at h
  split at h
  · cases h
  · rename_i r hr
    rw [← holes_outline]
    exact Template.le_maxNumber_of_fillPieces hr

/-- A form can be filled exactly if there is an argument for each hole and its number can be read. -/
theorem exists_fillTemplate_iff (f : Form) (address : Nat → List Char → Nat) (args : List String) :
    (∃ text, fillTemplate address f.template args = .ok text) ↔
      ∀ i ∈ f.holes, i < args.length ∧ i ≤ Template.maxNumber := by
  constructor
  · rintro ⟨text,h⟩ i hi
    have hmax := le_maxNumber_of_fillTemplate h
    have hlt := (fillTemplate_plain (outline?_template hmax) h).1
    rw [holes_outline] at hlt
    exact ⟨hlt i hi,hmax i hi⟩
  · intro h
    refine fillTemplate_ok (outline?_template fun i hi => (h i hi).2) ?_
    rw [holes_outline]
    exact fun i hi => (h i hi).1

end Form

end FitCode.Text
