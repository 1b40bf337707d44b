import FitCode.Proofs.Text.Names
import FitCode.Text.Template
import Mathlib.Data.List.TakeWhile

/-! # Outlines of templates

A template is plain if each of its fields names an argument by number and does nothing else with it.
Such a template has an outline: characters and holes. Filling a plain template puts the arguments
into the holes, and fails only on a hole beyond the arguments.
-/
namespace FitCode.Text

/-- Characters and numbered holes. -/
abbrev Outline := List (Char ⊕ Nat)

namespace Template

/-- The outline of a piece that is a character or a field with nothing but a number. -/
def Piece.plain? : Piece → Option (Char ⊕ Nat)
  | .char c => some (.inl c)
  | .field ⟨name, none, []⟩ =>
    match position? name with
    | .ok (some i) => some (.inr i)
    | _ => none
  | _ => none

end Template

/-- The outline of a plain template. -/
def outline? (template : String) : Option Outline :=
  (Template.scan .literal template.toList).mapM Template.Piece.plain?

namespace Outline

def holes (o : Outline) : List Nat := o.filterMap Sum.getRight?

/-- The characters of an outline that is filled with `args`. -/
def fill (args : List (List Char)) (o : Outline) : List Char :=
  o.flatMap fun p => p.elim (fun c => [c]) fun i => (args[i]?).getD []

/-- An argument as it stands in a hole. -/
def parens (cs : List Char) : List Char := '(' :: (cs ++ [')'])

/-- The names in the characters between the holes; `read` holds those before the outline,
backwards. -/
def namesFrom (read : List Char) : Outline → List String
  | [] => namesIn read.reverse
  | .inl c :: o => namesFrom (c :: read) o
  | .inr _ :: o => namesIn read.reverse ++ namesFrom [] o

/-- The names that an outline has of its own. -/
def names (o : Outline) : List String := namesFrom [] o

@[simp] theorem holes_inl (c : Char) (o : Outline) : holes (.inl c :: o) = holes o := rfl

@[simp] theorem holes_inr (i : Nat) (o : Outline) : holes (.inr i :: o) = i :: holes o := rfl

@[simp] theorem holes_append (o o' : Outline) : holes (o ++ o') = holes o ++ holes o' :=
  List.filterMap_append

@[simp] theorem fill_inl (args : List (List Char)) (c : Char) (o : Outline) :
    fill args (.inl c :: o) = c :: fill args o := rfl

@[simp] theorem fill_inr (args : List (List Char)) (i : Nat) (o : Outline) :
    fill args (.inr i :: o) = (args[i]?).getD [] ++ fill args o := rfl

theorem mem_fill {args : List (List Char)} {o : Outline} {c : Char} (h : c ∈ fill args o) :
    .inl c ∈ o ∨ ∃ a ∈ args, c ∈ a := by
  obtain ⟨p,hp,hc⟩ := List.mem_flatMap.mp h
  cases p with
  | inl d =>
    simp only [Sum.elim_inl, List.mem_singleton] at hc
    exact .inl (hc ▸ hp)
  | inr i =>
    simp only [Sum.elim_inr] at hc
    cases ha : args[i]? with
    | none => simp [ha] at hc
    | some a =>
      rw [ha] at hc
      exact .inr ⟨a,List.mem_of_getElem? ha,hc⟩

private theorem mem_namesIn_fill_from {args : List (List Char)} (read : List Char) (o : Outline)
    (ho : ∀ i ∈ o.holes, i < args.length) (n : String) :
    n ∈ namesIn (read.reverse ++ fill (args.map parens) o) ↔
      n ∈ namesFrom read o ∨ ∃ i ∈ o.holes, n ∈ namesIn ((args[i]?).getD []) := by
  induction o generalizing read with
  | nil => simp [fill, namesFrom, holes]
  | cons p o ih =>
    cases p with
    | inl c =>
      have h := ih (c :: read) ho
      simpa [namesFrom] using h
    | inr i =>
      have hi : i < args.length := ho i (by simp)
      have h := ih [] (fun j hj => ho j (by simp [hj]))
      have hopen : isBreak '(' = true := by decide
      have hclose : isBreak ')' = true := by decide
      simp only [List.reverse_nil, List.nil_append] at h
      simp only [fill_inr, holes_inr, namesFrom, List.mem_append, List.mem_cons]
      simp only [List.getElem?_map, List.getElem?_eq_getElem hi, Option.map_some, Option.getD_some,
        parens, List.cons_append, List.append_assoc, List.nil_append]
      rw [namesIn_append_break _ _ hopen, namesIn_append_break _ _ hclose]
      simp only [List.mem_append, h]
      constructor
      · rintro (hn | hn | hn | ⟨j,hj,hn⟩)
        · exact .inl (.inl hn)
        · exact .inr ⟨i,.inl rfl,by simpa [List.getElem?_eq_getElem hi] using hn⟩
        · exact .inl (.inr hn)
        · exact .inr ⟨j,.inr hj,hn⟩
      · rintro ((hn | hn) | ⟨j,rfl | hj,hn⟩)
        · exact .inl hn
        · exact .inr (.inr (.inl hn))
        · exact .inr (.inl (by simpa [List.getElem?_eq_getElem hi] using hn))
        · exact .inr (.inr (.inr ⟨j,hj,hn⟩))

/-- The names in a filled outline are its own and those of the arguments in its holes, which stand
in parentheses. -/
theorem mem_namesIn_fill {args : List (List Char)} {o : Outline}
    (ho : ∀ i ∈ o.holes, i < args.length) (n : String) :
    n ∈ namesIn (fill (args.map parens) o) ↔
      n ∈ o.names ∨ ∃ i ∈ o.holes, n ∈ namesIn ((args[i]?).getD []) :=
  mem_namesIn_fill_from [] o ho n

end Outline

variable {address : Nat → List Char → Nat}

namespace Template

theorem digits_of_number {read n : Nat} {cs : List Char} (h : number? read cs = .ok (some n)) :
    ∀ c ∈ cs, (digitValue? c).isSome = true := by
  induction cs generalizing read with
  | nil => simp
  | cons c cs ih =>
    rw [number?] at h
    cases hd : digitValue? c with
    | none => simp [hd] at h
    | some d =>
      simp only [hd] at h
      split at h
      · cases h
      · intro e he
        rcases List.mem_cons.mp he with rfl | he
        · rw [hd]; rfl
        · exact ih h e he

theorem digits_of_position {i : Nat} {cs : List Char} (h : position? cs = .ok (some i)) :
    ∀ c ∈ cs, (digitValue? c).isSome = true := by
  rw [position?] at h
  split at h
  · cases h
  · exact digits_of_number h

theorem plain_field {f : Field} {p : Char ⊕ Nat} (h : Piece.plain? (.field f) = some p) :
    ∃ i, position? f.name = .ok (some i) ∧ f.conversion = none ∧ f.spec = [] ∧ p = .inr i := by
  obtain ⟨name,conversion,spec⟩ := f
  cases conversion with
  | some c => cases h
  | none =>
    cases spec with
    | cons c cs => cases h
    | nil =>
      simp only [Piece.plain?] at h
      split at h
      · rename_i i hi
        cases h
        exact ⟨i,hi,rfl,rfl,rfl⟩
      · cases h

theorem isPlain_of_digit {name : List Char}
    (h : ∀ c ∈ name, (digitValue? c).isSome = true) :
    ∀ c ∈ name, (c != '.' && c != '[') = true := by
  intro c hc
  have hd := h c hc
  have hdot : digitValue? '.' = none := by decide
  have hbracket : digitValue? '[' = none := by decide
  simp only [Bool.and_eq_true, bne_iff_ne]
  constructor
  · rintro rfl
    rw [hdot] at hd
    cases hd
  · rintro rfl
    rw [hbracket] at hd
    cases hd

theorem select_position {n : Numbering} {name : List Char} {i : Nat} {r : Nat × Numbering}
    (hname : position? name = .ok (some i)) (h : select n name = .ok r) : r = (i, .manual) := by
  simp only [select, hname, bind, Except.bind] at h
  cases n <;> cases h <;> rfl

/-- A field with nothing but a number takes the argument as it is. -/
theorem fillPieces_field {args : List (List Char)}
    {fillSpec : Numbering → List Char → Except TemplateError (List Char × Numbering)}
    {f : Field} {pieces : List Piece} {n n' : Numbering} {cs : List Char} {i : Nat}
    (hname : position? f.name = .ok (some i)) (hconv : f.conversion = none) (hspec : f.spec = [])
    (h : fillPieces address args fillSpec n (.field f :: pieces) = .ok (cs, n')) :
    ∃ arg rest n₁, args[i]? = some arg ∧ fillPieces address args fillSpec n₁ pieces = .ok (rest, n') ∧
      cs = arg ++ rest := by
  have hplain := isPlain_of_digit (digits_of_position hname)
  rw [fillPieces, List.takeWhile_eq_self_iff.mpr hplain, List.dropWhile_eq_nil_iff.mpr hplain,
    hconv, hspec] at h
  cases hs : select n f.name with
  | error e => rw [hs] at h; cases h
  | ok r =>
    cases select_position hname hs
    cases ha : args[i]? with
    | none => simp [hs, ha, bind, Except.bind] at h
    | some arg =>
      cases hr : fillPieces address args fillSpec .manual pieces with
      | error e => simp [hs, ha, hr, bind, Except.bind, accesses, convert, format, pure,
          Except.pure] at h
      | ok r =>
        simp only [hs, ha, hr, bind, Except.bind, accesses, convert, format, pure, Except.pure,
          List.foldlM_nil, List.contains_nil, List.isEmpty_nil, if_true, Bool.false_eq_true,
          if_false, Except.ok.injEq, Prod.mk.injEq, Subject.shown] at h
        exact ⟨arg,r.1,.manual,rfl,h.2 ▸ hr,h.1.symm⟩

/-- Filling a plain template puts the arguments into the holes of its outline. -/
theorem fillPieces_plain {args : List (List Char)}
    {fillSpec : Numbering → List Char → Except TemplateError (List Char × Numbering)}
    {pieces : List Piece} {o : Outline} (ho : pieces.mapM Piece.plain? = some o) {n n' : Numbering}
    {cs : List Char} (h : fillPieces address args fillSpec n pieces = .ok (cs, n')) :
    (∀ i ∈ o.holes, i < args.length) ∧ cs = o.fill args := by
  induction pieces generalizing o n cs n' with
  | nil =>
    simp only [List.mapM_nil, Option.pure_def, Option.some.injEq] at ho
    subst ho
    cases h
    exact ⟨by simp [Outline.holes],rfl⟩
  | cons piece pieces ih =>
    rw [List.mapM_cons] at ho
    obtain ⟨p,hp,ho⟩ := Option.bind_eq_some_iff.mp ho
    obtain ⟨o',ho',ho⟩ := Option.bind_eq_some_iff.mp ho
    cases ho
    cases piece with
    | char c =>
      cases hp
      rw [fillPieces] at h
      cases hr : fillPieces address args fillSpec n pieces with
      | error e => rw [hr] at h; cases h
      | ok r =>
        rw [hr] at h
        cases h
        obtain ⟨hi,hcs⟩ := ih ho' hr
        exact ⟨hi,by rw [Outline.fill_inl, hcs]⟩
    | broken => cases hp
    | field f =>
      obtain ⟨i,hname,hconv,hspec,rfl⟩ := plain_field hp
      obtain ⟨arg,rest,n₁,ha,hr,rfl⟩ := fillPieces_field hname hconv hspec h
      obtain ⟨hi,hrest⟩ := ih ho' hr
      refine ⟨?_,by rw [Outline.fill_inr, ha, hrest]; rfl⟩
      intro j hj
      rcases List.mem_cons.mp hj with rfl | hj
      · exact (List.getElem?_eq_some_iff.mp ha).1
      · exact hi j hj

/-- A plain template with arguments for all its holes can be filled. -/
theorem fillPieces_ok {args : List (List Char)}
    {fillSpec : Numbering → List Char → Except TemplateError (List Char × Numbering)}
    {pieces : List Piece} {o : Outline} (ho : pieces.mapM Piece.plain? = some o)
    (hi : ∀ i ∈ o.holes, i < args.length) {n : Numbering} (hn : n = .undecided ∨ n = .manual) :
    ∃ r, fillPieces address args fillSpec n pieces = .ok r := by
  induction pieces generalizing o n with
  | nil => exact ⟨_,rfl⟩
  | cons piece pieces ih =>
    rw [List.mapM_cons] at ho
    obtain ⟨p,hp,ho⟩ := Option.bind_eq_some_iff.mp ho
    obtain ⟨o',ho',ho⟩ := Option.bind_eq_some_iff.mp ho
    cases ho
    cases piece with
    | char c =>
      cases hp
      obtain ⟨r,hr⟩ := ih ho' hi hn
      exact ⟨_,by rw [fillPieces, hr]; rfl⟩
    | broken => cases hp
    | field f =>
      obtain ⟨i,hname,hconv,hspec,rfl⟩ := plain_field hp
      have hplain := isPlain_of_digit (digits_of_position hname)
      obtain ⟨r,hr⟩ := ih ho' (fun j hj => hi j (by simp [hj])) (.inr rfl)
      have hsel : select n f.name = .ok (i, .manual) := by
        rcases hn with rfl | rfl <;> simp [select, hname, bind, Except.bind]
      have harg := List.getElem?_eq_getElem (hi i (by simp))
      rw [fillPieces, List.takeWhile_eq_self_iff.mpr hplain, List.dropWhile_eq_nil_iff.mpr hplain,
        hconv, hspec, hsel]
      simp [harg, hr, bind, Except.bind, accesses, convert, format, pure, Except.pure]

end Template

/-- A plain template can be filled with arguments for all its holes. -/
theorem fillTemplate_ok {template : String} {o : Outline} (ho : outline? template = some o)
    {args : List String} (hi : ∀ i ∈ o.holes, i < args.length) :
    ∃ text, fillTemplate address template args = .ok text := by
  have hfill : ∃ r, Template.fillPieces address (args.map String.toList)
      (Template.fill address (args.map String.toList) 1) .undecided
      (Template.scan .literal template.toList) = .ok r :=
    Template.fillPieces_ok ho (by simpa using hi) (.inl rfl)
  obtain ⟨r,hr⟩ := hfill
  exact ⟨_,by rw [fillTemplate, Template.fill, hr]; rfl⟩

/-- A plain template that can be filled has no hole beyond its arguments. -/
theorem fillTemplate_plain {template : String} {o : Outline} (ho : outline? template = some o)
    {args : List String} {text : String} (h : fillTemplate address template args = .ok text) :
    (∀ i ∈ o.holes, i < args.length) ∧ text.toList = o.fill (args.map String.toList) := by
  simp only [fillTemplate, Template.fill, bind, Except.bind] at h
  split at h
  · cases h
  · rename_i r hr
    cases h
    obtain ⟨hi,hcs⟩ := Template.fillPieces_plain ho hr
    exact ⟨by simpa using hi,by simp [hcs]⟩

end FitCode.Text
