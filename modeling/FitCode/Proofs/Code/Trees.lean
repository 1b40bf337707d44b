import FitCode.Proofs.Code.Lines
import FitCode.Proofs.Program.Passages
import FitCode.Proofs.Text.Arithmetic

/-! # Syntax trees of generated code

The texts of operands and of the expressions made of them spell syntax trees, as long as their numbers
can be read and their templates are arithmetic.
-/
namespace FitCode

open Numeric Program Text Scan

namespace Text.Outline

/-- Arithmetic outlines, with brackets that can be open together with those of an operand. -/
def IsArithmetic (o : Outline) : Prop := ∃ a, Spelled (maxBrackets - 2) .sum o a

open Classical in
/-- The expression of an arithmetic outline. -/
noncomputable def arith (o : Outline) : Arith := if h : o.IsArithmetic then h.choose else .whole 0

theorem IsArithmetic.spelled {o : Outline} (h : o.IsArithmetic) : Spelled (maxBrackets - 2) .sum o o.arith := by
  rw [arith, dif_pos h]
  exact h.choose_spec

end Text.Outline

namespace Datum

/-- A signed expression. -/
def signedTree (negative : Bool) (e : Expr) : Expr := if negative then .negate e else e

/-- The number that the text of a finite number reads as, without its sign. -/
def reread (x : Float) : Float :=
  match Program.number? ((Decimal.shortText x).toList.dropWhile (· == '-')) with
  | some (.float y, _) => y
  | _ => 0

/-- The expression of a number. Infinite values and not-a-number are parts of the numeric module. -/
def floatTree (x : Float) : Expr :=
  match Decimal.read x with
  | .nan => .attribute (.name "np") "nan"
  | .infinite negative => signedTree negative (.attribute (.name "np") "inf")
  | .finite negative _ _ => signedTree negative (.float (reread x))

theorem spells_signed {d : Nat} {cs : List Char} {e : Expr} (h : Spells d cs (.factor e)) (negative : Bool) :
    Spells d (Decimal.signText negative cs) (.factor (signedTree negative e)) := by
  cases negative with
  | false => exact h
  | true => exact h.negate

theorem spells_floatCode (x : Float) : Spells 0 (floatCode x).toList (.factor (floatTree x)) := by
  have hnan : IsWord "nan".toList := Scan.isWord_of_all (by decide)
  have hinf : IsWord "inf".toList := Scan.isWord_of_all (by decide)
  cases hx : Decimal.read x with
  | nan =>
    simp only [floatCode, floatTree, hx]
    exact (Spells.part hnan (by decide)).operand
  | infinite negative =>
    simp only [floatCode, floatTree, hx]
    have h := spells_signed (Spells.part hinf (by decide)).operand negative
    cases negative <;> exact h
  | finite negative m q =>
    simp only [floatCode, floatTree, hx]
    obtain ⟨N,hN,htext⟩ := Decimal.exists_shortText hx
    have hreread : reread x = N.float := by
      obtain ⟨c,cs,hcs⟩ := List.exists_cons_of_ne_nil hN.valid.nonempty
      have hdigit : isDigit c = true := hN.valid.whole c (by simp [hcs])
      have hne : c ≠ '-' := by
        rintro rfl
        cases hdigit
      have hhead : N.chars.dropWhile (· == '-') = N.chars := by
        rw [Numeral.chars, hcs]
        simp [hne]
      have hdrop : (Decimal.signText negative N.chars).dropWhile (· == '-') = N.chars := by
        cases negative with
        | false => exact hhead
        | true => rw [Decimal.signText, if_pos rfl, List.dropWhile_cons_of_pos rfl, hhead]
      have hnumber : Program.number? (N.chars ++ []) = some (.float N.float, []) :=
        Numeral.number_chars hN.valid (by simp [Stops]) hN.float
      rw [List.append_nil] at hnumber
      rw [reread, htext, hdrop, hnumber]
    rw [htext, hreread]
    exact spells_signed (Spells.float hN.valid hN.float).operand negative

end Datum

theorem Var.isWord_text (x : Var) : IsWord x.text.toList where
  start := by
    rw [head_text]
    cases x <;> exact ⟨_,rfl,by decide⟩
  chars := by
    intro c hc
    rw [toList_text] at hc
    rcases List.mem_append.mp hc with hc | hc
    · have hstem : ∀ s ∈ ["t", "arr", "loop_idx"], (s.toList.all fun d => d.isAlphanum || d == '_') = true := by
        decide
      exact List.all_eq_true.mp (hstem x.stem (by cases x <;> simp [stem])) c hc
    · rw [Char.isAlphanum, isDigit_toString hc, Bool.or_true, Bool.true_or]

theorem Var.not_keyword (x : Var) : keywords.contains x.text = false := by
  have hall : ∀ s ∈ keywords, s.toList.getLast?.any Char.isDigit = false := by decide +kernel
  cases h : keywords.contains x.text with
  | false => rfl
  | true => exact absurd rfl (Var.text_ne (hall _ (List.contains_iff_mem.mp h)) x)

namespace Operand

def tree : Operand → Expr
  | var x => .name x.text
  | parameter i => .index (.name "params") (.int i)
  | column c => .index (.name "obs") (.int c)
  | first c => .index (.index (.name "obs") (.int c)) (.int 0)
  | entry c k => .index (.index (.name "obs") (.int c)) (.name (Var.index k).text)
  | literal x => Datum.floatTree x
  | whole n => Datum.signedTree (n < 0) (.int n.natAbs)

/-- The whole numbers in it are not too long to be read. -/
def IsReadable : Operand → Prop
  | parameter i => i < 10 ^ Decimal.maxDigits
  | column c => c < 10 ^ Decimal.maxDigits
  | first c => c < 10 ^ Decimal.maxDigits
  | entry c _ => c < 10 ^ Decimal.maxDigits
  | whole n => n.natAbs < 10 ^ Decimal.maxDigits
  | _ => True

theorem spells_name (x : Var) : Spells 0 x.text.toList (.primary (.name x.text)) := by
  have h := Spells.word x.isWord_text (by rw [String.ofList_toList]; exact x.not_keyword)
  rwa [String.ofList_toList] at h

theorem spells_indexed {w : List Char} (hw : IsWord w) (hk : keywords.contains (String.ofList w) = false)
    {n : Nat} (hn : n < 10 ^ Decimal.maxDigits) :
    Spells 1 (w ++ '[' :: ((toString n).toList ++ [']'])) (.primary (.index (.name (String.ofList w)) (.int n))) :=
  ((Spells.word hw hk).mono (Nat.zero_le 1)).index (Spells.nat hn).operand.factor.product

theorem spells {x : Operand} (hx : x.IsReadable) : Spells 1 x.text.toList (.factor x.tree) := by
  have hparams : IsWord "params".toList := Scan.isWord_of_all (by decide)
  have hobs : IsWord "obs".toList := Scan.isWord_of_all (by decide)
  cases x with
  | var x => exact ((spells_name x).mono (Nat.zero_le 1)).operand
  | parameter i =>
    have htext : (parameter i).text.toList = "params".toList ++ '[' :: ((toString i).toList ++ [']']) := by
      simp [text]
    rw [htext]
    exact (spells_indexed hparams (by decide) hx).operand
  | column c =>
    have htext : (column c).text.toList = "obs".toList ++ '[' :: ((toString c).toList ++ [']']) := by
      simp [text]
    rw [htext]
    exact (spells_indexed hobs (by decide) hx).operand
  | first c =>
    have htext : (first c).text.toList =
        "obs".toList ++ '[' :: ((toString c).toList ++ [']']) ++ '[' :: ((toString 0).toList ++ [']']) := by
      simp [text]
    rw [htext]
    exact ((spells_indexed hobs (by decide) hx).index
      (Spells.nat (Nat.pow_pos (by decide))).operand.factor.product).operand
  | entry c k =>
    have htext : (entry c k).text.toList = "obs".toList ++ '[' :: ((toString c).toList ++ [']']) ++
        '[' :: ((Var.index k).text.toList ++ [']']) := by
      simp [text]
    rw [htext]
    exact ((spells_indexed hobs (by decide) hx).index
      (spells_name (.index k)).operand.factor.product).operand
  | literal x => exact (Datum.spells_floatCode x).mono (Nat.zero_le 1)
  | whole n =>
    have htext : (whole n).text.toList = Decimal.signText (n < 0) (toString n.natAbs).toList := by
      rw [text, Int.toString_eq_repr, Int.repr_eq_if, Decimal.signText]
      by_cases hn : 0 ≤ n
      · have hnat : n.toNat = n.natAbs := by omega
        simp [hn, hnat, Int.not_lt.mpr hn]
      · have hnat : (-n).toNat = n.natAbs := by omega
        simp [hn, hnat, Int.not_le.mp hn]
    rw [htext]
    exact (Datum.spells_signed (Spells.nat hx).operand _).mono (Nat.zero_le 1)

end Operand

namespace Program.Expr

/-- Operands joined from the left. -/
def chain (op : Op) : List Expr → Expr
  | [] => .null
  | e :: es => es.foldl (.binary op) e

end Program.Expr

theorem intercalate_cons {α : Type} (sep x : List α) (xs : List (List α)) :
    sep.intercalate (x :: xs) = x ++ xs.flatMap (sep ++ ·) := by
  induction xs generalizing x with
  | nil => simp [List.intercalate]
  | cons y ys ih =>
    have h := ih y
    simp only [List.intercalate, List.intersperse_cons_cons, List.flatten_cons, List.flatMap_cons] at h ⊢
    rw [h, List.append_assoc]

section

variable {d : Nat} {xs : List Operand}

theorem spells_sum (hx : ∀ x ∈ xs, x.IsReadable) {cs : List Char} {e : Expr} (h : Spells 1 cs (.sum e)) :
    Spells 1 (cs ++ (xs.map fun x => x.text.toList).flatMap (" + ".toList ++ ·))
      (.sum ((xs.map Operand.tree).foldl (.binary .add) e)) := by
  induction xs generalizing cs e with
  | nil => simpa using h
  | cons x xs ih =>
    have hfirst := (Operand.spells (hx x (by simp))).factor.blank
    have hnext := ih (fun y hy => hx y (by simp [hy])) (h.plus (c := '+') rfl 1 hfirst)
    simpa using hnext

theorem spells_product (hx : ∀ x ∈ xs, x.IsReadable) {cs : List Char} {e : Expr}
    (h : Spells 2 cs (.product e)) :
    Spells 2 (cs ++ (xs.map fun x => Outline.parens x.text.toList).flatMap (" * ".toList ++ ·))
      (.product ((xs.map Operand.tree).foldl (.binary .mul) e)) := by
  induction xs generalizing cs e with
  | nil => simpa using h
  | cons x xs ih =>
    have hfirst := ((Operand.spells (hx x (by simp))).factor.product.paren 0).operand.blank
    have hnext := ih (fun y hy => hx y (by simp [hy])) (h.times (c := '*') rfl 1 hfirst)
    simpa [Outline.parens] using hnext

theorem spells_items {x : Operand} (hx : ∀ y ∈ x :: xs, y.IsReadable) :
    Spells 1 (x.text.toList ++ (xs.map fun x => x.text.toList).flatMap (", ".toList ++ ·))
      (.items ((x :: xs).map Operand.tree)) := by
  induction xs generalizing x with
  | nil =>
    have h := (Operand.spells (hx x (by simp))).factor.product.one
    simpa using h
  | cons y ys ih =>
    have hrest := ih (x := y) fun z hz => hx z (List.mem_cons_of_mem x hz)
    have h := (Operand.spells (hx x (by simp))).factor.product.more hrest.blank
    simpa using h

end

namespace Compound

/-- The tree of an expression. -/
noncomputable def tree : Compound → Expr
  | single x => x.tree
  | sum xs => .chain .add (xs.map Operand.tree)
  | product xs => .chain .mul (xs.map Operand.tree)
  | filled o xs => o.arith.tree fun i => (xs[i]?).elim .null Operand.tree
  | call f xs => .call (.name f.name) (xs.map Operand.tree)
  | array [] => .call (.attribute (.name "np") "empty") [.int 0]
  | array xs => .call (.attribute (.name "np") "array") [.list (xs.map Operand.tree)]

/-- Expressions that can be read: there are operands where some are needed, their numbers are not too
long, and templates are arithmetic. -/
structure IsReadable (e : Compound) : Prop where
  operands : ∀ x ∈ e.operands, x.IsReadable
  nonempty : ∀ xs, e = sum xs ∨ e = product xs ∨ (∃ f, e = call f xs) → xs ≠ []
  template : ∀ o xs, e = filled o xs → o.IsArithmetic ∧ ∀ i ∈ o.holes, i < xs.length

theorem spells_routine (f : Routine) : Spells 0 f.name.toList (.primary (.name f.name)) := by
  cases f <;> exact Spells.word (Scan.isWord_of_all (by decide)) (by decide)

theorem spells_text {e : Compound} (h : e.IsReadable) : Spells maxBrackets e.text.toList (.sum e.tree) := by
  cases e with
  | single x => exact (Operand.spells (h.operands x (by simp [operands]))).factor.product.mono (by decide)
  | sum xs =>
    cases xs with
    | nil => exact absurd rfl (h.nonempty [] (.inl rfl))
    | cons x xs =>
      have hfirst := (Operand.spells (h.operands x (by simp [operands]))).factor.product
      have hsum := spells_sum (fun y (hy : y ∈ xs) => h.operands y (List.mem_cons_of_mem x hy)) hfirst
      have htext : (sum (x :: xs)).text.toList =
          x.text.toList ++ (xs.map fun x => x.text.toList).flatMap (" + ".toList ++ ·) := by
        rw [text, String.toList_intercalate, List.map_map, List.map_cons, intercalate_cons]
        rfl
      rw [htext]
      exact hsum.mono (by decide)
  | product xs =>
    cases xs with
    | nil => exact absurd rfl (h.nonempty [] (.inr (.inl rfl)))
    | cons x xs =>
      have hfirst := ((Operand.spells (h.operands x (by simp [operands]))).factor.product.paren 0).operand.factor
      have hproduct := spells_product (fun y (hy : y ∈ xs) => h.operands y (List.mem_cons_of_mem x hy)) hfirst
      have htext : (product (x :: xs)).text.toList = Outline.parens x.text.toList ++
          (xs.map fun x => Outline.parens x.text.toList).flatMap (" * ".toList ++ ·) := by
        rw [text, String.toList_intercalate, List.map_map, List.map_cons, intercalate_cons]
        simp [Outline.parens, Function.comp_def]
      rw [htext]
      exact hproduct.product.mono (by decide)
  | filled o xs =>
    obtain ⟨ho,hholes⟩ := h.template o xs rfl
    have hargs : ∀ i ∈ o.holes, ∃ cs, (xs.map fun x => x.text.toList)[i]? = some cs ∧
        Spells 1 cs (.sum ((xs[i]?).elim .null Operand.tree)) := by
      intro i hi
      have hlt := hholes i hi
      have hx : xs[i] ∈ (filled o xs).operands :=
        List.mem_filterMap.mpr ⟨i,hi,List.getElem?_eq_getElem hlt⟩
      refine ⟨xs[i].text.toList,by simp [hlt],?_⟩
      rw [List.getElem?_eq_getElem hlt]
      exact (Operand.spells (h.operands _ hx)).factor.product
    have hspells := ho.spelled.spells hargs
    rw [text, String.toList_ofList]
    exact hspells
  | call f xs =>
    cases xs with
    | nil => exact absurd rfl (h.nonempty [] (.inr (.inr ⟨f,rfl⟩)))
    | cons x xs =>
      have hitems := spells_items fun y hy => h.operands y hy
      have htext : (call f (x :: xs)).text.toList = f.name.toList ++ '(' ::
          (x.text.toList ++ (xs.map fun x => x.text.toList).flatMap (", ".toList ++ ·) ++
            (List.replicate 0 ' ' ++ [')'])) := by
        simp [text, String.toList_intercalate, intercalate_cons, Function.comp_def]
      rw [htext]
      exact (((spells_routine f).mono (Nat.zero_le 2)).call hitems 0).operand.factor.product.mono (by decide)
  | array xs =>
    cases xs with
    | nil =>
      have hempty : Spells 0 "np.empty".toList (.primary (.attribute (.name "np") "empty")) :=
        Spells.part (w := "empty".toList) (Scan.isWord_of_all (by decide)) (by decide)
      have hzero : Spells 0 "0".toList (.primary (.int 0)) := Spells.nat (n := 0) (Nat.pow_pos (by decide))
      exact ((hempty.mono (Nat.zero_le 1)).call hzero.operand.factor.product.one 0).operand.factor.product.mono
        (by decide)
    | cons x xs =>
      have harray : Spells 0 "np.array".toList (.primary (.attribute (.name "np") "array")) :=
        Spells.part (w := "array".toList) (Scan.isWord_of_all (by decide)) (by decide)
      have hitems := spells_items fun y hy => h.operands y hy
      have htext : (array (x :: xs)).text.toList = "np.array".toList ++ '(' ::
          ('[' :: (x.text.toList ++ (xs.map fun x => x.text.toList).flatMap (", ".toList ++ ·) ++ [']']) ++
            (List.replicate 0 ' ' ++ [')'])) := by
        simp [text, String.toList_intercalate, intercalate_cons, Function.comp_def]
      rw [htext]
      exact ((harray.mono (Nat.zero_le 3)).call hitems.list.operand.factor.product.one 0).operand.factor.product.mono
        (by decide)

end Compound

/-! Statements are lines. -/

namespace Item

theorem wordToken_text (x : Var) : wordToken x.text.toList = .name x.text := by
  rw [wordToken, String.ofList_toList, x.not_keyword]
  rfl

theorem lineText_assign (x : Var) {e : Compound} (he : e.IsReadable) :
    ∃ ts, LineText (x.text ++ " = " ++ e.text).toList ts ∧
      ∀ ss us, Lays ss us → Lays (.assign [x.text] e.tree :: ss) (ts ++ .newline :: us) := by
  obtain ⟨ts,hp,hg⟩ := Compound.spells_text he
  have hword := Phrase.word x.isWord_text
  rw [wordToken_text] at hword
  have hphrase := (hword.mono (Nat.zero_le maxBrackets)).joined (c := '=') (by decide) 1 hp.blank
  have htext : (x.text ++ " = " ++ e.text).toList =
      x.text.toList ++ (List.replicate 1 ' ' ++ '=' :: ' ' :: e.text.toList) := by simp
  rw [htext]
  refine ⟨_,hphrase.lineText (Nat.le_refl _) x.isWord_text,fun ss us h => ?_⟩
  have hassign := Lays.assign x.text hg h
  simpa using hassign

theorem lineText_return {x : Operand} (hx : x.IsReadable) :
    ∃ ts, LineText ("return " ++ x.text).toList ts ∧
      ∀ ss us, Lays ss us → Lays (.result (some x.tree) :: ss) (ts ++ .newline :: us) := by
  obtain ⟨ts,hp,hg⟩ := Operand.spells hx
  have hreturn : IsWord "return".toList := Scan.isWord_of_all (by decide)
  have hphrase := ((Phrase.word hreturn).mono (Nat.zero_le 1)).append hp.blank ⟨' ',rfl,by decide⟩
  have htext : ("return " ++ x.text).toList = "return".toList ++ ' ' :: x.text.toList := by simp
  rw [htext]
  refine ⟨_,hphrase.lineText (by decide) hreturn,fun ss us h => ?_⟩
  exact Lays.result (.product (.factor hg)) h

theorem lineText_loop (k : Nat) {n : Nat} (hn : n < 10 ^ Decimal.maxDigits) :
    ∃ ts, LineText (loopText k n).toList (.keyword "for" :: .name (Var.index k).text :: .keyword "in" ::
        (ts ++ [.mark ":"])) ∧ Derives (.sum (.call (.name "range") [.int n])) ts := by
  have hfor : IsWord "for".toList := Scan.isWord_of_all (by decide)
  have hin : IsWord "in".toList := Scan.isWord_of_all (by decide)
  have hrange : Spells 0 "range".toList (.primary (.name "range")) :=
    Spells.word (w := "range".toList) (Scan.isWord_of_all (by decide)) (by decide)
  have hindex := Phrase.word (Var.index k).isWord_text
  rw [wordToken_text] at hindex
  obtain ⟨ts,hp,hg⟩ := ((hrange.mono (Nat.zero_le 1)).call (Spells.nat hn).operand.factor.product.one 0)
  have hphrase := ((Phrase.word hfor).mono (Nat.zero_le 1)).append
    ((hindex.blank.mono (Nat.zero_le 1)).append
      (((Phrase.word hin).blank.mono (Nat.zero_le 1)).append hp.blank ⟨' ',rfl,by decide⟩)
      ⟨' ',rfl,by decide⟩) ⟨' ',rfl,by decide⟩
  refine ⟨ts,?_,.product (.factor (.operand hg))⟩
  have hline := hphrase.headText (by decide) hfor
  have htext : (loopText k n).toList = "for".toList ++ (' ' :: (Var.index k).text.toList ++
      (' ' :: "in".toList ++ ' ' :: ("range".toList ++ '(' :: ((toString n).toList ++
        (List.replicate 0 ' ' ++ [')']))))) ++ [':'] := by
    simp [loopText]
  rw [htext]
  exact hline

theorem lineText_pass : LineText "pass".toList [.keyword "pass"] := by
  have hpass : IsWord "pass".toList := Scan.isWord_of_all (by decide)
  have hphrase := Phrase.word hpass
  rw [← List.append_nil "pass".toList] at hphrase ⊢
  exact hphrase.lineText (by decide) hpass

end Item

end FitCode
