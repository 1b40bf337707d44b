import FitCode.Proofs.Code.Mention
import FitCode.Proofs.Lowering.Anchored
import FitCode.Proofs.Lowering.Naming
import FitCode.Proofs.Text.Form
import Mathlib.Order.MinMax

/-! # Composed expressions

Expressions are put together of texts in five ways. A character that ends a name stands at each joint, so the
names in an expression are those of the texts in it and of the fixed texts around them, whatever these texts
are. The depth of an expression is read off its names, so it is the greatest depth of a part.
-/
namespace FitCode

open Emit Text

/-! ## Names of joined texts -/

namespace Text

theorem names_intercalate {sep : String} (hsep : sep.toList ≠ [])
    (hbreak : ∀ c ∈ sep.toList, isBreak c = true) (texts : List String) :
    names (String.intercalate sep texts) = texts.flatMap names := by
  rw [names_eq, String.toList_intercalate, namesIn_intercalate hsep hbreak, List.flatMap_map]
  rfl

theorem names_parens (t : String) : names ("(" ++ t ++ ")") = names t := by
  have hlist : ("(" ++ t ++ ")").toList = Outline.parens t.toList := by simp [Outline.parens]
  rw [names_eq, hlist, namesIn_parens, names_eq]

theorem names_call (f args : String) : names (f ++ "(" ++ args ++ ")") = names f ++ names args := by
  have hlist : (f ++ "(" ++ args ++ ")").toList = f.toList ++ '(' :: (args.toList ++ [')']) := by simp
  rw [names_eq, hlist, namesIn_call]
  rfl

theorem names_sum (texts : List String) : names (String.intercalate " + " texts) = texts.flatMap names :=
  names_intercalate (by decide) (List.all_eq_true.mp (by decide)) texts

theorem names_product (texts : List String) :
    names (String.intercalate " * " (texts.map fun t => "(" ++ t ++ ")")) = texts.flatMap names := by
  rw [names_intercalate (by decide) (List.all_eq_true.mp (by decide)), List.flatMap_map]
  simp only [names_parens]

theorem names_list (texts : List String) : names (String.intercalate ", " texts) = texts.flatMap names :=
  names_intercalate (by decide) (List.all_eq_true.mp (by decide)) texts

end Text

theorem Setting.names_arrayCode {texts : List String} (h : texts ≠ []) :
    names (arrayCode texts) = "np" :: texts.flatMap names := by
  have hne : texts.isEmpty = false := List.isEmpty_eq_false_iff.mpr h
  have hlist : ("np.array([" ++ String.intercalate ", " texts ++ "])").toList =
      "np.array(".toList ++ '[' :: ((String.intercalate ", " texts).toList ++ [']', ')']) := by simp
  have hnp : namesIn "np.array(".toList = ["np"] := by decide
  rw [arrayCode, hne, if_neg Bool.false_ne_true, names_eq, hlist, namesIn_append_break _ _ (by decide), hnp,
    namesIn_append_of_breaks _ _ (List.all_eq_true.mp (by decide)), ← names_eq, names_list]
  rfl

/-- The ways in which an expression is put together. -/
inductive Composition where
  | sum
  | product
  | formula (f : Form)
  | call (function : String)
  | array
  deriving Repr, DecidableEq

namespace Composition

/-- The expression that is put together of texts. -/
def text (address : Nat → List Char → Nat) : Composition → List String → Except TemplateError String
  | .sum, ts => .ok (String.intercalate " + " ts)
  | .product, ts => .ok (String.intercalate " * " (ts.map fun t => "(" ++ t ++ ")"))
  | .formula f, ts => fillTemplate address f.template (ts.map fun t => "(" ++ t ++ ")")
  | .call function, ts => .ok (function ++ "(" ++ String.intercalate ", " ts ++ ")")
  | .array, ts => .ok (Setting.arrayCode ts)

/-- The fixed texts of an expression. -/
def literals : Composition → List String → List String
  | .sum, _ => [" + "]
  | .product, _ => ["(", ") * (", ")"]
  | .formula f, _ => f.literals
  | .call function, _ => [function, "(", ", ", ")"]
  | .array, [] => ["np.empty(0)"]
  | .array, _ :: _ => ["np.array([", ", ", "])"]

/-- The given texts that occur in an expression. -/
def used : Composition → List String → List String
  | .formula f, ts => f.holes.filterMap fun i => ts[i]?
  | _, ts => ts

def parts (k : Composition) (ts : List String) : List String := k.literals ts ++ k.used ts

/-- There is a text for each hole of a formula, whose number can be read. -/
def Fits : Composition → List String → Prop
  | .formula f, ts => ∀ i ∈ f.holes, i < ts.length ∧ i ≤ Template.maxNumber
  | _, _ => True

variable {address : Nat → List Char → Nat}

theorem exists_text_iff (k : Composition) (address : Nat → List Char → Nat) (ts : List String) :
    (∃ expr, k.text address ts = .ok expr) ↔ k.Fits ts := by
  cases k with
  | formula f => simpa [text, Fits] using f.exists_fillTemplate_iff address (ts.map fun t => "(" ++ t ++ ")")
  | _ => simp [text, Fits]

theorem mem_names_text {k : Composition} {ts : List String} {expr : String} (h : k.text address ts = .ok expr)
    (n : String) : n ∈ names expr ↔ ∃ p ∈ k.parts ts, n ∈ names p := by
  have hplus : names " + " = [] := by decide
  have hopen : names "(" = [] := by decide
  have htimes : names ") * (" = [] := by decide
  have hclose : names ")" = [] := by decide
  have hcomma : names ", " = [] := by decide
  cases k with
  | sum =>
    cases h
    simp [names_sum, parts, literals, used, hplus]
  | product =>
    cases h
    simp [names_product, parts, literals, used, hopen, htimes, hclose]
  | formula f =>
    -- A template that has been filled has readable numbers only, so its outline is that of the form.
    have hmax := f.le_maxNumber_of_fillTemplate h
    rw [mem_names_fillTemplate (f.outline?_template hmax) h, f.holes_outline, f.names_outline]
    simp only [parts, literals, used, List.mem_append, or_and_right, exists_or, List.mem_flatMap,
      List.mem_filterMap]
    refine or_congr_right ⟨?_,?_⟩
    · rintro ⟨i,hi,t,ht,hn⟩
      exact ⟨t,⟨i,hi,ht⟩,hn⟩
    · rintro ⟨t,⟨i,hi,ht⟩,hn⟩
      exact ⟨i,hi,t,ht,hn⟩
  | call function =>
    cases h
    simp [names_call, names_list, parts, literals, used, hopen, hcomma, hclose]
  | array =>
    cases h
    cases ts with
    | nil => simp [Setting.arrayCode, parts, literals, used]
    | cons t ts =>
      have harray : names "np.array([" = ["np"] := by decide
      have hend : names "])" = [] := by decide
      simp [Setting.names_arrayCode (List.cons_ne_nil t ts), parts, literals, used, harray, hcomma, hend]

theorem mem_names_of_used (address : Nat → List Char → Nat) {k : Composition} {ts : List String}
    {expr : String} (h : k.text address ts = .ok expr) {t : String} (ht : t ∈ k.used ts) {n : String}
    (hn : n ∈ names t) : n ∈ names expr :=
  (mem_names_text h n).mpr ⟨t,List.mem_append_right _ ht,hn⟩

end Composition

namespace Draft

/-- The depth of a text is the greatest depth of texts that have the same names together. -/
theorem depthOf_eq_foldr_max {expr : String} {parts : List String}
    (h : ∀ n, n ∈ names expr ↔ ∃ p ∈ parts, n ∈ names p) (c : Draft) :
    c.depthOf expr = (parts.map c.depthOf).foldr max 0 := by
  have hmax : ∀ d (ps : List String), (ps.map c.depthOf).foldr max 0 ≤ d ↔ ∀ p ∈ ps, c.depthOf p ≤ d := by
    intro d ps
    induction ps with
    | nil => simp
    | cons p ps ih => simp [ih]
  refine eq_of_forall_ge_iff fun d => ?_
  rw [hmax]
  simp only [depthOf_eq, min_le_iff, mentioned_le_iff]
  -- The cap bounds both sides alike; below it only the names count.
  by_cases hd : c.depth ≤ d
  · simp [hd]
  · simp only [hd, or_false]
    constructor
    · intro hn p hp n hnp
      exact hn n ((h n).mpr ⟨p,hp,hnp⟩)
    · intro hp n hn
      obtain ⟨p,hmem,hnp⟩ := (h n).mp hn
      exact hp p hmem n hnp

end Draft

/-! ## Where expressions are composed -/

/-- The node is lowered to a composition of the results of its operands. -/
inductive Kind.ComposedOf : Kind → Composition → List Nat → Prop
  | sum (t : Nat) (ts : List Nat) : ComposedOf (.sum (t :: ts)) .sum (t :: ts)
  | product (f : Nat) (fs : List Nat) : ComposedOf (.product (f :: fs)) .product (f :: fs)
  | formula (f : Form) (args : List Nat) : ComposedOf (.formula f.template args) (.formula f) args

/-- The expression, as a step of lowering. -/
def Composition.write (address : Nat → List Char → Nat) (k : Composition) (ts : List String) :
    Emit String :=
  Emit.ofExcept ((k.text address ts).mapError .template)

theorem mapM_return {α β : Type} (f : α → Emit β) (g : β → β) (as : List α) :
    (as.mapM fun a => do return g (← f a)) = as.mapM f >>= fun bs => pure (bs.map g) := by
  induction as with
  | nil => rfl
  | cons a as ih => simp only [List.mapM_cons, ih, bind_assoc, pure_bind, List.map_cons]

namespace Setting

variable (s : Setting) (l : Lowerer) (trail : Trail)

theorem emitNode_composed {v : Nat} {k : Composition} {ws : List Nat}
    (h : (s.graph.kind v).ComposedOf k ws) :
    s.emitNode l trail v =
      (ws.mapM fun w => l.resolve (trail.deeper 2) (s.graph.datum w)) >>= k.write s.options.machine.address >>=
        s.saveResult v := by
  generalize hk : s.graph.kind v = kind at h
  cases h with
  | sum t ts =>
    simp only [emitNode, hk, bind_assoc]
    rfl
  | product f fs =>
    simp only [emitNode, hk, mapM_return, bind_assoc, pure_bind]
    rfl
  | formula f args =>
    simp only [emitNode, hk, mapM_return, bind_assoc, pure_bind]
    rfl

/-- The codes of arguments, one by one. -/
def argumentTexts (args : List Datum) : Emit (List String) := do
  let codes ← args.mapM fun d => do
    s.argumentCode l (trail.deeper 3) (← Emit.ofExcept (s.graph.toArgument d))
  match codes.mapM Datum.text? with
  | some texts => return texts
  | none => throw .wrongType

theorem callCode_composed (f : String) (args : List Datum) :
    s.callCode l trail f args =
      s.argumentTexts l (trail.deeper 2) args >>= (Composition.call f).write s.options.machine.address := by
  simp only [callCode, argumentsCode, argumentTexts, bind_assoc]
  congr
  funext codes
  cases codes.mapM Datum.text? with
  | none => rfl
  | some texts => rfl

/-- Wherever the lowering composes an expression, it has the names of its parts and no other ones, and is as
deep as the deepest part. -/
theorem composition_exact :
    (∀ {v k ws}, (s.graph.kind v).ComposedOf k ws → s.emitNode l trail v =
      (ws.mapM fun w => l.resolve (trail.deeper 2) (s.graph.datum w)) >>= k.write s.options.machine.address >>=
        s.saveResult v) ∧
    (∀ f args, s.callCode l trail f args =
      s.argumentTexts l (trail.deeper 2) args >>= (Composition.call f).write s.options.machine.address) ∧
    (∀ {id texts given name c c'}, (s.introduceArray id texts given).Gives c name c' →
      ∃ expr, Composition.array.text s.options.machine.address texts = .ok expr ∧
        c.Binds s.options given name (name ++ " = " ++ expr) c') ∧
    ∀ (k : Composition) (ts : List String),
      ((∃ expr, k.text s.options.machine.address ts = .ok expr) ↔ k.Fits ts) ∧
      ∀ expr, k.text s.options.machine.address ts = .ok expr →
        (∀ n, n ∈ names expr ↔ ∃ p ∈ k.parts ts, n ∈ names p) ∧
        ∀ c : Draft, c.depthOf expr = ((k.parts ts).map c.depthOf).foldr max 0 := by
  refine ⟨s.emitNode_composed l trail,s.callCode_composed l trail,?_,fun k ts => ⟨k.exists_text_iff _ ts,?_⟩⟩
  · intro id texts given name c c' h
    exact ⟨arrayCode texts,rfl,binds_introduceArray h⟩
  · intro expr h
    have hnames := Composition.mem_names_text h
    exact ⟨hnames,Draft.depthOf_eq_foldr_max hnames⟩

/-- A formula in which a letter stands right in front of an argument. -/
def shiftedExponent : Form := ⟨"t1 * np.exp(", [(1, " + t"), (0, ")")]⟩

def exponentOfColumn : Setting where
  graph := ⟨#[⟨"p", .constant 1⟩, ⟨"x", .observable⟩, ⟨"q", .constant 2⟩,
    ⟨"e", .formula shiftedExponent.template [0, 1, 2]⟩]⟩
  options := {}
  sizes := []

theorem composition_exact_exponentOfColumn :
    (exponentOfColumn.graph.kind 3).ComposedOf (.formula shiftedExponent) [0, 1, 2] ∧
    (∃ expr, (Composition.formula shiftedExponent).text exponentOfColumn.options.machine.address
        ["t10", "obs[0]", "t99"] = .ok expr ∧
      (∀ n, n ∈ names expr ↔ n ∈ ["t1", "np", "t", "obs", "t10"]) ∧
      Draft.depthOf { stack := [0, 1, 2], bindingDepths := [("t1", 1), ("t10", 2), ("t99", 3)] } expr = 2) ∧
    ∃ c', (exponentOfColumn.introduceArray ⟨4, "c"⟩ ["t10", "t99"] none).Gives {} "arr0" c' ∧
      Draft.Binds {} {} none "arr0" "arr0 = np.array([t10, t99])" c' := by
  obtain ⟨_,_,harray,hexact⟩ := exponentOfColumn.composition_exact exponentOfColumn.lowerer {}
  refine ⟨.formula shiftedExponent _,?_,?_⟩
  · obtain ⟨hfits,hunion⟩ := hexact (.formula shiftedExponent) ["t10", "obs[0]", "t99"]
    obtain ⟨expr,hexpr⟩ := hfits.mpr (show ∀ i ∈ [1, 0], i < 3 ∧ i ≤ Template.maxNumber by decide)
    obtain ⟨hnames,hdepth⟩ := hunion expr hexpr
    have hparts : ((Composition.formula shiftedExponent).parts ["t10", "obs[0]", "t99"]).flatMap names =
      ["t1", "np", "t", "obs", "t10"] := by decide
    refine ⟨expr,hexpr,fun n => ?_,?_⟩
    · rw [hnames, ← hparts, List.mem_flatMap]
    · rw [hdepth]
      decide
  · have hgives : ∃ c', (exponentOfColumn.introduceArray ⟨4, "c"⟩ ["t10", "t99"] none).Gives {} "arr0" c' :=
      ⟨_,rfl⟩
    obtain ⟨c',h⟩ := hgives
    obtain ⟨expr,hexpr,hbinds⟩ := harray h
    cases hexpr
    exact ⟨c',h,hbinds⟩

end Setting

end FitCode
