import FitCode.Proofs.Code.Lines
import Mathlib.Data.List.Chain

/-! # Blocks and scopes of generated code

Lines are well scoped if their depths follow the loops, each introduced name is bound by one line and
each mention of it stands below that line and inside the block of the binding. Code written as a tree
has a judgement for the same; the lines of a tree that satisfies it are well scoped.
-/
namespace FitCode

open Text

namespace Line

/-- Whether a line opens a loop. -/
def isFor (l : Line) : Bool := "for ".toList.isPrefixOf l.text.toList

/-- What a line that binds the name starts with. -/
def opening (x : Var) : List Char :=
  if x.isAssigned then (x.text ++ " =").toList else ("for " ++ x.text ++ " in ").toList

/-- Whether a line binds a name, by an assignment or as the index of a loop. -/
def binds (l : Line) (x : Var) : Bool := (opening x).isPrefixOf l.text.toList

/-- The depth of the block in which the names that a line binds are in scope. -/
def block (l : Line) : Int := if l.isFor then l.depth + 1 else l.depth

end Line

namespace Listing

/-- The name is bound by a line above, and no line since has left the block of the binding, nor does
a line of the given depth. -/
def Offers (above : Listing) (depth : Int) (x : Var) : Prop :=
  ∃ before b between, above = before ++ b :: between ∧ b.binds x = true ∧ b.block ≤ depth ∧
    ∀ l ∈ between, b.block ≤ l.depth

structure WellScoped (ls : Listing) : Prop where
  start : ∀ l ∈ ls.head?, l.depth = 0
  /-- The depth grows only behind a line that opens a loop, and there by one. -/
  nested : ls.IsChain fun l l' => if l.isFor then l'.depth = l.depth + 1 else l'.depth ≤ l.depth
  ending : ∀ l ∈ ls.getLast?, l.isFor = false
  once : ∀ x : Var, (∃ l ∈ ls, x.text ∈ names l.text) → ls.countP (·.binds x) = 1
  /-- A mentioned name is offered above, or its only mention in the line is the one that binds it. -/
  inScope : ∀ above l below, ls = above ++ l :: below → ∀ x : Var, x.text ∈ names l.text →
    Offers above l.depth x ∨ l.binds x = true ∧ (names l.text).count x.text = 1

end Listing

namespace Text

theorem trimEnd_append {p : Char → Bool} {c : Char} (hc : p c = false) (as bs : List Char) :
    trimEnd p (as ++ c :: bs) = as ++ c :: trimEnd p bs := by
  simp only [trimEnd, List.reverse_append, List.reverse_cons, List.append_assoc,
    List.dropWhile_append]
  split
  · rename_i h
    simp [List.isEmpty_iff.mp h, hc]
  · simp

theorem isBreak_of_isBlank {c : Char} (h : isBlank c = true) : isBreak c = true := by
  have hall : ∀ n ∈ List.range' 9 5 ++ List.range' 28 5 ++ List.range' 0x2000 11 ++
      [0x85, 0xa0, 0x1680, 0x2028, 0x2029, 0x202f, 0x205f, 0x3000],
      isBreak (Char.ofNat n) = true := by decide +kernel
  rw [← Char.ofNat_toNat c]
  refine hall _ ?_
  simp only [isBlank, Bool.or_eq_true, Bool.and_eq_true, decide_eq_true_eq, beq_iff_eq] at h
  simp only [List.mem_append, List.mem_range'_1, List.mem_cons, List.not_mem_nil, or_false]
  omega

theorem namesIn_trimEnd (cs : List Char) : namesIn (trimEnd isBlank cs) = namesIn cs := by
  have h : cs = trimEnd isBlank cs ++ (cs.reverse.takeWhile isBlank).reverse := by
    rw [trimEnd, ← List.reverse_append, List.takeWhile_append_dropWhile, List.reverse_reverse]
  conv_rhs => rw [h]
  rw [namesIn_append_of_breaks]
  intro c hc
  exact isBreak_of_isBlank (List.mem_takeWhile_imp (List.mem_reverse.mp hc))

theorem word_prefix_iff {as bs cs ds : List Char} (ha : ' ' ∉ as) (hb : ' ' ∉ bs) :
    as ++ ' ' :: cs <+: bs ++ ' ' :: ds ↔ as = bs ∧ cs <+: ds := by
  induction as generalizing bs with
  | nil =>
    cases bs with
    | nil => simp
    | cons b bs =>
      simp only [List.mem_cons, not_or] at hb
      simp [hb.1]
  | cons a as ih =>
    simp only [List.mem_cons, not_or] at ha
    cases bs with
    | nil => simp [Ne.symm ha.1]
    | cons b bs =>
      simp only [List.mem_cons, not_or] at hb
      simp [ih ha.2 hb.2, and_assoc]

end Text

theorem Var.space_not_mem_text (x : Var) : ' ' ∉ x.text.toList :=
  fun h => absurd (isWord_of_mem_text h) (by decide)

namespace Line

variable {l : Line} {word : String} {rest : List Char}

theorem isFor_iff (hl : l.text.toList = word.toList ++ ' ' :: rest) (hw : ' ' ∉ word.toList) :
    l.isFor = true ↔ word = "for" := by
  have h : "for ".toList = "for".toList ++ ' ' :: [] := by decide
  rw [isFor, List.isPrefixOf_iff_prefix, hl, h, word_prefix_iff (by decide) hw, String.toList_inj]
  simp [eq_comm]

theorem binds_iff (hl : l.text.toList = word.toList ++ ' ' :: rest) (hw : ' ' ∉ word.toList) (x : Var) :
    l.binds x = true ↔ if x.isAssigned then x.text = word ∧ ['='] <+: rest
      else word = "for" ∧ x.text.toList ++ ' ' :: "in ".toList <+: rest := by
  rw [binds, List.isPrefixOf_iff_prefix, hl, opening]
  split
  · have h : (x.text ++ " =").toList = x.text.toList ++ ' ' :: ['='] := by simp
    rw [h, word_prefix_iff x.space_not_mem_text hw, String.toList_inj]
  · have h : ("for " ++ x.text ++ " in ").toList =
        "for".toList ++ ' ' :: (x.text.toList ++ ' ' :: "in ".toList) := by simp
    rw [h, word_prefix_iff (by decide) hw, String.toList_inj, eq_comm]

end Line

namespace Item

theorem toList_lineOf {text : String} {as bs : List Char} {c : Char} (ht : text.toList = as ++ c :: bs)
    (hc : isBlank c = false) (d : Nat) :
    (lineOf d text).text.toList = as ++ c :: trimEnd isBlank bs := by
  rw [lineOf, String.toList_ofList, ht, trimEnd_append hc]

theorem names_lineOf (d : Nat) (text : String) : names (lineOf d text).text = namesIn text.toList := by
  rw [names_eq, lineOf, String.toList_ofList, namesIn_trimEnd]

theorem toList_statement {x : Var} {op : Char} (rest : List Char) {text : String}
    (ht : text.toList = x.text.toList ++ ' ' :: op :: rest) (hop : isBlank op = false) (d : Nat) :
    (lineOf d text).text.toList = x.text.toList ++ ' ' :: op :: trimEnd isBlank rest := by
  have h : text.toList = (x.text.toList ++ [' ']) ++ op :: rest := by simp [ht]
  rw [toList_lineOf h hop]
  simp

/-- What a line binds and which names it uses. -/
structure Shows (l : Line) (bound : Option Var) (used : List Var) : Prop where
  binds : ∀ y, l.binds y = true ↔ y ∈ bound
  mentions : ∀ y : Var, y.text ∈ names l.text ↔ y ∈ bound ∨ y ∈ used
  once : ∀ y ∈ bound, y ∉ used → (names l.text).count y.text = 1

theorem toList_assign (d : Nat) (x : Var) (e : Compound) :
    ∃ rest, (lineOf d (x.text ++ " = " ++ e.text)).text.toList = x.text.toList ++ ' ' :: '=' :: rest :=
  ⟨_,toList_statement (' ' :: e.text.toList) (by simp) (by decide) d⟩

theorem shows_assign (d : Nat) {x : Var} (hx : x.isAssigned = true) {e : Compound} (he : e.Proper) :
    Shows (lineOf d (x.text ++ " = " ++ e.text)) (some x) e.vars := by
  obtain ⟨rest,hl⟩ := toList_assign d x e
  have hnames : names (lineOf d (x.text ++ " = " ++ e.text)).text =
      x.text :: namesIn e.text.toList := by
    have h : (x.text ++ " = " ++ e.text).toList =
        x.text.toList ++ ' ' :: ("= ".toList ++ e.text.toList) := by simp
    rw [names_lineOf, h, namesIn_append_break _ _ (by decide), Var.namesIn_text,
      namesIn_breaks_append _ _ (List.all_eq_true.mp (by decide))]
    rfl
  refine ⟨fun y => ?_,fun y => ?_,fun y hy hn => ?_⟩
  · rw [Line.binds_iff hl x.space_not_mem_text]
    split
    · simp [eq_comm]
    · rename_i hy
      have hfor := x.text_ne (s := "for") (by decide)
      have hne : x ≠ y := by
        rintro rfl
        exact hy hx
      simp [hfor, hne]
  · rw [hnames, List.mem_cons, Compound.mem_namesIn_text he]
    simp [eq_comm]
  · cases Option.mem_some_iff.mp hy
    rw [hnames, List.count_cons_self, List.count_eq_zero_of_not_mem]
    rwa [Compound.mem_namesIn_text he]

theorem toList_update (d : Nat) (x : Var) (log : Bool) (value : Operand) : ∃ op rest,
    op ≠ '=' ∧ (lineOf d (updateText x log value)).text.toList = x.text.toList ++ ' ' :: op :: rest := by
  cases log with
  | false =>
    exact ⟨'+',_,by decide,
      toList_statement ("= ".toList ++ value.text.toList) (by simp [updateText]) (by decide) d⟩
  | true =>
    exact ⟨'-',_,by decide,
      toList_statement ("= np.log(".toList ++ value.text.toList ++ [')'])
        (by simp [updateText]) (by decide) d⟩

theorem mem_namesIn_updateText (x : Var) (log : Bool) (value : Operand) (y : Var) :
    y.text ∈ namesIn (updateText x log value).toList ↔ y = x ∨ y ∈ value.vars := by
  cases log with
  | false =>
    have h : (updateText x false value).toList =
        x.text.toList ++ ' ' :: ("+= ".toList ++ value.text.toList) := by simp [updateText]
    rw [h, namesIn_append_break _ _ (by decide), Var.namesIn_text,
      namesIn_breaks_append _ _ (List.all_eq_true.mp (by decide)), List.mem_append, Operand.mem_namesIn_text]
    simp
  | true =>
    have h : (updateText x true value).toList = x.text.toList ++ ' ' :: ("-= ".toList ++
        ("np.log".toList ++ '(' :: (value.text.toList ++ [')']))) := by simp [updateText]
    have hnp : namesIn "np.log".toList = ["np"] := by decide
    have hy := y.text_ne (s := "np") (by decide)
    rw [h, namesIn_append_break _ _ (by decide), Var.namesIn_text,
      namesIn_breaks_append _ _ (List.all_eq_true.mp (by decide)), namesIn_call, hnp]
    simp [hy, Operand.mem_namesIn_text]

theorem shows_update (d : Nat) (x : Var) (log : Bool) (value : Operand) :
    Shows (lineOf d (updateText x log value)) none (x :: value.vars) := by
  obtain ⟨op,rest,hop,hl⟩ := toList_update d x log value
  refine ⟨fun y => ?_,fun y => ?_,by simp⟩
  · have hfor := x.text_ne (s := "for") (by decide)
    rw [Line.binds_iff hl x.space_not_mem_text]
    simp [hfor, Ne.symm hop]
  · rw [names_lineOf, mem_namesIn_updateText]
    simp

theorem toList_loop (d k length : Nat) : (lineOf d (loopText k length)).text.toList =
    "for".toList ++ ' ' :: ((Var.index k).text.toList ++ ' ' :: ("in range(".toList ++
      ((toString length).toList ++ [')', ':']))) := by
  have h : (loopText k length).toList = ("for".toList ++ ' ' :: ((Var.index k).text.toList ++ ' ' ::
      ("in range(".toList ++ ((toString length).toList ++ [')'])))) ++ ':' :: [] := by
    simp [loopText]
  rw [toList_lineOf h (by decide)]
  simp [trimEnd]

theorem namesIn_phrase (as bs cs ds es : List Char) :
    namesIn (as ++ ' ' :: (bs ++ ' ' :: (cs ++ ' ' :: (ds ++ '(' :: (es ++ [')', ':']))))) =
      namesIn as ++ (namesIn bs ++ (namesIn cs ++ (namesIn ds ++ namesIn es))) := by
  rw [namesIn_append_break _ _ (by decide), namesIn_append_break _ _ (by decide),
    namesIn_append_break _ _ (by decide), namesIn_append_break _ _ (by decide),
    namesIn_append_of_breaks _ _ (List.all_eq_true.mp (by decide))]

theorem shows_loop (d k length : Nat) :
    Shows (lineOf d (loopText k length)) (some (.index k)) [] := by
  have hl := toList_loop d k length
  have hnames : names (lineOf d (loopText k length)).text =
      ["for", (Var.index k).text, "in", "range"] := by
    have h : (loopText k length).toList = "for".toList ++ ' ' :: ((Var.index k).text.toList ++
        ' ' :: ("in".toList ++ ' ' :: ("range".toList ++ '(' :: ((toString length).toList ++
          [')', ':'])))) := by
      simp [loopText]
    have hfor : namesIn "for".toList = ["for"] := by decide
    have hin : namesIn "in".toList = ["in"] := by decide
    have hrange : namesIn "range".toList = ["range"] := by decide
    rw [names_lineOf, h, namesIn_phrase, hfor, hin, hrange, namesIn_toString_nat, Var.namesIn_text]
    rfl
  have hkw : ∀ y : Var, y.text ≠ "for" ∧ y.text ≠ "in" ∧ y.text ≠ "range" := fun y =>
    ⟨y.text_ne (by decide),y.text_ne (by decide),y.text_ne (by decide)⟩
  refine ⟨fun y => ?_,fun y => ?_,fun y hy _ => ?_⟩
  · rw [Line.binds_iff hl (by decide)]
    split
    · rename_i hy
      have hne : Var.index k ≠ y := by
        rintro rfl
        cases hy
      simp [hne, hkw y]
    · rw [word_prefix_iff y.space_not_mem_text (Var.space_not_mem_text _), String.toList_inj]
      have h : "in ".toList <+: "in range(".toList ++ ((toString length).toList ++ [')', ':']) :=
        ⟨"range(".toList ++ ((toString length).toList ++ [')', ':']),by simp⟩
      simp only [h, and_true, true_and, Var.text_inj, Option.mem_some_iff, eq_comm]
  · simp [hnames, hkw y, eq_comm]
  · cases Option.mem_some_iff.mp hy
    obtain ⟨hfor,hin,hrange⟩ := hkw (.index k)
    rw [hnames]
    simp [Ne.symm hfor, Ne.symm hin, Ne.symm hrange]

theorem isFor_loop (d k length : Nat) : (lineOf d (loopText k length)).isFor = true :=
  (Line.isFor_iff (toList_loop d k length) (by decide)).mpr rfl

theorem isFor_statement {l : Line} {x : Var} {rest : List Char}
    (hl : l.text.toList = x.text.toList ++ ' ' :: rest) : l.isFor = false := by
  rw [Bool.eq_false_iff, ne_eq, Line.isFor_iff hl x.space_not_mem_text]
  exact x.text_ne (by decide)

end Item

namespace Item

/-- Code in which every use of a name is covered, `S` holding of the names available at its start. -/
inductive Scoped : (Var → Prop) → List Item → Prop
  | nil {S} : Scoped S []
  | assign {S x e is} (hx : x.isAssigned = true) (hp : e.Proper) (he : ∀ y ∈ e.vars, S y)
      (h : Scoped (fun y => S y ∨ y = x) is) : Scoped S (.assign x e :: is)
  | update {S x log value is} (hx : S x) (hv : ∀ y ∈ value.vars, S y) (h : Scoped S is) :
      Scoped S (.update x log value :: is)
  | loop {S k length body is} (hne : body ≠ [])
      (hbody : Scoped (fun y => S y ∨ y = .index k) body) (h : Scoped S is) :
      Scoped S (.loop k length body :: is)

/-- The names that a block assigns itself, outside of its loops. -/
def assigned : List Item → List Var
  | [] => []
  | .assign x _ :: is => x :: assigned is
  | .update .. :: is => assigned is
  | .loop .. :: is => assigned is

theorem mem_assigned_append {y : Var} {is js : List Item} :
    y ∈ assigned (is ++ js) ↔ y ∈ assigned is ∨ y ∈ assigned js := by
  induction is with
  | nil => simp [assigned]
  | cons i is ih => cases i <;> simp [assigned, ih, or_assoc]

mutual

/-- The names that an item binds, those in its loops included. -/
def bound : Item → List Var
  | assign x _ => [x]
  | update .. => []
  | loop k _ body => .index k :: boundAll body

def boundAll : List Item → List Var
  | [] => []
  | i :: is => bound i ++ boundAll is

end

theorem boundAll_append (is js : List Item) : boundAll (is ++ js) = boundAll is ++ boundAll js := by
  induction is with
  | nil => simp [boundAll]
  | cons i is ih => simp [boundAll, ih]

namespace Scoped

variable {S T : Var → Prop} {is js : List Item}

theorem mono (h : Scoped S is) (hST : ∀ y, S y → T y) : Scoped T is := by
  induction h generalizing T with
  | nil => exact .nil
  | assign hx hp he _ ih =>
    exact .assign hx hp (fun y hy => hST y (he y hy)) (ih fun y hy => hy.imp_left (hST y))
  | update hx hv _ ih => exact .update (hST _ hx) (fun y hy => hST y (hv y hy)) (ih hST)
  | loop hne _ _ ihb ih => exact .loop hne (ihb fun y hy => hy.imp_left (hST y)) (ih hST)

theorem append (h : Scoped S is) (hj : Scoped (fun y => S y ∨ y ∈ assigned is) js) :
    Scoped S (is ++ js) := by
  induction h with
  | nil => exact hj.mono fun y hy => hy.elim id (by simp [assigned])
  | assign hx hp he _ ih =>
    refine .assign hx hp he (ih (hj.mono fun y hy => ?_))
    rw [assigned, List.mem_cons] at hy
    rcases hy with hy | rfl | hy
    · exact .inl (.inl hy)
    · exact .inl (.inr rfl)
    · exact .inr hy
  | update hx hv _ ih => exact .update hx hv (ih hj)
  | loop hne hbody _ _ ih => exact .loop hne hbody (ih hj)

end Scoped

end Item

namespace Listing

/-- Lines of a block of the given depth. -/
structure Nested (depth : Int) (ls : Listing) : Prop where
  start : ∀ l ∈ ls.head?, l.depth = depth
  least : ∀ l ∈ ls, depth ≤ l.depth
  chain : ls.IsChain fun l l' => if l.isFor then l'.depth = l.depth + 1 else l'.depth ≤ l.depth
  ending : ∀ l ∈ ls.getLast?, l.isFor = false

namespace Nested

variable {d : Int} {ls ms : Listing} {l : Line}

theorem nil : Nested d [] where
  start := by simp
  least := by simp
  chain := .nil
  ending := by simp

theorem single (hd : l.depth = d) (hl : l.isFor = false) : Nested d [l] where
  start := by simp [hd]
  least := by simp [hd]
  chain := .singleton l
  ending := by simpa using hl

theorem append (hl : Nested d ls) (hm : Nested d ms) : Nested d (ls ++ ms) where
  start := by
    cases ls with
    | nil => exact hm.start
    | cons l ls => exact hl.start
  least := fun l h => (List.mem_append.mp h).elim (hl.least l) (hm.least l)
  chain := by
    refine List.isChain_append.mpr ⟨hl.chain,hm.chain,fun a ha b hb => ?_⟩
    rw [hl.ending a ha, hm.start b hb]
    exact hl.least a (List.mem_of_getLast? ha)
  ending := by
    intro l h
    rw [List.getLast?_append] at h
    cases hms : ms.getLast? with
    | none => exact hl.ending l (by simpa [hms] using h)
    | some m => exact hm.ending l (by simpa [hms] using h)

theorem loop (hl : l.depth = d) (hfor : l.isFor = true) (hms : Nested (d + 1) ms) (hne : ms ≠ []) :
    Nested d (l :: ms) where
  start := by simp [hl]
  least := by
    intro m hm
    rcases List.mem_cons.mp hm with rfl | hm
    · exact Int.le_of_eq hl.symm
    · have := hms.least m hm
      omega
  chain := by
    obtain ⟨m,ms,rfl⟩ := List.exists_cons_of_ne_nil hne
    refine List.isChain_cons_cons.mpr ⟨?_,hms.chain⟩
    rw [hfor, hl]
    exact hms.start m rfl
  ending := by
    intro m hm
    obtain ⟨m',ms,rfl⟩ := List.exists_cons_of_ne_nil hne
    exact hms.ending m (by simpa using hm)

end Nested

namespace Offers

variable {above : Listing} {d d' : Int} {x : Var}

theorem deeper (h : Offers above d x) (hd : d ≤ d') : Offers above d' x := by
  obtain ⟨before,b,between,rfl,hb,hle,hbetween⟩ := h
  exact ⟨before,b,between,rfl,hb,Int.le_trans hle hd,hbetween⟩

theorem append (h : Offers above d x) {ls : Listing} (hls : ∀ l ∈ ls, d ≤ l.depth) :
    Offers (above ++ ls) d x := by
  obtain ⟨before,b,between,rfl,hb,hle,hbetween⟩ := h
  refine ⟨before,b,between ++ ls,by simp,hb,hle,fun l hl => ?_⟩
  rcases List.mem_append.mp hl with hl | hl
  · exact hbetween l hl
  · exact Int.le_trans hle (hls l hl)

theorem append_line (h : Offers above d x) {l : Line} (hl : l.depth = d) :
    Offers (above ++ [l]) d x :=
  h.append fun m hm => by simp [List.mem_singleton.mp hm, hl]

theorem last (above : Listing) {l : Line} (hl : l.binds x = true) : Offers (above ++ [l]) l.block x :=
  ⟨above,l,[],rfl,hl,Int.le_refl _,by simp⟩

end Offers

/-- Each line may use what the lines above it offer. -/
def Follows (above : Listing) : Listing → Prop
  | [] => True
  | l :: ls =>
    (∀ x : Var, x.text ∈ names l.text →
      Offers above l.depth x ∨ l.binds x = true ∧ (names l.text).count x.text = 1) ∧
    Follows (above ++ [l]) ls

theorem follows_append {above ls ms : Listing} :
    Follows above (ls ++ ms) ↔ Follows above ls ∧ Follows (above ++ ls) ms := by
  induction ls generalizing above with
  | nil => simp [Follows]
  | cons l ls ih => simp [Follows, ih, and_assoc]

end Listing

namespace Item.Scoped

open Listing

variable {S : Var → Prop} {is : List Item}

theorem nested (h : Scoped S is) (d : Nat) : Nested d (linesAll d is) := by
  induction h generalizing d with
  | nil => simpa using Nested.nil
  | @assign S x e is hx hp he _ ih =>
    obtain ⟨rest,hl⟩ := toList_assign d x e
    rw [linesAll_cons, lines]
    exact (Nested.single rfl (isFor_statement hl)).append (ih d)
  | @update S x log value is hx hv _ ih =>
    obtain ⟨op,rest,_,hl⟩ := toList_update d x log value
    rw [linesAll_cons, lines]
    exact (Nested.single rfl (isFor_statement hl)).append (ih d)
  | @loop S k length body is hne _ _ ihb ih =>
    rw [linesAll_cons, lines]
    exact (Nested.loop rfl (isFor_loop d k length) (ihb (d + 1)) (linesAll_ne_nil hne _)).append (ih d)

theorem offers_assign {x : Var} (hx : x.isAssigned = true) {e : Compound} (he : e.Proper) {d : Nat}
    {above : Listing} (hS : ∀ y, S y → Offers above d y) {y : Var} (hy : S y ∨ y = x) :
    Offers (above ++ [lineOf d (x.text ++ " = " ++ e.text)]) d y := by
  rcases hy with hy | rfl
  · exact (hS y hy).append_line rfl
  · obtain ⟨rest,hl⟩ := toList_assign d y e
    have h := Offers.last above (((shows_assign d hx he).binds y).mpr rfl)
    rwa [Line.block, isFor_statement hl] at h

theorem offers_loop {k : Nat} (length : Nat) {d : Nat} {above : Listing}
    (hS : ∀ y, S y → Offers above d y) {y : Var} (hy : S y ∨ y = .index k) :
    Offers (above ++ [lineOf d (loopText k length)]) (d + 1 : Nat) y := by
  rcases hy with hy | rfl
  · exact ((hS y hy).append_line rfl).deeper (by omega)
  · have h := Offers.last above (((shows_loop d k length).binds (.index k)).mpr rfl)
    rw [Line.block, isFor_loop, if_pos rfl] at h
    exact_mod_cast h

/-- Names available where code starts, and those it assigns, are offered behind it. -/
theorem offers (h : Scoped S is) {d : Nat} {above : Listing} (hS : ∀ y, S y → Offers above d y)
    {y : Var} (hy : S y ∨ y ∈ assigned is) : Offers (above ++ linesAll d is) d y := by
  induction h generalizing above with
  | nil => simpa using hS y (hy.resolve_right (by simp [assigned]))
  | @assign S x e is hx hp _ _ ih =>
    rw [linesAll_cons, lines, ← List.append_assoc]
    refine ih (fun z hz => offers_assign hx hp hS hz) ?_
    rw [assigned, List.mem_cons] at hy
    exact or_assoc.mpr hy
  | @update S x log value is _ _ _ ih =>
    rw [linesAll_cons, lines, ← List.append_assoc]
    exact ih (fun z hz => (hS z hz).append_line rfl) hy
  | @loop S k length body is hne hbody _ _ ih =>
    rw [linesAll_cons, lines, ← List.append_assoc]
    refine ih (fun z hz => (hS z hz).append ?_) hy
    have hn := Nested.loop rfl (isFor_loop d k length) (hbody.nested (d + 1)) (linesAll_ne_nil hne _)
    exact hn.least

theorem follows (h : Scoped S is) {d : Nat} {above : Listing} (hS : ∀ y, S y → Offers above d y) :
    Follows above (linesAll d is) := by
  induction h generalizing d above with
  | nil => simp [Follows]
  | @assign S x e is hx hp he _ ih =>
    have hshow := shows_assign d hx hp
    rw [linesAll_cons, lines]
    refine ⟨fun y hy => ?_,ih fun z hz => offers_assign hx hp hS hz⟩
    by_cases hye : y ∈ e.vars
    · exact .inl (hS y (he y hye))
    · have hyx := ((hshow.mentions y).mp hy).resolve_right hye
      exact .inr ⟨(hshow.binds y).mpr hyx,hshow.once y hyx hye⟩
  | @update S x log value is hx hv _ ih =>
    have hshow := shows_update d x log value
    rw [linesAll_cons, lines]
    refine ⟨fun y hy => .inl ?_,ih fun z hz => (hS z hz).append_line rfl⟩
    rcases List.mem_cons.mp (((hshow.mentions y).mp hy).resolve_left (by simp)) with rfl | hy
    · exact hS y hx
    · exact hS y (hv y hy)
  | @loop S k length body is hne hbody _ ihb ih =>
    have hshow := shows_loop d k length
    have hn := Nested.loop rfl (isFor_loop d k length) (hbody.nested (d + 1)) (linesAll_ne_nil hne _)
    rw [linesAll_cons, follows_append, lines]
    refine ⟨⟨fun y hy => .inr ?_,?_⟩,ih fun z hz => (hS z hz).append hn.least⟩
    · have hyk := ((hshow.mentions y).mp hy).resolve_right (by simp)
      exact ⟨(hshow.binds y).mpr hyk,hshow.once y hyk (by simp)⟩
    · exact ihb fun z hz => offers_loop length hS hz

theorem countP_binds (h : Scoped S is) (d : Nat) (x : Var) :
    (linesAll d is).countP (·.binds x) = (boundAll is).count x := by
  induction h generalizing d with
  | nil => simp [boundAll]
  | @assign S y e is hy hp _ _ ih =>
    have hb := (shows_assign d hy hp).binds x
    simp only [Option.mem_some_iff] at hb
    rw [linesAll_cons, lines, boundAll, bound, List.countP_append, List.count_append, ih d,
      List.countP_singleton, List.count_singleton]
    simp [hb]
  | @update S y log value is _ _ _ ih =>
    have hb := (shows_update d y log value).binds x
    rw [linesAll_cons, lines, boundAll, bound, List.countP_append, ih d, List.countP_singleton]
    simp [hb]
  | @loop S k length body is _ _ _ ihb ih =>
    have hb := (shows_loop d k length).binds x
    simp only [Option.mem_some_iff] at hb
    rw [linesAll_cons, lines, boundAll, bound, List.countP_append, List.count_append, ih d,
      List.countP_cons, List.count_cons, ihb (d + 1)]
    simp [hb]

end Item.Scoped

namespace Listing

theorem Follows.inScope {ls above : Listing} (h : Follows above ls) {pre below : Listing} {l : Line}
    (hls : ls = pre ++ l :: below) {x : Var} (hx : x.text ∈ names l.text) :
    Offers (above ++ pre) l.depth x ∨ l.binds x = true ∧ (names l.text).count x.text = 1 := by
  subst hls
  exact (follows_append.mp h).2.1 x hx

theorem shows_return (value : Operand) :
    Item.Shows ⟨0, "return " ++ value.text⟩ none value.vars := by
  have hl : (⟨0, "return " ++ value.text⟩ : Line).text.toList =
      "return".toList ++ ' ' :: value.text.toList := by simp
  have hret : namesIn "return".toList = ["return"] := by decide
  refine ⟨fun y => ?_,fun y => ?_,by simp⟩
  · have hy := y.text_ne (s := "return") (by decide)
    rw [Line.binds_iff hl (by decide)]
    simp [hy]
  · have hy := y.text_ne (s := "return") (by decide)
    rw [names_eq, hl, namesIn_append_break _ _ (by decide), hret]
    simp [hy, Operand.mem_namesIn_text]

theorem isFor_return (value : Operand) : Line.isFor ⟨0, "return " ++ value.text⟩ = false := by
  have hl : (⟨0, "return " ++ value.text⟩ : Line).text.toList =
      "return".toList ++ ' ' :: value.text.toList := by simp
  rw [Bool.eq_false_iff, ne_eq, Line.isFor_iff hl (by decide)]
  decide

/-- Code that is scoped as a tree and binds no name twice, followed by a return statement. -/
theorem wellScoped {is : List Item} (h : Item.Scoped (fun _ => False) is)
    (hn : ∀ x, (Item.boundAll is).count x ≤ 1) {value : Operand}
    (hv : ∀ x ∈ value.vars, x ∈ Item.assigned is) :
    WellScoped (Item.linesAll 0 is ++ [⟨0, "return " ++ value.text⟩]) := by
  have hnest := (h.nested 0).append (Nested.single rfl (isFor_return value))
  have hshow := shows_return value
  have hempty : ∀ y : Var, False → Offers [] (0 : Nat) y := fun _ => False.elim
  have hfollows : Follows [] (Item.linesAll 0 is ++ [⟨0, "return " ++ value.text⟩]) := by
    refine follows_append.mpr ⟨h.follows hempty,⟨fun y hy => .inl ?_,trivial⟩⟩
    have hy := ((hshow.mentions y).mp hy).resolve_left (by simp)
    exact h.offers hempty (.inr (hv y hy))
  have hscope : ∀ above l below, Item.linesAll 0 is ++ [⟨0, "return " ++ value.text⟩] =
      above ++ l :: below → ∀ x : Var, x.text ∈ names l.text →
      Offers above l.depth x ∨ l.binds x = true ∧ (names l.text).count x.text = 1 :=
    fun above l below hls x hx => hfollows.inScope hls hx
  refine ⟨hnest.start,hnest.chain,hnest.ending,fun x hx => ?_,hscope⟩
  have hle : List.countP (Line.binds · x) (Item.linesAll 0 is ++ [⟨0, "return " ++ value.text⟩]) ≤
      1 := by
    have hb := hshow.binds x
    rw [List.countP_append, h.countP_binds, List.countP_singleton]
    simpa [hb] using hn x
  refine Nat.le_antisymm hle (List.countP_pos_iff.mpr ?_)
  obtain ⟨l,hl,hx⟩ := hx
  obtain ⟨above,below,hls⟩ := List.append_of_mem hl
  rcases hscope above l below hls x hx with ⟨before,b,between,rfl,hb,_⟩ | ⟨hb,_⟩
  · exact ⟨b,by rw [hls]; simp,hb⟩
  · exact ⟨l,hl,hb⟩

end Listing

end FitCode
