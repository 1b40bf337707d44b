import FitCode.Proofs.Code.Scope
import FitCode.Proofs.Lowering.Placement

/-! # The lines that steps write

With one loop open at most, every line of a draft stands in its body or waits in front of that loop.
A step that writes plain lines adds a line that opens a loop each time it opens one, and none besides.
-/
namespace FitCode

open Text

namespace Text

/-- The text has no second line. -/
def IsLine (text : String) : Prop := '\n' ∉ text.toList

instance (text : String) : Decidable (IsLine text) := inferInstanceAs (Decidable (_ ∉ _))

@[simp] theorem isLine_append {a b : String} : IsLine (a ++ b) ↔ IsLine a ∧ IsLine b := by
  simp [IsLine, not_or]

theorem isLine_toString_nat (n : Nat) : IsLine (toString n) := newline_not_mem_toString n

theorem isLine_toString_int (n : Int) : IsLine (toString n) :=
  (Operand.whole n).newline_not_mem_text

theorem isLine_floatCode (x : Float) : IsLine (Datum.floatCode x) :=
  (Operand.literal x).newline_not_mem_text

theorem isLine_intercalate {sep : String} (hs : IsLine sep) {ts : List String}
    (ht : ∀ t ∈ ts, IsLine t) : IsLine (String.intercalate sep ts) :=
  newline_not_mem_intercalate hs ht

/-- What neither starts nor continues an identifier is not in one. -/
theorem not_mem_of_isIdentifier {text : String} {c : Char} (h : isIdentifier text = true)
    (hs : isIdentStart c = false) (hc : isIdentContinue c = false) : c ∉ text.toList := by
  rw [isIdentifier] at h
  split at h
  · cases h
  · rename_i d ds heq
    simp only [Bool.and_eq_true, List.all_eq_true] at h
    rw [heq]
    intro hm
    rcases List.mem_cons.mp hm with rfl | hm
    · exact Bool.false_ne_true (hs.symm.trans h.1)
    · exact Bool.false_ne_true (hc.symm.trans (h.2 c hm))

theorem mem_of_mem_trimEnd {p : Char → Bool} {cs : List Char} {c : Char} (h : c ∈ trimEnd p cs) :
    c ∈ cs := by
  rw [trimEnd, List.mem_reverse] at h
  exact List.mem_reverse.mp ((List.dropWhile_sublist p).subset h)

end Text

/-- Identifiers that a stem makes are no keywords, which end in letters. -/
theorem numbered_ne_for (stem : String) (k : Nat) : numbered stem k ≠ "for" := by
  intro h
  have hlist := congrArg String.toList h
  rw [numbered, String.toList_append] at hlist
  have hne : (toString k).toList ≠ [] := by
    rw [toList_toString_nat]
    exact Nat.toDigits_ne_nil
  have hlast := congrArg List.getLast? hlist
  rw [List.getLast?_append_of_ne_nil _ hne] at hlast
  have hmem : 'r' ∈ (toString k).toList := List.mem_of_getLast? hlast
  exact absurd (isDigit_toString hmem) (by decide)

theorem not_mem_numbered {stem : String} {c : Char} (h : isIdentifier stem = true)
    (hs : isIdentStart c = false) (hc : isIdentContinue c = false) (hd : c.isDigit = false)
    (k : Nat) : c ∉ (numbered stem k).toList := by
  rw [numbered, String.toList_append, List.mem_append]
  refine not_or.mpr ⟨not_mem_of_isIdentifier h hs hc,fun hm => ?_⟩
  exact Bool.false_ne_true (hd.symm.trans (isDigit_toString hm))

theorem isLine_numbered {stem : String} (h : isIdentifier stem = true) (k : Nat) :
    IsLine (numbered stem k) := newline_not_mem_numbered h k

namespace Line

/-- The line is one line, and its text starts where its indentation ends. -/
structure Tidy (l : Line) : Prop where
  isLine : IsLine l.text
  unpadded : l.text.toList.dropWhile isPad = l.text.toList

theorem Tidy.of_cons {l : Line} (hl : IsLine l.text) {c : Char} {cs : List Char}
    (ht : l.text.toList = c :: cs) (hc : isPad c = false) : l.Tidy :=
  ⟨hl,by rw [ht, List.dropWhile_cons_of_neg (by simp [hc])]⟩

/-- A tidy line stands outside of all loops if it opens one. -/
structure Plain (l : Line) : Prop extends Tidy l where
  outermost : l.isFor = true → l.depth = 0

/-- The snippet is a line that opens no loop, wherever it is written. -/
def IsStatement (text : String) : Prop :=
  ∀ d : Nat, ∃ l, Line.ofSnippet text d = [l] ∧ l.Tidy ∧ l.isFor = false

theorem isStatement_of {stem text : String} (hstem : isIdentifier stem = true) (k : Nat) {op : Char}
    {rest : List Char} (ht : text.toList = (numbered stem k).toList ++ ' ' :: op :: rest)
    (hop : isBlank op = false) (hl : IsLine text) : IsStatement text := by
  intro d
  have hspace : ' ' ∉ (numbered stem k).toList := not_mem_numbered hstem (by decide) (by decide) (by decide) k
  have htab : '\t' ∉ (numbered stem k).toList := not_mem_numbered hstem (by decide) (by decide) (by decide) k
  obtain ⟨c,cs,hname⟩ : ∃ c cs, (numbered stem k).toList = c :: cs :=
    List.exists_cons_of_ne_nil fun h => numbered_ne_empty _ _ (String.toList_eq_nil_iff.mp h)
  have hpad : isPad c = false := by
    rw [hname, List.mem_cons, not_or] at hspace htab
    simp [isPad, Ne.symm hspace.1, Ne.symm htab.1]
  have hsplit : text.toList = ((numbered stem k).toList ++ [' ']) ++ op :: rest := by simp [ht]
  have hline := Item.toList_lineOf hsplit hop d
  rw [List.append_assoc, List.singleton_append] at hline
  refine ⟨Item.lineOf d text,?_,?_,?_⟩
  · rw [hname] at ht
    exact ofSnippet_single ht hpad hl d
  · have hone : IsLine (Item.lineOf d text).text := by
      intro hm
      rw [Item.lineOf, String.toList_ofList] at hm
      exact hl (mem_of_mem_trimEnd hm)
    rw [hname, List.cons_append] at hline
    exact .of_cons hone hline hpad
  · rw [Bool.eq_false_iff, ne_eq, isFor_iff hline hspace]
    exact numbered_ne_for stem k

theorem isStatement_assign {stem : String} (hstem : isIdentifier stem = true) (k : Nat) {expr : String}
    (he : IsLine expr) : IsStatement (numbered stem k ++ " = " ++ expr) := by
  have hlist : (numbered stem k ++ " = " ++ expr).toList =
      (numbered stem k).toList ++ ' ' :: '=' :: ' ' :: expr.toList := by simp
  refine isStatement_of hstem k hlist (by decide) ?_
  rw [isLine_append, isLine_append]
  exact ⟨⟨isLine_numbered hstem k,by decide⟩,he⟩

end Line

namespace Draft

variable {c c' c'' : Draft}

/-- The lines that wait in front of the outermost open loop. -/
def waiting (c : Draft) : List Line := ((c.stack.head?.bind c.loop?).map (·.queued)).getD []

/-- The lines of the body and those that wait. -/
def lines (c : Draft) : List Line := c.body ++ c.waiting

/-- Plain lines are added, one that opens a loop for each loop that was opened. -/
def Writes (c c' : Draft) : Prop :=
  ∃ new : List Line, c'.lines.Perm (c.lines ++ new) ∧ (∀ l ∈ new, l.Plain) ∧
    c'.loopCount = c.loopCount + new.countP Line.isFor

theorem waiting_of_top (hs : c.stack = []) : c.waiting = [] := by
  rw [waiting, hs]
  rfl

theorem waiting_eq {i : Nat} {l : Loop} (hs : c.stack = [i]) (hl : c.loops[i]? = some l) :
    c.waiting = l.queued := by
  rw [waiting, hs]
  simp [loop?, hl]

namespace Writes

theorem of_lines (hl : c'.lines = c.lines) (hc : c'.loopCount = c.loopCount) : c.Writes c' :=
  ⟨[],by rw [hl, List.append_nil],fun l hm => (nomatch hm),hc⟩

theorem refl (c : Draft) : c.Writes c := of_lines rfl rfl

theorem of_eq (hb : c'.body = c.body) (hs : c'.stack = c.stack) (hl : c'.loops = c.loops)
    (hc : c'.loopCount = c.loopCount) : c.Writes c' := by
  refine of_lines ?_ hc
  have hloop : c'.loop? = c.loop? := by
    funext i
    rw [loop?, loop?, hl]
  rw [lines, lines, waiting, waiting, hb, hs, hloop]

theorem trans (h : c.Writes c') (h' : c'.Writes c'') : c.Writes c'' := by
  obtain ⟨new,hperm,hplain,hcount⟩ := h
  obtain ⟨new',hperm',hplain',hcount'⟩ := h'
  refine ⟨new ++ new',?_,fun l hl => ?_,?_⟩
  · rw [← List.append_assoc]
    exact hperm'.trans (hperm.append_right new')
  · exact (List.mem_append.mp hl).elim (hplain l) (hplain' l)
  · rw [List.countP_append]
    omega

theorem of_statement {l : Line} (hl : l.Tidy) (hfor : l.isFor = false)
    (hperm : c'.lines.Perm (c.lines ++ [l])) (hc : c'.loopCount = c.loopCount) : c.Writes c' := by
  refine ⟨[l],hperm,fun l' hl' => ?_,by simp [hfor, hc]⟩
  obtain rfl := List.mem_singleton.mp hl'
  exact ⟨hl,fun h => absurd (hfor.symm.trans h) Bool.false_ne_true⟩

theorem write {text : String} (h : Line.IsStatement text) (c : Draft) :
    c.Writes { c with body := c.body.append text c.depth } := by
  obtain ⟨l,hl,hline,hfor⟩ := h c.depth
  refine of_statement hline hfor ?_ rfl
  change ((c.body ++ Line.ofSnippet text c.depth) ++ c.waiting).Perm ((c.body ++ c.waiting) ++ [l])
  rw [hl, List.append_assoc, List.append_assoc]
  exact List.perm_append_comm.append_left c.body

theorem queueAt {i : Nat} {m : Loop} (hs : c.stack = [i]) (hm : c.loops[i]? = some m) (ls : List Line) :
    (c.queueAt 0 ls).lines = c.lines ++ ls ∧ (c.queueAt 0 ls).loopCount = c.loopCount := by
  have hget : c.stack[0]? = some i := by rw [hs]; rfl
  rw [Draft.queueAt, hget]
  refine ⟨?_,rfl⟩
  rw [lines, lines, waiting_eq hs hm, List.append_assoc]
  congr 1
  have hmod : (c.modifyLoop i fun l => { l with queued := l.queued ++ ls }).loops[i]? =
      some { m with queued := m.queued ++ ls } := by
    simp [Draft.modifyLoop, hm]
  exact waiting_eq (c := c.modifyLoop i _) hs hmod

/-- A binding goes to the body, or in front of the loop that is open. -/
theorem introduce (h : c.Sound) (hone : c.depth ≤ 1) {statement : String}
    (hst : Line.IsStatement statement) (o : Options) (name : String) {d : Nat} (hd : d ≤ c.depth) :
    c.Writes (c.introduce o name statement d) := by
  have hplace : ∀ d ≤ c.depth, ∀ c₁ : Draft, c₁.stack = c.stack → c₁.loops = c.loops →
      c₁.body = c.body → c₁.loopCount = c.loopCount → c.Writes (if d = c₁.depth then
        { c₁ with body := c₁.body ++ Line.ofSnippet statement d }
      else c₁.queueAt d (Line.ofSnippet statement d)) := by
    intro d hd c₁ hs hl hb hc
    have hsame : c.Writes c₁ := of_eq hb hs hl hc
    split
    · rename_i heq
      rw [heq]
      exact hsame.trans (write hst c₁)
    · rename_i hne
      have hdepth : c₁.depth = c.depth := by rw [depth, depth, hs]
      obtain rfl : d = 0 := by omega
      obtain ⟨m,i,hi,hm⟩ := h.valid 0 (by omega)
      have hstack : c.stack = [i] := by
        have hlen : c.stack.length ≤ 1 := hone
        cases hst : c.stack with
        | nil => simp [hst] at hi
        | cons j js =>
          rw [hst] at hi hlen
          obtain rfl : j = i := by simpa using hi
          have hjs : js = [] := List.eq_nil_of_length_eq_zero (by simpa using hlen)
          rw [hjs]
      obtain ⟨l,hl',hline,hfor⟩ := hst 0
      obtain ⟨hlines,hcount⟩ := queueAt (hs.trans hstack) (hl ▸ hm) (Line.ofSnippet statement (0 : Nat))
      refine hsame.trans (of_statement hline hfor ?_ hcount)
      rw [hlines, hl']
  rw [Draft.introduce]
  refine hplace (if o.hoist then d else c.depth) ?_ _ rfl rfl rfl rfl
  split
  · exact hd
  · exact Nat.le_refl _

theorem withLoop {o : Options} (ho : o.Valid) (hs : c.stack = []) (vars : List Identity) (length : Nat) :
    c.Writes (c.withLoop o vars length) := by
  have hstem : isIdentifier o.loopStem = true :=
    ho.isIdentifier ("loop_prefix", _) (by simp [Options.variableNames])
  have hdepth : c.depth = 0 := by rw [depth, hs]; rfl
  let l : Line := ⟨c.depth, (c.nextLoop o vars length).opening⟩
  have hlist : l.text.toList = "for".toList ++ ' ' :: ((numbered o.loopStem c.loopCount).toList ++
      (" in range(".toList ++ (toString length).toList ++ "):".toList)) := by
    simp [l, Loop.opening, nextLoop]
  have hfor : l.isFor = true := (Line.isFor_iff hlist (by decide)).mpr rfl
  refine ⟨[l],?_,fun l' hl' => ?_,by simp [hfor, Draft.withLoop]⟩
  · have hstack : (c.withLoop o vars length).stack = [c.loops.length] := by
      change c.stack ++ [c.loops.length] = _
      rw [hs, List.nil_append]
    have hnew : (c.withLoop o vars length).loops[c.loops.length]? = some (c.nextLoop o vars length) :=
      List.getElem?_concat_length
    rw [lines, lines, waiting_eq hstack hnew, waiting_of_top hs, withLoop_body ho]
    simp [nextLoop, l]
  · obtain rfl := List.mem_singleton.mp hl'
    have hone : IsLine ("for " ++ numbered o.loopStem c.loopCount ++ " in range(" ++ toString length ++
        "):") := by
      simp only [isLine_append]
      exact ⟨⟨⟨⟨by decide,isLine_numbered hstem _⟩,by decide⟩,isLine_toString_nat length⟩,by decide⟩
    have hhead : "for".toList = 'f' :: "or".toList := by decide
    rw [hhead, List.cons_append] at hlist
    exact ⟨.of_cons hone hlist (by decide),fun _ => by simp [l, hdepth]⟩

/-- Closing the loop puts the lines that wait in front of it, and adds a `pass` at most. -/
theorem withoutLoop (h : c.Sound) {i : Nat} {l : Loop} (hs : c.stack = [i]) (hl : c.loops[i]? = some l) :
    c.Writes ({ c with body := closedBody c.body l }.withoutLoop i l) := by
  have hsl := h.loops 0 l ⟨i,by rw [hs]; rfl,hl⟩
  obtain ⟨header,as,bs,hheader,hbody,hstart⟩ : ∃ (header : Line) (as bs : Listing),
      header.depth = 0 ∧ c.body = as ++ header :: bs ∧ l.start = as.length := by
    obtain ⟨hlt,hget⟩ := List.getElem?_eq_some_iff.mp hsl.line
    refine ⟨c.body[l.start],c.body.take l.start,c.body.drop (l.start + 1),?_,?_,?_⟩
    · rw [hget]
      rfl
    · rw [List.cons_getElem_drop_succ, List.take_append_drop]
    · rw [List.length_take]
      omega
  have hdepth : (l.depth : Int) = header.depth + 1 := by
    rw [hsl.depth, hheader]
    rfl
  have hclosed : closedBody (as ++ header :: bs) l = _ := closedBody_append hstart hdepth
  have htop : ({ c with body := closedBody c.body l }.withoutLoop i l).lines = closedBody c.body l := by
    have hstack : ({ c with body := closedBody c.body l }.withoutLoop i l).stack = [] := by
      change c.stack.dropLast = []
      rw [hs]
      rfl
    rw [lines, waiting_of_top hstack, List.append_nil]
    rfl
  have hpass : ∀ l' ∈ passFor header bs, l'.text = "pass" := by
    intro l' hl'
    rw [passFor] at hl'
    split at hl'
    · rw [List.mem_singleton.mp hl']
    · cases hl'
  have hfor : ∀ l' ∈ passFor header bs, l'.isFor = false := by
    intro l' hl'
    rw [Line.isFor, hpass l' hl']
    decide
  refine ⟨passFor header bs,?_,fun l' hl' => ⟨?_,fun h => ?_⟩,?_⟩
  · rw [htop, hbody, hclosed, lines, waiting_eq hs hl, hbody, List.perm_iff_count]
    intro a
    simp only [List.count_append, List.count_cons]
    omega
  · have hone : IsLine l'.text := by
      rw [hpass l' hl']
      decide
    exact .of_cons hone (by rw [hpass l' hl']; rfl) (by decide)
  · exact absurd ((hfor l' hl').symm.trans h) Bool.false_ne_true
  · rw [List.countP_eq_zero.mpr fun l' hl' => by simp [hfor l' hl']]
    rfl

theorem lines_atTop (c : Draft) : c.atTop.lines = [] := by
  rw [lines, waiting_of_top rfl]
  rfl

/-- What was written at top level waits in front of the open loop. -/
theorem adopt {T : Nat → Prop} {inner : Draft} {i : Nat} {l : Loop} (hs : c.stack = [i])
    (hl : c.loops[i]? = some l) (hb : c.atTop.Balanced T inner) (h : c.atTop.Writes inner) :
    c.Writes ((inner.backTo c).adopt inner) := by
  obtain ⟨new,hperm,hplain,hcount⟩ := h
  have hbody : inner.lines = inner.body := by
    rw [lines, waiting_of_top hb.stack, List.append_nil]
  rw [lines_atTop, List.nil_append, hbody] at hperm
  have hback : (inner.backTo c).loops[i]? = some l := getElem?_backTo hb hl
  have hsame : (inner.backTo c).lines = c.lines := by
    rw [lines, lines, waiting_eq hs hl, waiting_eq (c := inner.backTo c) hs hback]
    rfl
  obtain ⟨hlines,hloops⟩ := queueAt (c := inner.backTo c) hs hback inner.body
  refine ⟨new,?_,hplain,hloops.trans hcount⟩
  have hadopt : ((inner.backTo c).adopt inner).lines = ((inner.backTo c).queueAt 0 inner.body).lines := rfl
  rw [hadopt, hlines, hsame]
  exact hperm.append_left c.lines

end Writes

end Draft

end FitCode
