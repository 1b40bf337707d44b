import FitCode.Program.Scan
import FitCode.Proofs.Program.Numerals

/-! # Reading generated code as tokens

A phrase is a text that is read as its tokens wherever it stands, as long as what follows does not
continue its last token. Phrases are put together from names, numbers, marks and brackets, and lines of
phrases are read with the changes of their indentation.
-/
namespace FitCode.Program

open FitCode.Text

namespace Scan

/-- Reading gets from one place to another in `k` steps. -/
def Goes (k : Nat) (s : Scan) (cs : List Char) (s' : Scan) (cs' : List Char) : Prop :=
  ∀ n, finish (n + k) s cs = finish n s' cs'

/-- The tokens read so far. -/
def view (s : Scan) : List Token := s.tokens.toList.map (·.token)

variable {s s' s'' : Scan} {cs cs' cs'' rest : List Char} {k k' : Nat}

theorem Goes.trans (h : Goes k s cs s' cs') (h' : Goes k' s' cs' s'' cs'') :
    Goes (k + k') s cs s'' cs'' := by
  intro n
  have hsum : n + (k + k') = n + k' + k := by omega
  rw [hsum, h, h']

theorem goes_of_step (h : s.step cs = .more s' cs') : Goes 1 s cs s' cs' := by
  intro n
  rw [finish, h]

theorem goes_of_token (hs : s.isFresh = false) (h : s.token cs = .more s' cs') : Goes 1 s cs s' cs' :=
  goes_of_step (by rw [step, hs]; exact h)

@[simp] theorem view_push (s : Scan) (t : Token) : (s.push t).view = s.view ++ [t] := by
  simp [view, push]

@[simp] theorem brackets_push (s : Scan) (t : Token) : (s.push t).brackets = s.brackets := rfl

@[simp] theorem blocks_push (s : Scan) (t : Token) : (s.push t).blocks = s.blocks := rfl

@[simp] theorem isFresh_push (s : Scan) (t : Token) : (s.push t).isFresh = s.isFresh := rfl

/-- What reading adds inside of a line. -/
structure Adds (s s' : Scan) (ts : List Token) : Prop where
  view : s'.view = s.view ++ ts
  blocks : s'.blocks = s.blocks
  brackets : s'.brackets = s.brackets
  isFresh : s'.isFresh = false

theorem Adds.trans {ts ts' : List Token} (h : Adds s s' ts) (h' : Adds s' s'' ts') :
    Adds s s'' (ts ++ ts') where
  view := by rw [h'.view, h.view, List.append_assoc]
  blocks := h'.blocks.trans h.blocks
  brackets := h'.brackets.trans h.brackets
  isFresh := h'.isFresh

theorem adds_push (hs : s.isFresh = false) (t : Token) : Adds s (s.push t) [t] :=
  ⟨view_push s t,rfl,rfl,hs⟩

theorem finish_blank (hs : s.isFresh = false) (n : Nat) (cs : List Char) :
    finish n s (' ' :: cs) = finish n s cs := by
  cases n with
  | zero => rfl
  | succ n =>
    have htoken : s.token (' ' :: cs) = s.token cs := by simp [token]
    simp [finish, step, hs, htoken]

theorem goes_blank (hs : s.isFresh = false) (cs : List Char) : Goes 0 s (' ' :: cs) s cs :=
  fun n => finish_blank hs n cs

end Scan

/-- The characters that never stand at the start of a phrase. -/
def joints : List Char := ['*', '=', '/', '>', '<', '.']

/-- What follows a mark without making it a longer one. -/
def Starts (cs : List Char) : Prop := ∀ c ∈ cs.head?, c ∉ joints

theorem find_longMarks {c : Char} {cs : List Char} (h : Starts cs) :
    longMarks.find? (·.isPrefixOf (c :: cs)) = none := by
  have hsecond : ∀ l ∈ longMarks, l.tail.head?.any joints.contains = true := by decide
  refine List.find?_eq_none.mpr fun l hl hfront => ?_
  obtain ⟨b,hl,hb⟩ := (Option.any_eq_true ..).mp (hsecond l hl)
  cases l with
  | nil => cases hl
  | cons a l =>
    cases l with
    | nil => cases hl
    | cons b' l =>
      cases hl
      cases cs with
      | nil => simp at hfront
      | cons d cs =>
        simp only [List.isPrefixOf_cons_cons, Bool.and_eq_true, beq_iff_eq] at hfront
        exact h d rfl (hfront.2.1 ▸ List.contains_iff_mem.mp hb)

theorem find_longMarks_closing {c : Char} (hc : isClosing c = true) (cs : List Char) :
    longMarks.find? (·.isPrefixOf (c :: cs)) = none := by
  have hfirst : ∀ l ∈ longMarks, ∃ a, isClosing a = false ∧ l.head? = some a := by
    have hall : longMarks.all (fun l => l.head?.any fun a => !isClosing a) = true := by decide
    intro l hl
    have h := List.all_eq_true.mp hall l hl
    cases hh : l.head? with
    | none => simp [hh] at h
    | some a => exact ⟨a,by simpa [hh] using h,rfl⟩
  refine List.find?_eq_none.mpr fun l hl hfront => ?_
  obtain ⟨a,ha,hl⟩ := hfirst l hl
  cases l with
  | nil => cases hl
  | cons a' l =>
    cases hl
    simp only [List.isPrefixOf_cons_cons, Bool.and_eq_true, beq_iff_eq] at hfront
    rw [hfront.1, hc] at ha
    cases ha

namespace Scan

variable {s : Scan} {c : Char} {cs rest : List Char}

/-- The characters that end or interrupt a line, and blanks. -/
def isSpecial (c : Char) : Bool :=
  c == ' ' || c == '\t' || c == '\x0c' || c == '#' || c == '\n' || c == '\\'

/-- No quote announces a text. -/
def Unquoted (cs : List Char) : Prop := ∀ q ∈ (cs.dropWhile Char.isAlpha).head?, q ≠ '"' ∧ q ≠ '\''

theorem drop_length_takeWhile {α : Type} (p : α → Bool) (as : List α) :
    as.drop (as.takeWhile p).length = as.dropWhile p := by
  induction as with
  | nil => rfl
  | cons a as ih =>
    cases ha : p a with
    | true => simp [ha, ih]
    | false => simp [ha]

theorem token_eq (hc : isSpecial c = false) (hq : Unquoted (c :: cs)) : s.token (c :: cs) =
    if isWordChar c && !isDigit c then s.word (c :: cs)
    else if isDigit c || (c == '.' && cs.head?.any isDigit) then
      (number? (c :: cs)).elim (s.fail s.line true) fun r => .more (s.push r.1) r.2
    else s.mark c cs := by
  simp only [isSpecial, Bool.or_eq_false_iff, beq_eq_false_iff_ne] at hc
  obtain ⟨⟨⟨⟨⟨hsp,htab⟩,hff⟩,hhash⟩,hnl⟩,hbs⟩ := hc
  have hdrop : (c :: cs).dropWhile (fun c => c == ' ' || c == '\t' || c == '\x0c') = c :: cs := by
    simp [hsp, htab, hff]
  have hnone : (((c :: cs).drop ((c :: cs).takeWhile Char.isAlpha).length).head?.bind fun q =>
      if q == '"' || q == '\'' then textStyle? ((c :: cs).takeWhile Char.isAlpha) else none) = none := by
    rw [drop_length_takeWhile]
    cases hh : ((c :: cs).dropWhile Char.isAlpha).head? with
    | none => rfl
    | some q =>
      obtain ⟨h1,h2⟩ := hq q hh
      simp [h1, h2]
  simp only [token, hdrop]
  split
  · rename_i heq; cases heq
  · rename_i heq; exact absurd (List.cons.inj heq).1 hhash
  · rename_i heq; exact absurd (List.cons.inj heq).1 hnl
  · rename_i heq; exact absurd (List.cons.inj heq).1 hbs
  · rename_i heq; exact absurd (List.cons.inj heq).1 hbs
  · rename_i heq; exact absurd (List.cons.inj heq).1 hbs
  · rename_i heq
    cases heq
    rw [hnone]
    simp only
    split
    · rfl
    · split
      · cases number? (c :: cs) <;> rfl
      · rfl

theorem isSpecial_of_isWordChar {c : Char} (h : isWordChar c = true) : isSpecial c = false := by
  cases hs : isSpecial c with
  | false => rfl
  | true =>
    simp only [isSpecial, Bool.or_eq_true, beq_iff_eq] at hs
    rcases hs with ((((rfl | rfl) | rfl) | rfl) | rfl) | rfl <;> cases h

theorem isWordChar_of_isAlpha {c : Char} (h : c.isAlpha = true) : isWordChar c = true := by
  simp [isWordChar, Char.isAlphanum, h]

/-- What may follow a word. -/
def EndsWord (rest : List Char) : Prop :=
  ∀ c ∈ rest.head?, isWordChar c = false ∧ c ≠ '"' ∧ c ≠ '\''

theorem endsWord_of_stops (h : Stops rest) : EndsWord rest := by
  intro c hc
  have hs := h c hc
  simp only [isStop, Bool.and_eq_true, Bool.not_eq_true', bne_iff_ne] at hs
  exact ⟨hs.1.1.1,hs.1.2,hs.2⟩

theorem unquoted_of_not_isAlpha (ha : ∀ c ∈ cs.head?, c.isAlpha = false ∧ c ≠ '"' ∧ c ≠ '\'') :
    Unquoted cs := by
  intro q hq
  cases cs with
  | nil => cases hq
  | cons c cs =>
    obtain ⟨ha,hc⟩ := ha c rfl
    rw [List.dropWhile_cons_of_neg (by simp [ha])] at hq
    cases hq
    exact hc

theorem unquoted_word {w : List Char} (hw : ∀ c ∈ w, isWordChar c = true) (hr : EndsWord rest) :
    Unquoted (w ++ rest) := by
  induction w with
  | nil =>
    refine unquoted_of_not_isAlpha fun c hc => ?_
    obtain ⟨hword,hquote⟩ := hr c hc
    refine ⟨?_,hquote⟩
    cases ha : c.isAlpha with
    | false => rfl
    | true => rw [isWordChar_of_isAlpha ha] at hword; cases hword
  | cons c w ih =>
    have hc := hw c (by simp)
    cases ha : c.isAlpha with
    | true =>
      intro q hq
      rw [List.cons_append, List.dropWhile_cons_of_pos ha] at hq
      exact ih (fun d hd => hw d (by simp [hd])) q hq
    | false =>
      refine unquoted_of_not_isAlpha fun d hd => ?_
      cases hd
      refine ⟨ha,?_,?_⟩
      · rintro rfl
        cases hc
      · rintro rfl
        cases hc

/-- Words of ASCII characters that do not start with a digit. -/
structure IsWord (w : List Char) : Prop where
  start : ∃ c ∈ w.head?, isDigit c = false
  chars : ∀ c ∈ w, (c.isAlphanum || c == '_') = true

theorem isWord_of_all {w : List Char}
    (h : (w.head?.any (fun c => !isDigit c) && w.all fun c => c.isAlphanum || c == '_') = true) : IsWord w := by
  obtain ⟨hstart,hchars⟩ := Bool.and_eq_true_iff.mp h
  refine ⟨?_,List.all_eq_true.mp hchars⟩
  cases w with
  | nil => cases hstart
  | cons c w => exact ⟨c,rfl,by simpa using hstart⟩

/-- The token of a word. -/
def wordToken (w : List Char) : Token :=
  if keywords.contains (String.ofList w) then .keyword (String.ofList w) else .name (String.ofList w)

theorem range_of_isAlpha {c : Char} (h : c.isAlpha = true) :
    65 ≤ c.toNat ∧ c.toNat ≤ 90 ∨ 97 ≤ c.toNat ∧ c.toNat ≤ 122 := by
  rcases Bool.or_eq_true_iff.mp h with h | h
  · obtain ⟨hlo,hhi⟩ := of_decide_eq_true h
    exact .inl ⟨UInt32.le_iff_toNat_le.mp hlo,UInt32.le_iff_toNat_le.mp hhi⟩
  · obtain ⟨hlo,hhi⟩ := Bool.and_eq_true_iff.mp h
    exact .inr ⟨UInt32.le_iff_toNat_le.mp (of_decide_eq_true hlo),
      UInt32.le_iff_toNat_le.mp (of_decide_eq_true hhi)⟩

theorem range_of_isAlphanum {c : Char} (h : (c.isAlphanum || c == '_') = true) :
    48 ≤ c.toNat ∧ c.toNat < 128 := by
  simp only [Char.isAlphanum, Char.isDigit, Bool.or_eq_true, Bool.and_eq_true, decide_eq_true_eq, beq_iff_eq,
    UInt32.le_iff_toNat_le, ge_iff_le] at h
  rcases h with (halpha | ⟨hlo,hhi⟩) | rfl
  · have hrange := range_of_isAlpha halpha
    omega
  · have hlo : (48 : Nat) ≤ c.toNat := hlo
    have hhi : c.toNat ≤ (57 : Nat) := hhi
    omega
  · decide

theorem isBlank_of_range {c : Char} (h : 33 ≤ c.toNat ∧ c.toNat < 128) :
    isBlank c = false ∧ isLineEnd c = false := by
  simp only [isBlank, isLineEnd, Bool.or_eq_false_iff, Bool.and_eq_false_iff, beq_eq_false_iff_ne,
    decide_eq_false_iff_not]
  omega

theorem isWordChar_of_isAlphanum {c : Char} (h : (c.isAlphanum || c == '_') = true) :
    isWordChar c = true := by
  rw [isWordChar, h, Bool.true_or]

theorem IsWord.isIdentifier {w : List Char} (hw : IsWord w) :
    isIdentifier (String.ofList w) = true := by
  obtain ⟨c,hc,hd⟩ := hw.start
  cases w with
  | nil => cases hc
  | cons c' w =>
    cases hc
    have hchars := hw.chars c (by simp)
    simp only [Text.isIdentifier, String.toList_ofList, Bool.and_eq_true, List.all_eq_true]
    refine ⟨?_,fun d hd => ?_⟩
    · have hnd : c.isDigit = false := by
        cases hcd : c.isDigit with
        | false => rfl
        | true => rw [isDigit_of_char hcd] at hd; cases hd
      simp only [Char.isAlphanum, hnd, Bool.or_false] at hchars
      rw [isIdentStart, if_pos ((range_of_isAlphanum (hw.chars c (by simp))).2)]
      exact hchars
    · have hd' := hw.chars d (by simp [hd])
      rw [isIdentContinue, if_pos ((range_of_isAlphanum hd').2)]
      exact hd'

theorem IsWord.normalForm {w : List Char} (hw : IsWord w) :
    normalForm (String.ofList w) = String.ofList w := by
  rw [Text.normalForm, if_pos]
  simp only [String.toList_ofList, List.all_eq_true, decide_eq_true_eq]
  exact fun c hc => (range_of_isAlphanum (hw.chars c hc)).2

theorem token_word {w : List Char} (hw : IsWord w) (hr : EndsWord rest) :
    s.token (w ++ rest) = .more (s.push (wordToken w)) rest := by
  have hchars : ∀ c ∈ w, isWordChar c = true := fun c hc => isWordChar_of_isAlphanum (hw.chars c hc)
  have hspan : (w ++ rest).span isWordChar = (w, rest) := by
    rw [List.span_eq_takeWhile_dropWhile, List.takeWhile_append_of_pos hchars,
      List.dropWhile_append_of_pos hchars]
    cases rest with
    | nil => simp
    | cons c rest => simp [(hr c rfl).1]
  have hword : s.word (w ++ rest) = .more (s.push (wordToken w)) rest := by
    simp only [word, hspan, hw.isIdentifier, hw.normalForm, wordToken, Bool.not_true,
      Bool.false_eq_true, if_false]
    split <;> rfl
  obtain ⟨c,hc,hd⟩ := hw.start
  have hq := unquoted_word hchars hr
  cases w with
  | nil => cases hc
  | cons c' w =>
    cases hc
    have hwc := hchars c (by simp)
    rw [List.cons_append] at hq hword ⊢
    rw [token_eq (isSpecial_of_isWordChar hwc) hq, if_pos (by simp [hwc, hd])]
    exact hword

theorem isAlpha_of_isDigit {c : Char} (h : isDigit c = true) : c.isAlpha = false := by
  simp only [isDigit, Bool.and_eq_true, decide_eq_true_eq] at h
  cases ha : c.isAlpha with
  | false => rfl
  | true =>
    have hrange := range_of_isAlpha ha
    omega

theorem token_numeral {m : Numeral} (hm : m.Valid) (hr : Stops rest) {t : Token}
    (ht : m.token? = some t) : s.token (m.chars ++ rest) = .more (s.push t) rest := by
  have hnumber := Numeral.number_chars hm hr ht
  obtain ⟨c,cs,hcs⟩ := List.exists_cons_of_ne_nil hm.nonempty
  have hc : isDigit c = true := hm.whole c (by simp [hcs])
  have hchars : ∃ cs', m.chars ++ rest = c :: cs' := by
    rw [Numeral.chars, hcs]
    exact ⟨_,rfl⟩
  obtain ⟨cs',hcs'⟩ := hchars
  rw [hcs'] at hnumber ⊢
  have hquote : Unquoted (c :: cs') := by
    refine unquoted_of_not_isAlpha fun d hd => ?_
    cases hd
    refine ⟨isAlpha_of_isDigit hc,?_,?_⟩
    · rintro rfl
      cases hc
    · rintro rfl
      cases hc
  rw [token_eq (isSpecial_of_isWordChar (isWordChar_of_isDigit hc)) hquote, if_neg (by simp [hc]),
    if_pos (by simp [hc]), hnumber]
  rfl

theorem token_mark (hm : c ∈ ['+', '-', '*', '/', ',', ':', '=', '.']) (hs : Starts cs)
    (hd : c = '.' → cs.head?.any isDigit = false) :
    s.token (c :: cs) = .more (s.push (.mark (String.ofList [c]))) cs := by
  have hall : ∀ c ∈ ['+', '-', '*', '/', ',', ':', '=', '.'], isSpecial c = false ∧ isWordChar c = false ∧
      isDigit c = false ∧ c.isAlpha = false ∧ c ≠ '"' ∧ c ≠ '\'' ∧ (closing? c).isSome = false ∧
      isClosing c = false ∧ (c.toNat < 32 || c.toNat == 127) = false := forall_of_all (by decide)
  obtain ⟨hspecial,hword,hdigit,halpha,hq,hq',hopen,hclose,hctrl⟩ := hall c hm
  have hpoint : (c == '.' && cs.head?.any isDigit) = false := by
    by_cases hc : c = '.'
    · rw [hd hc, Bool.and_false]
    · simp [hc]
  have hquote : Unquoted (c :: cs) := by
    refine unquoted_of_not_isAlpha fun d hd => ?_
    cases hd
    exact ⟨halpha,hq,hq'⟩
  rw [token_eq hspecial hquote]
  simp only [hword, hdigit, hpoint, mark, find_longMarks hs, hopen, hclose, hctrl, Bool.false_and,
    Bool.or_false, Bool.false_eq_true, if_false]

theorem token_open (hc : c ∈ ['(', '[']) (hs : Starts cs) (hb : s.brackets.length < maxBrackets) :
    s.token (c :: cs) =
      .more ({ s with brackets := (c, s.line) :: s.brackets }.push (.mark (String.ofList [c]))) cs := by
  have hall : ∀ c ∈ ['(', '['], isSpecial c = false ∧ isWordChar c = false ∧ isDigit c = false ∧
      c.isAlpha = false ∧ c ≠ '"' ∧ c ≠ '\'' ∧ c ≠ '.' ∧ (closing? c).isSome = true :=
    forall_of_all (by decide)
  obtain ⟨hspecial,hword,hdigit,halpha,hq,hq',hpoint,hopen⟩ := hall c hc
  have hquote : Unquoted (c :: cs) := by
    refine unquoted_of_not_isAlpha fun d hd => ?_
    cases hd
    exact ⟨halpha,hq,hq'⟩
  rw [token_eq hspecial hquote]
  simp only [hword, hdigit, beq_eq_false_iff_ne.mpr hpoint, mark, find_longMarks hs, hopen,
    Nat.not_le.mpr hb, Bool.false_and, Bool.or_false, Bool.false_eq_true, if_false, if_true]

theorem token_close {o : Char} {line : Nat} {bs : List Bracket} (hc : c ∈ [')', ']'])
    (ho : closing? o = some c) (hb : s.brackets = (o, line) :: bs) : s.token (c :: cs) =
      .more ({ s with brackets := bs }.push (.mark (String.ofList [c]))) cs := by
  have hall : ∀ c ∈ [')', ']'], isSpecial c = false ∧ isWordChar c = false ∧ isDigit c = false ∧
      c.isAlpha = false ∧ c ≠ '"' ∧ c ≠ '\'' ∧ c ≠ '.' ∧ (closing? c).isSome = false ∧
      isClosing c = true := forall_of_all (by decide)
  obtain ⟨hspecial,hword,hdigit,halpha,hq,hq',hpoint,hopen,hclose⟩ := hall c hc
  have hquote : Unquoted (c :: cs) := by
    refine unquoted_of_not_isAlpha fun d hd => ?_
    cases hd
    exact ⟨halpha,hq,hq'⟩
  rw [token_eq hspecial hquote]
  simp only [hword, hdigit, beq_eq_false_iff_ne.mpr hpoint, mark, find_longMarks_closing hclose, hopen,
    hclose, hb, ho, Bool.false_and, Bool.or_false, Bool.false_eq_true, if_false, if_true, beq_self_eq_true]

end Scan

/-- A text that is read as its tokens wherever it stands, opening at most `d` brackets at a time. -/
structure Phrase (d : Nat) (cs : List Char) (ts : List Token) : Prop where
  start : ∃ c ∈ cs.head?, c ∉ joints
  ending : ∃ c ∈ cs.getLast?, isBlank c = false
  oneLine : ∀ c ∈ cs, isLineEnd c = false
  short : ts.length ≤ cs.length
  reads : ∀ (s : Scan) (rest : List Char), s.isFresh = false →
    s.brackets.length + d ≤ Scan.maxBrackets → Stops rest →
    ∃ s', Scan.Goes ts.length s (cs ++ rest) s' rest ∧ Scan.Adds s s' ts

namespace Phrase

open Scan

variable {d d' : Nat} {cs cs' : List Char} {ts ts' : List Token}

theorem starts (h : Phrase d cs ts) (rest : List Char) : Starts (cs ++ rest) := by
  obtain ⟨c,hc,hj⟩ := h.start
  cases cs with
  | nil => cases hc
  | cons c' cs =>
    cases hc
    intro e he
    cases he
    exact hj

theorem mono (h : Phrase d cs ts) (hd : d ≤ d') : Phrase d' cs ts where
  start := h.start
  ending := h.ending
  oneLine := h.oneLine
  short := h.short
  reads := fun s rest hs hb hr => h.reads s rest hs (by omega) hr

theorem ofToken {t : Token} (hstart : ∃ c ∈ cs.head?, c ∉ joints)
    (hchars : ∀ c ∈ cs, isBlank c = false ∧ isLineEnd c = false) (h : ∀ (s : Scan) rest, Stops rest → s.token (cs ++ rest) = .more (s.push t) rest) :
    Phrase 0 cs [t] where
  start := hstart
  ending := by
    obtain ⟨c,hc,_⟩ := hstart
    cases cs with
    | nil => cases hc
    | cons c cs =>
      exact ⟨_,List.getLast?_eq_some_getLast (List.cons_ne_nil c cs),(hchars _ (List.getLast_mem _)).1⟩
  oneLine := fun c hc => (hchars c hc).2
  short := by
    obtain ⟨c,hc,_⟩ := hstart
    cases cs with
    | nil => cases hc
    | cons c cs => simp
  reads := fun s rest hs _ hr =>
    ⟨s.push t,goes_of_token hs (h s rest hr),adds_push hs t⟩

theorem word {w : List Char} (hw : IsWord w) : Phrase 0 w [wordToken w] := by
  refine ofToken ?_ ?_ fun s rest hr => token_word hw (endsWord_of_stops hr)
  · obtain ⟨c,hc,_⟩ := hw.start
    have hchar := hw.chars c (List.mem_of_mem_head? hc)
    refine ⟨c,hc,fun hj => ?_⟩
    have hall : ∀ c ∈ joints, (c.isAlphanum || c == '_') = false := forall_of_all (by decide)
    rw [hall c hj] at hchar
    cases hchar
  · intro c hc
    have hrange := range_of_isAlphanum (hw.chars c hc)
    exact isBlank_of_range ⟨by omega,hrange.2⟩

theorem numeral {m : Numeral} (hm : m.Valid) {t : Token} (ht : m.token? = some t) :
    Phrase 0 m.chars [t] := by
  refine ofToken ?_ ?_ fun s rest hr => token_numeral hm hr ht
  · obtain ⟨c,cs,hcs⟩ := List.exists_cons_of_ne_nil hm.nonempty
    have hdigit : isDigit c = true := hm.whole c (by simp [hcs])
    refine ⟨c,by simp [Numeral.chars, hcs],fun hj => ?_⟩
    have hall : ∀ c ∈ joints, isDigit c = false := forall_of_all (by decide)
    rw [hall c hj] at hdigit
    cases hdigit
  · intro c hc
    rcases Numeral.mem_chars hm hc with h | h
    · simp only [isDigit, Bool.and_eq_true, decide_eq_true_eq] at h
      exact isBlank_of_range ⟨by omega,by omega⟩
    · have hall : ∀ c ∈ ['.', 'e', '-', '+'], isBlank c = false ∧ isLineEnd c = false :=
        forall_of_all (by decide)
      exact hall c h

theorem ending_append (cs : List Char) (h : ∃ c ∈ cs'.getLast?, isBlank c = false) :
    ∃ c ∈ (cs ++ cs').getLast?, isBlank c = false := by
  obtain ⟨c,hc,hb⟩ := h
  exact ⟨c,by rw [List.getLast?_append, hc]; rfl,hb⟩

theorem blank (h : Phrase d cs ts) : Phrase d (' ' :: cs) ts where
  start := ⟨' ',rfl,by decide⟩
  ending := ending_append [' '] h.ending
  oneLine := List.forall_mem_cons.mpr ⟨by decide,h.oneLine⟩
  short := Nat.le_succ_of_le h.short
  reads := fun s rest hs hb hr => by
    obtain ⟨s',hg,ha⟩ := h.reads s rest hs hb hr
    exact ⟨s',by simpa using (goes_blank hs _).trans hg,ha⟩

/-- A phrase behind another one, if it does not continue its last token. -/
theorem append (h : Phrase d cs ts) (h' : Phrase d cs' ts') (hstop : ∃ c ∈ cs'.head?, isStop c = true) :
    Phrase d (cs ++ cs') (ts ++ ts') where
  start := by
    obtain ⟨c,hc,hj⟩ := h.start
    exact ⟨c,by rw [List.head?_append, hc]; rfl,hj⟩
  ending := ending_append cs h'.ending
  oneLine := List.forall_mem_append.mpr ⟨h.oneLine,h'.oneLine⟩
  short := by simpa using Nat.add_le_add h.short h'.short
  reads := fun s rest hs hb hr => by
    have hnext : Stops (cs' ++ rest) := by
      obtain ⟨c,hc,hcs⟩ := hstop
      intro e he
      rw [List.head?_append, hc] at he
      cases he
      exact hcs
    obtain ⟨s₁,hg₁,ha₁⟩ := h.reads s (cs' ++ rest) hs hb hnext
    obtain ⟨s₂,hg₂,ha₂⟩ := h'.reads s₁ rest ha₁.isFresh (by rw [ha₁.brackets]; exact hb) hr
    refine ⟨s₂,?_,ha₁.trans ha₂⟩
    rw [List.append_assoc, List.length_append]
    exact hg₁.trans hg₂

theorem oneLine_blanks (k : Nat) : ∀ c ∈ List.replicate k ' ', isLineEnd c = false := by
  intro c hc
  rw [List.eq_of_mem_replicate hc]
  decide

theorem stops_blanks {c : Char} (hc : isStop c = true) (k : Nat) (rest : List Char) :
    Stops (List.replicate k ' ' ++ c :: rest) := by
  intro e he
  cases k with
  | zero =>
    cases he
    exact hc
  | succ k =>
    cases he
    decide

theorem goes_blanks {s : Scan} (hs : s.isFresh = false) (k : Nat) (rest : List Char) :
    Goes 0 s (List.replicate k ' ' ++ rest) s rest := by
  induction k with
  | zero => exact fun n => rfl
  | succ k ih => exact (goes_blank hs _).trans ih

theorem of_sign : ∀ c ∈ ['-', '+'], c ∉ joints ∧ c ∈ ['+', '-', '*', '/', ',', '='] := forall_of_all (by decide)

theorem of_mark : ∀ c ∈ ['+', '-', '*', '/', ',', '='], isLineEnd c = false ∧
    c ∈ ['+', '-', '*', '/', ',', ':', '=', '.'] ∧ c ≠ '.' ∧ isStop c = true := forall_of_all (by decide)

theorem sign {c : Char} (hc : c ∈ ['-', '+']) (h : Phrase d cs ts) :
    Phrase d (c :: cs) (.mark (String.ofList [c]) :: ts) where
  start := ⟨c,rfl,(of_sign c hc).1⟩
  ending := ending_append [c] h.ending
  oneLine := List.forall_mem_cons.mpr ⟨(of_mark c (of_sign c hc).2).1,h.oneLine⟩
  short := by simpa using h.short
  reads := fun s rest hs hb hr => by
    obtain ⟨-,hmark,hpoint,-⟩ := of_mark c (of_sign c hc).2
    have htoken := token_mark (s := s) hmark (h.starts rest) fun hc => absurd hc hpoint
    obtain ⟨s',hg,ha⟩ := h.reads (s.push _) rest hs hb hr
    refine ⟨s',?_,(adds_push hs _).trans ha⟩
    rw [List.length_cons, Nat.add_comm]
    exact (goes_of_token hs htoken).trans hg

theorem joined {c : Char} (hc : c ∈ ['+', '-', '*', '/', ',', '=']) (h : Phrase d cs ts) (k : Nat)
    (h' : Phrase d cs' ts') : Phrase d (cs ++ (List.replicate k ' ' ++ c :: cs'))
      (ts ++ .mark (String.ofList [c]) :: ts') where
  start := by
    obtain ⟨e,he,hj⟩ := h.start
    exact ⟨e,by rw [List.head?_append, he]; rfl,hj⟩
  ending := ending_append cs (ending_append (List.replicate k ' ') (ending_append [c] h'.ending))
  oneLine := List.forall_mem_append.mpr ⟨h.oneLine,List.forall_mem_append.mpr
    ⟨oneLine_blanks k,List.forall_mem_cons.mpr ⟨(of_mark c hc).1,h'.oneLine⟩⟩⟩
  short := by
    have h1 := h.short
    have h2 := h'.short
    simp
    omega
  reads := fun s rest hs hb hr => by
    obtain ⟨-,hmark,hpoint,hstop⟩ := of_mark c hc
    obtain ⟨s₁,hg₁,ha₁⟩ := h.reads s (List.replicate k ' ' ++ c :: (cs' ++ rest)) hs hb
      (stops_blanks hstop k _)
    have htoken := token_mark (s := s₁) hmark (h'.starts rest) fun hc => absurd hc hpoint
    obtain ⟨s₂,hg₂,ha₂⟩ := h'.reads (s₁.push (.mark (String.ofList [c]))) rest ha₁.isFresh
      (by rw [brackets_push, ha₁.brackets]; exact hb) hr
    refine ⟨s₂,?_,ha₁.trans ((adds_push ha₁.isFresh _).trans ha₂)⟩
    have hgo := hg₁.trans ((goes_blanks ha₁.isFresh k _).trans
      ((goes_of_token ha₁.isFresh htoken).trans hg₂))
    simpa [Nat.add_comm, Nat.add_left_comm] using hgo

theorem bracketed {o c : Char} (hoc : (o, c) ∈ [('(', ')'), ('[', ']')]) (h : Phrase d cs ts) (k : Nat) :
    Phrase (d + 1) (o :: (cs ++ (List.replicate k ' ' ++ [c])))
      (.mark (String.ofList [o]) :: (ts ++ [.mark (String.ofList [c])])) := by
  have hall : ∀ p ∈ [('(', ')'), ('[', ']')], p.1 ∈ ['(', '['] ∧ p.2 ∈ [')', ']'] ∧
      closing? p.1 = some p.2 ∧ p.1 ∉ joints ∧ isBlank p.2 = false ∧ isLineEnd p.1 = false ∧ isLineEnd p.2 = false ∧ isStop p.2 = true := by decide
  obtain ⟨ho,hc,hpair,hjoint,hblank,hro,hrc,hstop⟩ := hall (o, c) hoc
  refine ⟨⟨o,rfl,hjoint⟩,ending_append [o] (ending_append cs (ending_append _ ⟨c,rfl,hblank⟩)),?_,?_,
    fun s rest hs hb hr => ?_⟩
  · exact List.forall_mem_cons.mpr ⟨hro,List.forall_mem_append.mpr ⟨h.oneLine,
      List.forall_mem_append.mpr ⟨oneLine_blanks k,by simpa using hrc⟩⟩⟩
  · have h1 := h.short
    simp
    omega
  · have hopen := token_open (s := s) ho (h.starts (List.replicate k ' ' ++ c :: rest)) (by omega)
    obtain ⟨s₂,hg₂,ha₂⟩ := h.reads
      ({ s with brackets := (o, s.line) :: s.brackets }.push (.mark (String.ofList [o])))
      (List.replicate k ' ' ++ c :: rest) hs (by simp; omega) (stops_blanks hstop k rest)
    have hclose : s₂.token (c :: rest) = .more ({ s₂ with brackets := s.brackets }.push (.mark (String.ofList [c]))) rest :=
      token_close hc hpair ha₂.brackets
    refine ⟨{ s₂ with brackets := s.brackets }.push (.mark (String.ofList [c])),?_,
      ⟨?_,ha₂.blocks,rfl,ha₂.isFresh⟩⟩
    · have hgo := (goes_of_token hs hopen).trans (hg₂.trans
        ((goes_blanks ha₂.isFresh k _).trans (goes_of_token ha₂.isFresh hclose)))
      simpa [Nat.add_comm, Nat.add_left_comm] using hgo
    · have hview : s₂.view = s.view ++ [.mark (String.ofList [o])] ++ ts := by
        rw [ha₂.view, view_push]
        rfl
      rw [view_push]
      show s₂.view ++ _ = _
      rw [hview]
      simp

theorem part {w : List Char} (hw : IsWord w) :
    Phrase 0 ('n' :: 'p' :: '.' :: w) [.name "np", .mark ".", wordToken w] := by
  obtain ⟨c,hc,hd⟩ := hw.start
  have hchar := hw.chars c (List.mem_of_mem_head? hc)
  have hword := (Phrase.word hw)
  refine ⟨⟨'n',rfl,by decide⟩,ending_append ['n', 'p', '.'] hword.ending,?_,?_,fun s rest hs hb hr => ?_⟩
  · have hdots : ∀ c ∈ ['n', 'p', '.'], isLineEnd c = false := forall_of_all (by decide)
    exact List.forall_mem_append.mpr ⟨hdots,hword.oneLine⟩
  · have h1 := hword.short
    simp only [List.length_cons, List.length_nil] at h1 ⊢
    omega
  · have hnp : IsWord ['n', 'p'] := isWord_of_all (by decide)
    have hname : wordToken ['n', 'p'] = .name "np" := rfl
    have hend : EndsWord ('.' :: (w ++ rest)) := by
      intro e he
      cases he
      decide
    have h1 := token_word (s := s) hnp hend
    rw [hname] at h1
    have h2 := token_mark (s := s.push (.name "np")) (c := '.') (by decide) (hword.starts rest) fun _ => by
      rw [List.head?_append, hc]
      exact hd
    obtain ⟨s₃,hg,ha⟩ := hword.reads ((s.push (.name "np")).push (.mark ".")) rest hs (by simpa using hb) hr
    have hs' : (s.push (.name "np")).isFresh = false := hs
    refine ⟨s₃,?_,(adds_push hs _).trans ((adds_push hs' _).trans ha)⟩
    exact (goes_of_token hs h1).trans ((goes_of_token hs' h2).trans hg)

end Phrase

/-- How the open blocks change before a line at a margin, and the tokens of the change. -/
inductive Change : List Margin → Nat → List Margin → List Token → Prop
  | stay {B m} (h : B.headD (0, 0) = (m, m)) : Change B m B []
  | deepen {B m k} (h : B.headD (0, 0) = (k, k)) (hk : k < m)
      (hb : B.length + 1 < Scan.maxBlocks) : Change B m ((m, m) :: B) [.indent]
  | close {B m k} (h : B.headD (0, 0) = (m, m)) (hk : m < k) : Change ((k, k) :: B) m B [.dedent]

/-- A line up to its end. -/
structure LineText (cs : List Char) (ts : List Token) : Prop where
  start : ∃ c ∈ cs.head?, isBlank c = false ∧ Scan.isSpecial c = false
  ending : ∃ c ∈ cs.getLast?, isBlank c = false
  oneLine : ∀ c ∈ cs, isLineEnd c = false
  short : ts.length ≤ cs.length
  reads : ∀ (s : Scan) (rest : List Char), s.isFresh = false → s.brackets = [] →
    ∃ s', Scan.Goes ts.length s (cs ++ '\n' :: rest) s' ('\n' :: rest) ∧ Scan.Adds s s' ts

theorem Scan.IsWord.start_append {w : List Char} (hw : Scan.IsWord w) (cs : List Char) :
    ∃ c ∈ (w ++ cs).head?, isBlank c = false ∧ Scan.isSpecial c = false := by
  obtain ⟨c,hc,_⟩ := hw.start
  have hchar := hw.chars c (List.mem_of_mem_head? hc)
  have hrange := Scan.range_of_isAlphanum hchar
  exact ⟨c,by rw [List.head?_append, hc]; rfl,(Scan.isBlank_of_range ⟨by omega,hrange.2⟩).1,
    Scan.isSpecial_of_isWordChar (Scan.isWordChar_of_isAlphanum hchar)⟩

theorem Phrase.lineText {d : Nat} {w cs : List Char} {ts : List Token} (h : Phrase d (w ++ cs) ts)
    (hd : d ≤ Scan.maxBrackets) (hw : Scan.IsWord w) : LineText (w ++ cs) ts where
  start := hw.start_append cs
  ending := h.ending
  oneLine := h.oneLine
  short := h.short
  reads := fun s rest hs hb => h.reads s ('\n' :: rest) hs (by simpa [hb] using hd) (by
    intro c hc
    cases hc
    decide)

theorem Phrase.headText {d : Nat} {w cs : List Char} {ts : List Token} (h : Phrase d (w ++ cs) ts)
    (hd : d ≤ Scan.maxBrackets) (hw : Scan.IsWord w) : LineText (w ++ cs ++ [':']) (ts ++ [.mark ":"]) where
  start := by
    rw [List.append_assoc]
    exact hw.start_append _
  ending := ⟨':',by simp,by decide⟩
  oneLine := List.forall_mem_append.mpr ⟨h.oneLine,forall_of_all (by decide)⟩
  short := by
    have hshort := h.short
    simp only [List.length_append, List.length_cons, List.length_nil] at hshort ⊢
    omega
  reads := fun s rest hs hb => by
    obtain ⟨s',hg,ha⟩ := h.reads s (':' :: '\n' :: rest) hs (by simpa [hb] using hd) (by
      intro c hc
      cases hc
      decide)
    have hnext : Starts ('\n' :: rest) := by
      intro c hc
      cases hc
      decide
    have htoken := Scan.token_mark (s := s') (c := ':') (by decide) hnext fun hc => absurd hc (by decide)
    refine ⟨s'.push (.mark ":"),?_,ha.trans (Scan.adds_push ha.isFresh _)⟩
    rw [List.append_assoc, List.length_append]
    exact hg.trans (Scan.goes_of_token ha.isFresh htoken)

namespace Scan

variable {s : Scan} {B B' : List Margin} {m : Nat} {ts us : List Token} {c : Char} {cs rest : List Char}

/-- At the start of a line, with the blocks open and the tokens read so far. -/
structure At (s : Scan) (B : List Margin) (ts : List Token) : Prop where
  isFresh : s.isFresh = true
  brackets : s.brackets = []
  blocks : s.blocks = B
  view : s.view = ts

theorem indentation_blanks (line a m : Nat) (hc : isSpecial c = false) (cs : List Char) :
    indentation line 0 (a, a) (List.replicate m ' ' ++ c :: cs) = .at (a + m, a + m) line (c :: cs) := by
  induction m generalizing a with
  | zero =>
    simp only [isSpecial, Bool.or_eq_false_iff, beq_eq_false_iff_ne] at hc
    obtain ⟨⟨⟨⟨⟨hsp,htab⟩,hff⟩,-⟩,-⟩,hbs⟩ := hc
    simp [indentation, hsp, htab, hff, hbs]
  | succ m ih =>
    rw [List.replicate_succ, List.cons_append, indentation, ih]
    congr 2 <;> omega

theorem start_eq (hs : s.brackets = []) (hc : isSpecial c = false) :
    s.start (List.replicate m ' ' ++ c :: cs) = s.changeBlocks (m, m) (c :: cs) := by
  have hindent := indentation_blanks s.line 0 m hc cs
  rw [Nat.zero_add] at hindent
  simp only [isSpecial, Bool.or_eq_false_iff, beq_eq_false_iff_ne] at hc
  obtain ⟨⟨⟨⟨⟨-,-⟩,-⟩,hhash⟩,hnl⟩,-⟩ := hc
  simp only [start, hindent]
  split
  · rename_i heq; exact absurd (List.cons.inj heq).1 hhash
  · rename_i heq; exact absurd (List.cons.inj heq).1 hnl
  · rename_i heq; cases heq
  · rw [if_pos (by simp [hs])]

theorem changeBlocks_eq (h : Change B m B' us) (hs : s.blocks = B) (rest : List Char) :
    ∃ s', s.changeBlocks (m, m) rest = .more s' rest ∧ s'.view = s.view ++ us ∧ s'.blocks = B' ∧
      s'.brackets = s.brackets ∧ s'.isFresh = false := by
  cases h with
  | stay h =>
    refine ⟨{ s with isFresh := false },?_,by simp [view],hs,rfl,rfl⟩
    simp only [changeBlocks, hs, h, beq_self_eq_true, if_true]
  | @deepen _ _ k h hk hb =>
    refine ⟨{ s with isFresh := false, blocks := (m, m) :: s.blocks }.push .indent,?_,by simp [view, push],
      by rw [blocks_push, hs],rfl,rfl⟩
    have hne : (m == k) = false := by
      rw [beq_eq_false_iff_ne]
      omega
    have hroom : ¬(maxBlocks ≤ s.blocks.length + 1 || m ≤ k) = true := by
      rw [hs]
      simp
      omega
    rw [← hs] at h
    simp only [changeBlocks, h, hne, Bool.false_eq_true, if_false, hk, if_true]
    rw [if_neg hroom]
  | @close _ _ k h hk =>
    refine ⟨{ s with isFresh := false, blocks := B' }.push .dedent,?_,by simp [view, push],rfl,rfl,rfl⟩
    have hne : (m == k) = false := by
      rw [beq_eq_false_iff_ne]
      omega
    have hlt : ¬k < m := by omega
    -- only the innermost block ends: the one around it starts at the margin
    have hstay : ∀ b ∈ B'.head?, ¬m < b.1 := by
      intro b hb
      rw [List.headD_eq_head?_getD, hb] at h
      cases h
      exact Nat.lt_irrefl m
    have htake : B'.takeWhile (fun b => decide (m < b.1)) = [] := by
      cases B' with
      | nil => rfl
      | cons b B' => simp [hstay b rfl]
    have hdrop : B'.dropWhile (fun b => decide (m < b.1)) = B' := by
      cases B' with
      | nil => rfl
      | cons b B' => simp [hstay b rfl]
    have hclosed : s.blocks.takeWhile (fun b => decide (m < b.1)) = [(k, k)] := by simp [hs, hk, htake]
    have hopen : s.blocks.dropWhile (fun b => decide (m < b.1)) = B' := by simp [hs, hk, hdrop]
    have hhead : s.blocks.headD (0, 0) = (k, k) := by rw [hs]; rfl
    simp only [changeBlocks, hhead, hne, hlt, hclosed, hopen, h, Bool.false_eq_true, if_false,
      beq_self_eq_true, if_true]
    rfl

theorem goes_line (hs : s.At B ts) (hc : Change B m B' us) {ws : List Token} (h : LineText cs ws)
    (rest : List Char) : ∃ s', Goes (ws.length + 2) s (List.replicate m ' ' ++ (cs ++ '\n' :: rest)) s' rest ∧
      s'.At B' (ts ++ (us ++ (ws ++ [.newline]))) := by
  obtain ⟨c,hc',_,hspecial⟩ := h.start
  obtain ⟨s₁,hchange,hview,hblocks,hbrackets,hfresh⟩ := changeBlocks_eq hc hs.blocks (cs ++ '\n' :: rest)
  rw [hs.brackets] at hbrackets
  have hstart : Goes 1 s (List.replicate m ' ' ++ (cs ++ '\n' :: rest)) s₁ (cs ++ '\n' :: rest) := by
    refine goes_of_step ?_
    cases cs with
    | nil => cases hc'
    | cons c' cs =>
      cases hc'
      rw [step, hs.isFresh, if_pos rfl]
      exact (start_eq hs.brackets hspecial).trans hchange
  obtain ⟨s₂,hgo,hadds⟩ := h.reads s₁ rest hfresh hbrackets
  have hend : Goes 1 s₂ ('\n' :: rest) { s₂.push .newline with line := s₂.line + 1, isFresh := true } rest := by
    refine goes_of_token hadds.isFresh ?_
    simp [token, hadds.brackets, hbrackets]
  refine ⟨{ s₂.push .newline with line := s₂.line + 1, isFresh := true },?_,rfl,
    hadds.brackets.trans hbrackets,hadds.blocks.trans hblocks,?_⟩
  · have hsum : ws.length + 2 = 1 + (ws.length + 1) := by omega
    rw [hsum]
    exact hstart.trans (hgo.trans hend)
  · show (s₂.push .newline).view = _
    rw [view_push, hadds.view, hview, hs.view]
    simp

theorem finish_end (hs : s.At B ts) (hc : Change B 0 [] us) (n : Nat) :
    (finish (n + 2) s []).tokens.toList.map (·.token) = ts ++ (us ++ [.stop]) := by
  obtain ⟨s₁,hchange,hview,hblocks,hbrackets,hfresh⟩ :=
    changeBlocks_eq (s := { s with line := s.line - 1 }) hc hs.blocks []
  have hstep : s.step [] = .more s₁ [] := by
    rw [step, hs.isFresh, if_pos rfl, ← hchange]
    simp [start, indentation, hs.brackets]
  have hstop : s₁.step [] = .done ⟨(s₁.push .stop).tokens, none⟩ := by
    have hb : s₁.brackets = [] := hbrackets.trans hs.brackets
    simp [step, hfresh, token, hb]
  have hresult : finish (n + 2) s [] = ⟨(s₁.push .stop).tokens, none⟩ := by
    simp only [finish, hstep, hstop]
  rw [hresult]
  show (s₁.push .stop).view = _
  have hsame : s₁.view = ts ++ us := hview.trans (by rw [← hs.view]; rfl)
  rw [view_push, hsame, List.append_assoc]

end Scan

/-- A line of a source: its indentation and its text. -/
structure SourceLine where
  margin : Nat
  text : List Char

def SourceLine.chars (l : SourceLine) : List Char := List.replicate l.margin ' ' ++ (l.text ++ ['\n'])

/-- The tokens of lines below the blocks that are open. -/
inductive Laid : List Margin → List SourceLine → List Token → Prop
  | nil {B us} (h : Change B 0 [] us) : Laid B [] (us ++ [.stop])
  | cons {B B' m us cs ws ls ts} (h : Change B m B' us) (hl : LineText cs ws) (rest : Laid B' ls ts) :
      Laid B (⟨m, cs⟩ :: ls) (us ++ (ws ++ .newline :: ts))

theorem Laid.finish_eq {B : List Margin} {ls : List SourceLine} {us : List Token} (h : Laid B ls us)
    {s : Scan} {ts : List Token} (hs : s.At B ts) {n : Nat} (hn : 2 * (ls.flatMap SourceLine.chars).length + 2 ≤ n) :
    (Scan.finish n s (ls.flatMap SourceLine.chars)).tokens.toList.map (·.token) = ts ++ us := by
  induction h generalizing s ts n with
  | nil h =>
    obtain ⟨n,rfl⟩ := Nat.exists_eq_add_of_le' (show 2 ≤ n by simpa using hn)
    exact Scan.finish_end hs h n
  | @cons B B' m us cs ws ls ts' h hl rest ih =>
    obtain ⟨s',hgo,hat⟩ := Scan.goes_line hs h hl (ls.flatMap SourceLine.chars)
    have htext : (⟨m, cs⟩ :: ls : List SourceLine).flatMap SourceLine.chars =
        List.replicate m ' ' ++ (cs ++ '\n' :: ls.flatMap SourceLine.chars) := by
      simp [SourceLine.chars]
    have hshort := hl.short
    rw [htext] at hn ⊢
    simp only [List.length_append, List.length_replicate, List.length_cons] at hn
    obtain ⟨n,rfl⟩ := Nat.exists_eq_add_of_le' (show ws.length + 2 ≤ n by omega)
    rw [hgo n, ih hat (by omega)]
    simp

theorem foldl_cons {f : List Char → Char → List Char}
    (hf : ∀ c acc, acc.head? ≠ some '\r' → f acc c = c :: acc) (cs acc : List Char) (hcs : '\r' ∉ cs)
    (hacc : acc.head? ≠ some '\r') : cs.foldl f acc = cs.reverse ++ acc := by
  induction cs generalizing acc with
  | nil => rfl
  | cons c cs ih =>
    simp only [List.mem_cons, not_or] at hcs
    rw [List.foldl_cons, hf c acc hacc, ih _ hcs.2 (by simpa using Ne.symm hcs.1)]
    simp

/-- Without carriage returns a source that ends with a newline is read as it is. -/
theorem sourceChars_eq {source : String} {cs : List Char} (hsource : source.toList = cs ++ ['\n'])
    (h : '\r' ∉ source.toList) : sourceChars source = source.toList := by
  unfold sourceChars
  rw [foldl_cons _ source.toList [] h (by simp)]
  · simp [hsource]
  · intro c acc hacc
    split
    · simp at hacc
    · rfl

theorem Laid.oneLine {B : List Margin} {ls : List SourceLine} {us : List Token} (h : Laid B ls us) :
    ∀ l ∈ ls, ∀ c ∈ l.text, isLineEnd c = false := by
  induction h with
  | nil => simp
  | cons h hl rest ih => exact List.forall_mem_cons.mpr ⟨hl.oneLine,ih⟩

theorem lex_laid {source : String} {ls : List SourceLine} {us : List Token}
    (hsource : source.toList = ls.flatMap SourceLine.chars) (h : Laid [] ls us) (hne : ls ≠ []) :
    (lex source).tokens.toList.map (·.token) = us := by
  have hchars : sourceChars source = source.toList := by
    obtain ⟨ls',l,rfl⟩ := List.eq_nil_or_concat ls |>.resolve_left hne
    have hends : source.toList =
        ls'.flatMap SourceLine.chars ++ (List.replicate l.margin ' ' ++ l.text) ++ ['\n'] := by
      simp [hsource, SourceLine.chars]
    refine sourceChars_eq hends fun hr => ?_
    rw [hsource, List.mem_flatMap] at hr
    obtain ⟨k,hk,hr⟩ := hr
    rcases List.mem_append.mp hr with hr | hr
    · cases List.eq_of_mem_replicate hr
    · rcases List.mem_append.mp hr with hr | hr
      · cases h.oneLine k hk _ hr
      · simp at hr
  have hat : ({} : Scan).At [] [] := ⟨rfl,rfl,rfl,rfl⟩
  rw [lex, hchars, hsource]
  exact h.finish_eq hat (by omega)

end FitCode.Program
