import FitCode.Code.Listing
import FitCode.Proofs.Code.Lines
import Mathlib.Order.Bounds.Basic

/-! # Reading printed lines back

Printed lines are a snippet. Reading them gives the lines back at another depth: the margin that all lines
share is lost, whatever it is, and what a line is indented beyond it stays. A negative depth is printed
like depth zero.
-/
namespace FitCode

namespace Text

/-! ## Cutting and joining -/

/-- Lines that are each ended by a newline come back, with an empty line behind them. -/
theorem lines_ended {ls : List (List Char)} (h : ∀ l ∈ ls, '\n' ∉ l) :
    lines (ls.flatMap (· ++ ['\n'])) = ls ++ [[]] := by
  induction ls with
  | nil => rfl
  | cons l ls ih =>
    have hl : '\n' ∉ l := h l (by simp)
    rw [List.flatMap_cons, List.append_assoc, List.singleton_append, lines_append_newline hl,
      ih fun l hl => h l (by simp [hl]), List.cons_append]

theorem joinLines_cons_cons (l l' : List Char) (ls : List (List Char)) :
    joinLines (l :: l' :: ls) = l ++ '\n' :: joinLines (l' :: ls) := rfl

theorem lines_joinLines {ls : List (List Char)} (hne : ls ≠ []) (h : ∀ l ∈ ls, '\n' ∉ l) :
    lines (joinLines ls) = ls := by
  induction ls with
  | nil => exact absurd rfl hne
  | cons l ls ih =>
    have hl : '\n' ∉ l := h l (by simp)
    cases ls with
    | nil => exact lines_of_not_mem hl
    | cons l' ls =>
      rw [joinLines_cons_cons, lines_append_newline hl, ih (by simp) fun l hl => h l (by simp [hl])]

theorem joinLines_concat_nil {ls : List (List Char)} (hne : ls ≠ []) :
    joinLines (ls ++ [[]]) = joinLines ls ++ ['\n'] := by
  induction ls with
  | nil => exact absurd rfl hne
  | cons l ls ih =>
    cases ls with
    | nil => simp [joinLines]
    | cons l' ls =>
      have htail := ih (by simp)
      simp only [List.cons_append] at htail ⊢
      rw [joinLines_cons_cons, joinLines_cons_cons, htail, List.append_assoc, List.cons_append]

/-! ## Texts between blanks -/

/-- A text on one line that neither starts nor ends with a blank. -/
structure IsTrim (cs : List Char) : Prop where
  single : '\n' ∉ cs
  first : ∃ c, cs.head? = some c ∧ isBlank c = false
  last : ∃ c, cs.getLast? = some c ∧ isBlank c = false

theorem isBlank_of_isPad {c : Char} (h : isPad c = true) : isBlank c = true := by
  simp only [isPad, Bool.or_eq_true, beq_iff_eq] at h
  rcases h with rfl | rfl <;> decide

theorem IsTrim.cons {cs : List Char} (h : IsTrim cs) :
    ∃ c t, cs = c :: t ∧ isBlank c = false := by
  obtain ⟨c,hc,hblank⟩ := h.first
  cases cs with
  | nil => cases hc
  | cons d t =>
    cases hc
    exact ⟨c,t,rfl,hblank⟩

theorem trimEnd_of_last {p : Char → Bool} {cs : List Char} {c : Char} (hc : cs.getLast? = some c)
    (hp : p c = false) : trimEnd p cs = cs := by
  obtain ⟨r,rfl⟩ := List.getLast?_eq_some_iff.mp hc
  simp [trimEnd, hp]

theorem trimEnd_concat {p : Char → Bool} {c : Char} (hp : p c = true) (cs : List Char) :
    trimEnd p (cs ++ [c]) = trimEnd p cs := by
  simp [trimEnd, hp]

theorem exists_head_joinLines {l : List Char} {ls : List (List Char)} (hl : l ∈ ls.head?) (hne : l ≠ []) :
    ∃ c ∈ l, ∃ t, joinLines ls = c :: t := by
  obtain ⟨c,t,rfl⟩ := List.exists_cons_of_ne_nil hne
  cases ls with
  | nil => cases hl
  | cons k ls =>
    cases hl
    cases ls with
    | nil => exact ⟨c,by simp,t,rfl⟩
    | cons l' ls => exact ⟨c,by simp,t ++ '\n' :: joinLines (l' :: ls),rfl⟩

theorem exists_last_joinLines {ls : List (List Char)} (hne : ls ≠ []) (h : ∀ l ∈ ls, l ≠ []) :
    ∃ l ∈ ls, ∃ c ∈ l, (joinLines ls).getLast? = some c := by
  induction ls with
  | nil => exact absurd rfl hne
  | cons l ls ih =>
    cases ls with
    | nil =>
      have hl := h l (by simp)
      exact ⟨l,by simp,l.getLast hl,List.getLast_mem hl,List.getLast?_eq_some_getLast hl⟩
    | cons l' ls =>
      obtain ⟨k,hk,c,hc,hlast⟩ := ih (by simp) fun k hk => h k (by simp [hk])
      refine ⟨k,List.mem_cons_of_mem _ hk,c,hc,?_⟩
      rw [joinLines_cons_cons, List.getLast?_append, List.getLast?_cons, hlast]
      rfl

theorem trimBoth_joinLines {ls : List (List Char)} (hne : ls ≠ []) (h : ∀ l ∈ ls, l ≠ [])
    (hn : ∀ l ∈ ls, '\n' ∉ l) : trimBoth (· == '\n') (joinLines ls ++ ['\n']) = joinLines ls := by
  have hchar : ∀ l ∈ ls, ∀ c ∈ l, (c == '\n') = false := fun l hl c hc =>
    beq_false_of_ne fun he => hn l hl (he ▸ hc)
  obtain ⟨l,ls,rfl⟩ := List.exists_cons_of_ne_nil hne
  have hhead : l ∈ (l :: ls).head? := rfl
  obtain ⟨c,hc,t,ht⟩ := exists_head_joinLines hhead (h l (by simp))
  obtain ⟨k,hk,d,hd,hlast⟩ := exists_last_joinLines hne h
  have hfront : (joinLines (l :: ls) ++ ['\n']).dropWhile (· == '\n') =
      joinLines (l :: ls) ++ ['\n'] := by
    rw [ht, List.cons_append, List.dropWhile_cons_of_neg (by simp [hchar l (by simp) c hc])]
  rw [trimBoth, hfront, trimEnd_concat rfl, trimEnd_of_last hlast (hchar k hk d hd)]

/-! ## Margins -/

/-- A line behind a margin, indented by `n` spaces. -/
def indented (margin : List Char) (n : Nat) (text : List Char) : List Char :=
  margin ++ (List.replicate n ' ' ++ text)

theorem commonStart_append (p as bs : List Char) :
    commonStart (p ++ as) (p ++ bs) = p ++ commonStart as bs := by
  induction p with
  | nil => rfl
  | cons c p ih => simp [commonStart, ih]

theorem commonStart_replicate (c : Char) (a b : Nat) :
    commonStart (List.replicate a c) (List.replicate b c) = List.replicate (min a b) c := by
  induction a generalizing b with
  | zero => simp [commonStart]
  | succ a ih =>
    cases b with
    | zero => simp [commonStart]
    | succ b => simp [List.replicate_succ, commonStart, ih, Nat.succ_min_succ]

section

variable {margin text : List Char} (n : Nat)

theorem isPad_of_isBlank {c : Char} (h : isBlank c = false) : isPad c = false :=
  Bool.eq_false_iff.mpr fun hp => Bool.false_ne_true (h.symm.trans (isBlank_of_isPad hp))

theorem takeWhile_indented (hm : ∀ c ∈ margin, isPad c = true) (ht : IsTrim text) :
    (indented margin n text).takeWhile isPad = margin ++ List.replicate n ' ' := by
  obtain ⟨c,t,rfl,hc⟩ := ht.cons
  have hspaces : ∀ c ∈ List.replicate n ' ', isPad c = true := by
    intro c hc
    rw [List.eq_of_mem_replicate hc]
    rfl
  rw [indented, List.takeWhile_append_of_pos hm, List.takeWhile_append_of_pos hspaces,
    List.takeWhile_cons_of_neg (by simp [isPad_of_isBlank hc]), List.append_nil]

theorem all_indented (ht : IsTrim text) : (indented margin n text).all isPad = false := by
  obtain ⟨c,t,rfl,hc⟩ := ht.cons
  exact List.all_eq_false.mpr ⟨c,by simp [indented],by simp [isPad_of_isBlank hc]⟩

theorem newline_not_mem_indented (hm : ∀ c ∈ margin, isPad c = true) (ht : IsTrim text) :
    '\n' ∉ indented margin n text := by
  intro h
  rcases List.mem_append.mp h with h | h
  · exact absurd (hm _ h) (by decide)
  · rcases List.mem_append.mp h with h | h
    · exact absurd (List.eq_of_mem_replicate h) (by decide)
    · exact ht.single h

theorem drop_indented (m : Nat) (h : m ≤ n) :
    (indented margin n text).drop (margin ++ List.replicate m ' ').length = indented [] (n - m) text := by
  have hsplit : indented margin n text =
      (margin ++ List.replicate m ' ') ++ indented [] (n - m) text := by
    have hn : List.replicate n ' ' = List.replicate m ' ' ++ List.replicate (n - m) ' ' := by
      rw [List.replicate_append_replicate, Nat.add_sub_cancel' h]
    simp only [indented, hn, List.append_assoc, List.nil_append]
  rw [hsplit, List.drop_left]

end

/-- Lines behind a margin, each with its number of spaces and its text. -/
def indentedAll (margin : List Char) (rows : List (Nat × List Char)) : List (List Char) :=
  rows.map fun r => indented margin r.1 r.2

section

variable {margin : List Char} (hm : ∀ c ∈ margin, isPad c = true) {rows : List (Nat × List Char)}
  (hne : rows ≠ []) (hrows : ∀ r ∈ rows, IsTrim r.2)

include hm hne hrows

/-- The common margin of indented lines: what stands in front of all, and the least indentation. -/
theorem margin?_indentedAll : ∃ m, IsLeast {n | ∃ r ∈ rows, r.1 = n} m ∧
    margin? (indentedAll margin rows ++ [[]]) = some (margin ++ List.replicate m ' ') := by
  induction rows with
  | nil => exact absurd rfl hne
  | cons r rows ih =>
    have hr := hrows r (by simp)
    have hown : margin? (indentedAll margin (r :: rows) ++ [[]]) =
        some ((margin? (indentedAll margin rows ++ [[]])).elim (margin ++ List.replicate r.1 ' ')
          (commonStart (margin ++ List.replicate r.1 ' '))) := by
      simp [indentedAll, margin?, all_indented _ hr, takeWhile_indented _ hm hr]
    cases rows with
    | nil => exact ⟨r.1,⟨⟨r,by simp,rfl⟩,by rintro n ⟨q,hq,rfl⟩; simp_all⟩,hown⟩
    | cons q rows =>
      obtain ⟨m,⟨⟨q',hq',hqm⟩,hleast⟩,hmargin⟩ := ih (by simp) fun q hq => hrows q (by simp [hq])
      refine ⟨min r.1 m,⟨?_,?_⟩,?_⟩
      · rcases Nat.le_total r.1 m with hle | hle
        · exact ⟨r,by simp,(Nat.min_eq_left hle).symm⟩
        · exact ⟨q',List.mem_cons_of_mem _ hq',by rw [hqm, Nat.min_eq_right hle]⟩
      · rintro n ⟨q,hq,rfl⟩
        rcases List.mem_cons.mp hq with rfl | hq
        · exact Nat.min_le_left _ _
        · exact Nat.le_trans (Nat.min_le_right _ _) (hleast ⟨q,hq,rfl⟩)
      · rw [hown, hmargin, Option.elim_some, commonStart_append, commonStart_replicate]

/-- Indented lines, each ended by a newline, keep what they are indented beyond the least indentation. -/
theorem lines_dropMargin : ∃ m, IsLeast {n | ∃ r ∈ rows, r.1 = n} m ∧
    lines (trimBoth (· == '\n') (dropMargin ((indentedAll margin rows).flatMap (· ++ ['\n'])))) =
      rows.map fun r => indented [] (r.1 - m) r.2 := by
  obtain ⟨m,hleast,hmargin⟩ := margin?_indentedAll hm hne hrows
  refine ⟨m,hleast,?_⟩
  have hcut : lines ((indentedAll margin rows).flatMap (· ++ ['\n'])) =
      indentedAll margin rows ++ [[]] := by
    refine lines_ended fun l hl => ?_
    obtain ⟨r,hr,rfl⟩ := List.mem_map.mp hl
    exact newline_not_mem_indented _ hm (hrows r hr)
  have hdrop : dropMarginLines (indentedAll margin rows ++ [[]]) =
      (rows.map fun r => indented [] (r.1 - m) r.2) ++ [[]] := by
    rw [dropMarginLines, hmargin, List.map_append, indentedAll, List.map_map]
    congr 1
    refine List.map_congr_left fun r hr => ?_
    simp only [Function.comp_apply, all_indented _ (hrows r hr), Option.getD_some]
    exact drop_indented _ m (hleast.2 ⟨r,hr,rfl⟩)
  have hkept : ∀ l ∈ rows.map (fun r => indented [] (r.1 - m) r.2), l ≠ [] ∧ '\n' ∉ l := by
    intro l hl
    obtain ⟨r,hr,rfl⟩ := List.mem_map.mp hl
    obtain ⟨c,t,ht,-⟩ := (hrows r hr).cons
    exact ⟨by simp [indented, ht],newline_not_mem_indented _ (by simp) (hrows r hr)⟩
  have hne' : rows.map (fun r => indented [] (r.1 - m) r.2) ≠ [] := by simpa using hne
  rw [dropMargin, hcut, hdrop, joinLines_concat_nil hne',
    trimBoth_joinLines hne' (fun l hl => (hkept l hl).1) fun l hl => (hkept l hl).2,
    lines_joinLines hne' fun l hl => (hkept l hl).2]

end

end Text

open Text

namespace Line

/-- The depth at which a line is printed. -/
def level (l : Line) : Nat := l.depth.toNat

/-- The printed lines, each behind the same margin. -/
def renderBehind (margin : String) (ls : List Line) : String :=
  String.join (ls.map fun l => margin ++ l.render snippetIndent ++ "\n")

theorem renderBehind_empty (ls : List Line) : renderBehind "" ls = renderAll snippetIndent ls := by
  simp [renderBehind, renderAll]

theorem toList_render {l : Line} (h : IsTrim l.text.toList) :
    (l.render snippetIndent).toList = List.replicate (snippetIndent * l.level) ' ' ++ l.text.toList := by
  obtain ⟨c,t,ht,-⟩ := h.cons
  have htext : (l.text == "") = false := by
    refine beq_false_of_ne fun he => ?_
    rw [he] at ht
    cases ht
  have hspaces : (l.depth * (snippetIndent : Int)).toNat = snippetIndent * l.level := by
    simp only [snippetIndent, level]
    omega
  rw [render, htext, hspaces]
  simp

theorem toList_renderBehind (margin : String) {ls : List Line} (hls : ∀ l ∈ ls, IsTrim l.text.toList) :
    (renderBehind margin ls).toList = (indentedAll margin.toList
      (ls.map fun l => (snippetIndent * l.level, l.text.toList))).flatMap (· ++ ['\n']) := by
  rw [renderBehind, String.toList_join, indentedAll, List.map_map, List.flatMap_map, List.flatMap_map,
    List.flatMap_def, List.flatMap_def]
  refine congrArg _ (List.map_congr_left fun l hl => ?_)
  simp [toList_render (hls l hl), indented]

theorem ofSnippetLine_indented {text : List Char} (h : IsTrim text) (depth : Int) (k : Nat) :
    ofSnippetLine depth (indented [] (snippetIndent * k) text) = ⟨depth + k, String.ofList text⟩ := by
  obtain ⟨c,t,rfl,hc⟩ := h.cons
  obtain ⟨d,hlast,hd⟩ := h.last
  have hspace : (c == ' ') = false := by
    have hpad := isPad_of_isBlank hc
    simp only [isPad, Bool.or_eq_false_iff] at hpad
    exact hpad.1
  have hspaces : ∀ c ∈ List.replicate (snippetIndent * k) ' ', (c == ' ') = true := fun c hc => by
    rw [List.eq_of_mem_replicate hc]
    rfl
  have htake : (indented [] (snippetIndent * k) (c :: t)).takeWhile (· == ' ') =
      List.replicate (snippetIndent * k) ' ' := by
    rw [indented, List.nil_append, List.takeWhile_append_of_pos hspaces,
      List.takeWhile_cons_of_neg (by simp [hspace]), List.append_nil]
  have hdrop : (indented [] (snippetIndent * k) (c :: t)).dropWhile (· == ' ') = c :: t := by
    rw [indented, List.nil_append, List.dropWhile_append_of_pos hspaces,
      List.dropWhile_cons_of_neg (by simp [hspace])]
  have hlevel : snippetIndent * k / snippetIndent = k := Nat.mul_div_cancel_left k (by decide)
  rw [ofSnippetLine, htake, hdrop, List.length_replicate, hlevel, trimEnd_of_last hlast hd]

/-- Reading printed lines back moves all of them by the same number of levels. -/
theorem ofSnippet_renderBehind {margin : String} (hm : ∀ c ∈ margin.toList, isPad c = true) {ls : List Line}
    (hne : ls ≠ []) (hls : ∀ l ∈ ls, IsTrim l.text.toList) (depth : Int) :
    ∃ m, IsLeast {k | ∃ l ∈ ls, l.level = k} m ∧
      ofSnippet (renderBehind margin ls) depth = ls.map fun l => ⟨depth + (l.level - m : Nat), l.text⟩ := by
  have hrows : ∀ r ∈ ls.map fun l => (snippetIndent * l.level, l.text.toList), IsTrim r.2 := by
    intro r hr
    obtain ⟨l,hl,rfl⟩ := List.mem_map.mp hr
    exact hls l hl
  obtain ⟨n,⟨⟨r,hr,hrn⟩,hleast⟩,hlines⟩ := lines_dropMargin hm (by simpa using hne) hrows
  obtain ⟨l₀,hl₀,rfl⟩ := List.mem_map.mp hr
  have hle : ∀ l ∈ ls, l₀.level ≤ l.level := fun l hl => by
    have hn := hleast ⟨_,List.mem_map_of_mem hl,rfl⟩
    rw [← hrn] at hn
    exact Nat.le_of_mul_le_mul_left hn (by decide)
  refine ⟨l₀.level,⟨⟨l₀,hl₀,rfl⟩,?_⟩,?_⟩
  · rintro k ⟨l,hl,rfl⟩
    exact hle l hl
  · rw [ofSnippet, toList_renderBehind margin hls, hlines, List.map_map, List.map_map]
    refine List.map_congr_left fun l hl => ?_
    have hdiff : snippetIndent * l.level - n = snippetIndent * (l.level - l₀.level) := by
      rw [← hrn, Nat.mul_sub]
    rw [Function.comp_apply, Function.comp_apply, hdiff, ofSnippetLine_indented (hls l hl), String.ofList_toList]

end Line

namespace Listing

theorem print_cases (b : Listing) (indentSize : Int) : b.print indentSize = .ok (b.render indentSize) ∨
    ∃ l ∈ b, ∃ e, Fault.ofLength? (l.depth * indentSize) = some e ∧ b.print indentSize = .error e := by
  rw [print]
  cases h : b.indentFault? indentSize with
  | none => exact .inl rfl
  | some e =>
    obtain ⟨l,hl,he⟩ := List.exists_of_findSome?_eq_some h
    split at he
    · cases he
    · exact .inr ⟨l,hl,e,he,rfl⟩

/-- Lines that are printed and read back at a depth are the same lines, moved by the same amount so that the
outermost ones stand at that depth; a line with a negative depth counts as one at depth zero. A margin that
all lines have changes nothing. -/
theorem ofSnippet_render {ls : Listing} (hne : ls ≠ []) (hls : ∀ l ∈ ls, IsTrim l.text.toList)
    (depth : Int) :
    (ls.print 4 = .ok (ls.render 4) ∨
      ∃ l ∈ ls, ∃ e, Fault.ofLength? (l.depth * 4) = some e ∧ ls.print 4 = .error e) ∧
    (∃ shift, Line.ofSnippet (ls.render 4) depth = ls.map fun l => ⟨max 0 l.depth + shift, l.text⟩) ∧
    IsLeast {d | ∃ l ∈ Line.ofSnippet (ls.render 4) depth, l.depth = d} depth ∧
    ∀ margin : String, (∀ c ∈ margin.toList, isPad c = true) →
      Line.ofSnippet (Line.renderBehind margin ls) depth = Line.ofSnippet (ls.render 4) depth := by
  have hempty : ∀ c ∈ "".toList, isPad c = true := by simp
  obtain ⟨m,hleast,hread⟩ := Line.ofSnippet_renderBehind hempty hne hls depth
  have hrender : Line.renderBehind "" ls = ls.render 4 := Line.renderBehind_empty ls
  rw [hrender] at hread
  refine ⟨ls.print_cases 4,⟨depth - m,?_⟩,?_,?_⟩
  · rw [hread]
    refine List.map_congr_left fun l hl => ?_
    have hle : m ≤ l.level := hleast.2 ⟨l,hl,rfl⟩
    have hlevel : (l.level : Int) = max 0 l.depth := by
      rw [Line.level]
      omega
    have hdepth : depth + (l.level - m : Nat) = max 0 l.depth + (depth - m) := by omega
    rw [hdepth]
  · rw [hread]
    constructor
    · obtain ⟨l,hl,hm⟩ := hleast.1
      exact ⟨_,List.mem_map_of_mem hl,by simp [hm]⟩
    · rintro d ⟨l,hl,rfl⟩
      obtain ⟨l,_,rfl⟩ := List.mem_map.mp hl
      exact Int.le_add_of_nonneg_right (Int.natCast_nonneg _)
  · intro margin hmargin
    obtain ⟨m',hleast',hread'⟩ := Line.ofSnippet_renderBehind hmargin hne hls depth
    rw [hread', hread, hleast.unique hleast']

/-- A loop with its body, inside of two others. -/
def innerLoop : Listing := [⟨2, "for k in range(2):"⟩, ⟨3, "t0 += 1.0"⟩]

theorem ofSnippet_render_innerLoop : innerLoop ≠ [] ∧ (∀ l ∈ innerLoop, IsTrim l.text.toList) ∧
    (∃ shift, Line.ofSnippet (innerLoop.render 4) 1 =
      [⟨2 + shift, "for k in range(2):"⟩, ⟨3 + shift, "t0 += 1.0"⟩]) ∧
    Line.ofSnippet (Line.renderBehind "\t " innerLoop) 1 = Line.ofSnippet (innerLoop.render 4) 1 := by
  have hne : innerLoop ≠ [] := by decide
  have htrim : ∀ l ∈ innerLoop, IsTrim l.text.toList := by
    simp only [innerLoop, List.forall_mem_cons, List.not_mem_nil, IsEmpty.forall_iff, implies_true, and_true]
    exact ⟨⟨by decide,⟨'f',rfl,by decide⟩,⟨':',rfl,by decide⟩⟩,
      ⟨by decide,⟨'t',rfl,by decide⟩,⟨'0',rfl,by decide⟩⟩⟩
  obtain ⟨-,hshift,-,hmargin⟩ := ofSnippet_render hne htrim 1
  exact ⟨hne,htrim,hshift,hmargin "\t " (List.all_eq_true.mp (by decide))⟩

example : Line.ofSnippet (innerLoop.render 4) 1 = [⟨1, "for k in range(2):"⟩, ⟨2, "t0 += 1.0"⟩] := by
  decide +kernel

/-- Lines at depths minus one and zero are printed alike, so they do not come back at two depths. -/
theorem ofSnippet_render_negative : ¬ ∃ shift, Line.ofSnippet (render [⟨-1, "a"⟩, ⟨0, "b"⟩] 4) 0 =
    [⟨-1 + shift, "a"⟩, ⟨0 + shift, "b"⟩] := by
  have hread : Line.ofSnippet (render [⟨-1, "a"⟩, ⟨0, "b"⟩] 4) 0 = [⟨0, "a"⟩, ⟨0, "b"⟩] := by
    decide +kernel
  rintro ⟨shift,h⟩
  rw [hread] at h
  simp only [List.cons.injEq, Line.mk.injEq] at h
  omega

end Listing

end FitCode
