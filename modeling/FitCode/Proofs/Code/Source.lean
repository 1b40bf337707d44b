import FitCode.Function
import FitCode.Proofs.Code.Trees

/-! # The source of a generated function

The source of a function is its header and the lines of its body, each with the indentation of its
block, so it is parsed as the function whose statements the lines spell.
-/
namespace FitCode

open Program Text Scan

namespace Text

variable {cs rest pad : List Char}

theorem cutLines_append (h : ∀ c ∈ cs, isLineEnd c = false) (rest : List Char) :
    cutLines (cs ++ '\n' :: rest) = (cs ++ ['\n']) :: cutLines rest := by
  induction cs with
  | nil =>
    rw [List.nil_append, cutLines]
    · rfl
    · rintro cs' ⟨⟩
  | cons c cs ih =>
    have hc := h c (by simp)
    have hrest := ih fun d hd => h d (by simp [hd])
    have hne : ∀ cs', c = '\r' → cs ++ '\n' :: rest = '\n' :: cs' → False := by
      rintro cs' rfl _
      cases hc
    rw [List.cons_append, cutLines]
    · rw [hc, hrest]
      rfl
    · exact hne

theorem indent_append (h : ∀ c ∈ cs, isLineEnd c = false) (hb : ∃ c ∈ cs, isBlank c = false)
    (rest : List Char) : indent pad (cs ++ '\n' :: rest) = pad ++ (cs ++ '\n' :: indent pad rest) := by
  obtain ⟨c,hc,hblank⟩ := hb
  have hall : (cs ++ ['\n']).all isBlank = false := by
    rw [List.all_eq_false]
    exact ⟨c,by simp [hc],by simp [hblank]⟩
  rw [indent, cutLines_append h, List.flatMap_cons, hall, indent]
  simp

end Text

namespace Line

/-- Lines that stand as they are in a source. -/
structure IsPlain (l : Line) : Prop where
  depth : 0 ≤ l.depth
  visible : ∃ c ∈ l.text.toList, isBlank c = false
  oneLine : ∀ c ∈ l.text.toList, isLineEnd c = false

/-- The line of the source. -/
def source (l : Line) : SourceLine := ⟨4 * (l.depth.toNat + 1), l.text.toList⟩

theorem IsPlain.toList_render {l : Line} (h : l.IsPlain) :
    (l.render 4).toList = List.replicate (4 * l.depth.toNat) ' ' ++ l.text.toList := by
  obtain ⟨c,hc,_⟩ := h.visible
  have hne : (l.text == "") = false := by
    refine beq_false_of_ne fun h => ?_
    simp [h] at hc
  have hdepth : (l.depth * 4).toNat = 4 * l.depth.toNat := by
    have := h.depth
    omega
  simp [render, hne, hdepth]

theorem indent_renderAll {ls : List Line} (h : ∀ l ∈ ls, l.IsPlain) :
    indent (List.replicate 4 ' ') (renderAll 4 ls).toList = (ls.map source).flatMap SourceLine.chars := by
  induction ls with
  | nil => rfl
  | cons l ls ih =>
    have hl := h l (by simp)
    have htext : (renderAll 4 (l :: ls)).toList =
        List.replicate (4 * l.depth.toNat) ' ' ++ l.text.toList ++ '\n' :: (renderAll 4 ls).toList := by
      simp [renderAll, hl.toList_render]
    have hline : ∀ c ∈ List.replicate (4 * l.depth.toNat) ' ' ++ l.text.toList, isLineEnd c = false :=
      List.forall_mem_append.mpr ⟨Phrase.oneLine_blanks _,hl.oneLine⟩
    obtain ⟨c,hc,hblank⟩ := hl.visible
    rw [htext, indent_append hline ⟨c,List.mem_append_right _ hc,hblank⟩, ih fun k hk => h k (by simp [hk])]
    have hmargin : List.replicate 4 ' ' ++ List.replicate (4 * l.depth.toNat) ' ' =
        List.replicate (4 * (l.depth.toNat + 1)) ' ' := by
      rw [List.replicate_append_replicate]
      congr 1
      omega
    simp only [List.map_cons, List.flatMap_cons, source, SourceLine.chars, ← hmargin, List.append_assoc,
      List.cons_append, List.nil_append]

end Line

namespace Program

variable {cs : List Char} {ts : List Token}

theorem LineText.trimEnd_eq (h : LineText cs ts) : trimEnd isBlank cs = cs := by
  obtain ⟨c,hc,hb⟩ := h.ending
  have hhead : cs.reverse.head? = some c := by rw [List.head?_reverse]; exact hc
  obtain ⟨ds,hds⟩ := List.head?_eq_some_iff.mp hhead
  rw [trimEnd, hds, List.dropWhile_cons_of_neg (by simp [hb]), ← hds, List.reverse_reverse]

theorem LineText.isPlain {text : String} (h : LineText text.toList ts) (d : Nat) : Line.IsPlain ⟨d, text⟩ := by
  obtain ⟨c,hc,hb,_⟩ := h.start
  exact ⟨Int.natCast_nonneg d,⟨c,List.mem_of_mem_head? hc,hb⟩,h.oneLine⟩

theorem LineText.lineOf_eq {text : String} (h : LineText text.toList ts) (d : Nat) :
    Item.lineOf d text = ⟨d, text⟩ := by
  rw [Item.lineOf, h.trimEnd_eq, String.ofList_toList]

theorem parse?_of_load {name source : String} {limits : Limits} {f : Function}
    (h : load name source limits = .ok f) :
    parse? (lex source).tokens.toList = some f := by
  unfold load at h
  split at h
  · cases h
  · dsimp only at h
    split at h
    · cases h
    · split at h
      · cases h
      · rename_i g hg
        rw [hg]
        split at h
        · cases h
        · split at h
          · cases h
          · split at h
            · cases h
              rfl
            · cases h

end Program

/-- Code without loops: names and what they are bound to. -/
abbrev Bindings := List (Var × Compound)

namespace Bindings

def items (c : Bindings) : List Item := c.map fun b => .assign b.1 b.2

noncomputable def trees (c : Bindings) : List Stmt := c.map fun b => .assign [b.1.text] b.2.tree

def IsReadable (c : Bindings) : Prop := ∀ b ∈ c, b.2.IsReadable

/-- The lines of the bindings at a depth. -/
def lines (d : Nat) (c : Bindings) : List Line := c.map fun b => ⟨d, b.1.text ++ " = " ++ b.2.text⟩

theorem linesAll_items {c : Bindings} (hc : c.IsReadable) (d : Nat) : Item.linesAll d c.items = c.lines d := by
  induction c with
  | nil => simp [items, lines]
  | cons b c ih =>
    obtain ⟨ts,hline,_⟩ := Item.lineText_assign b.1 (hc b (by simp))
    have hrest := ih fun b hb => hc b (by simp [hb])
    simp only [items, List.map_cons, Item.linesAll_cons, Item.lines, hline.lineOf_eq] at hrest ⊢
    rw [hrest]
    rfl

theorem isPlain_lines {c : Bindings} (hc : c.IsReadable) (d : Nat) : ∀ l ∈ c.lines d, l.IsPlain := by
  intro l hl
  obtain ⟨b,hb,rfl⟩ := List.mem_map.mp hl
  obtain ⟨ts,hline,_⟩ := Item.lineText_assign b.1 (hc b hb)
  exact hline.isPlain d

theorem passage {c : Bindings} (hc : c.IsReadable) {B : List Margin} {d : Nat}
    (hB : B.headD (0, 0) = (4 * (d + 1), 4 * (d + 1))) :
    ∃ ts, Passage B ((c.lines d).map Line.source) c.trees ts := by
  induction c with
  | nil => exact ⟨[],.nil⟩
  | cons b c ih =>
    obtain ⟨ws,hline,hlays⟩ := Item.lineText_assign b.1 (hc b (by simp))
    obtain ⟨ts,hrest⟩ := ih fun b hb => hc b (by simp [hb])
    exact ⟨_,(Passage.line hB hline hlays).append hrest⟩

end Bindings

namespace Model

/-- The header of a generated function under the default names. -/
def headLine : String := "def squashed(params, obs):"

theorem lineText_headLine : ∃ ws, LineText headLine.toList ws ∧
    headerTokens "squashed" "params" "obs" = ws ++ [.newline, .indent] := by
  have hdef : IsWord "def".toList := Scan.isWord_of_all (by decide)
  have hname : IsWord "squashed".toList := Scan.isWord_of_all (by decide)
  have hparams : IsWord "params".toList := Scan.isWord_of_all (by decide)
  have hobs : IsWord "obs".toList := Scan.isWord_of_all (by decide)
  have harguments := (Phrase.word hparams).joined (c := ',') (by decide) 0 (Phrase.word hobs).blank
  have hcall := ((Phrase.word hname).mono (Nat.zero_le 1)).append
    (harguments.bracketed (o := '(') (c := ')') (by decide) 0) ⟨'(',rfl,by decide⟩
  have hphrase := ((Phrase.word hdef).mono (Nat.zero_le 1)).append hcall.blank ⟨' ',rfl,by decide⟩
  exact ⟨_,hphrase.headText (by decide) hdef,rfl⟩

theorem toList_functionSource (hoist : Bool) (machine : Machine) {ls : List Line} (h : ∀ l ∈ ls, l.IsPlain) :
    (functionSource { hoist, machine } (Line.renderAll 4 ls)).toList =
      (⟨0, headLine.toList⟩ :: ls.map Line.source).flatMap SourceLine.chars := by
  have hindent := Line.indent_renderAll h
  have hsize : ({ hoist, machine } : Options).indentSize.toNat = 4 := rfl
  simp only [functionSource, hsize, hindent, String.toList_append, String.toList_ofList]
  simp [headLine, SourceLine.chars]

/-- The function of a body. -/
def squashed (body : List Stmt) : Function := ⟨"squashed", "params", "obs", body⟩

/-- A source is loaded as the function of the statements that its lines spell. -/
theorem load_eq {hoist : Bool} {machine : Machine} {limits : Limits}
    {ls : List Line} {ss : List Stmt} {ts : List Token} {f : Function}
    (hplain : ∀ l ∈ ls, l.IsPlain) (hls : ∃ l ∈ ls.head?, l.depth = 0) (hss : ss ≠ [])
    (hlaid : Laid [(4, 4)] (ls.map Line.source) (ts ++ [.dedent, .stop])) (hlays : Lays ss ts)
    (h : load "squashed" (functionSource { hoist, machine } (Line.renderAll 4 ls)) limits = .ok f) :
    f = squashed ss := by
  obtain ⟨ws,hline,hheader⟩ := lineText_headLine
  have hsource := toList_functionSource hoist machine hplain
  obtain ⟨l,hl,hdepth⟩ := hls
  obtain ⟨ls,rfl⟩ := List.head?_eq_some_iff.mp hl
  obtain ⟨s,ss,rfl⟩ := List.exists_cons_of_ne_nil hss
  have hfirst : l.source = ⟨4, l.text.toList⟩ := by rw [Line.source, hdepth]; rfl
  rw [List.map_cons, hfirst] at hlaid hsource
  have hparse := parse?_lex (by decide) hheader hline hlaid hlays hsource
  rw [parse?_of_load h] at hparse
  exact Option.some.inj hparse

theorem laid_return {x : Operand} (hx : x.IsReadable) :
    ∃ ts, Laid [(4, 4)] [⟨4, ("return " ++ x.text).toList⟩] (ts ++ [.dedent, .stop]) ∧
      Lays [.result (some x.tree)] ts ∧ Line.IsPlain ⟨0, "return " ++ x.text⟩ := by
  obtain ⟨ws,hline,hlays⟩ := Item.lineText_return hx
  refine ⟨ws ++ [.newline],?_,?_,hline.isPlain 0⟩
  · have hend : Laid [(4, 4)] [] ([.dedent] ++ [.stop]) := .nil (.close rfl (by decide))
    have hcons := Laid.cons (.stay rfl) hline hend
    simpa using hcons
  · have hcons := hlays [] [] .nil
    simpa using hcons

theorem head?_lines (c : Bindings) {l : Line} (hl : l.depth = 0) (ls : List Line) :
    ∃ k ∈ (c.lines 0 ++ l :: ls).head?, k.depth = 0 := by
  cases c with
  | nil => exact ⟨l,rfl,hl⟩
  | cons b c => exact ⟨_,rfl,rfl⟩

theorem load_straight {hoist : Bool} {machine : Machine} {limits : Limits}
    {c : Bindings} (hc : c.IsReadable) {x : Operand} (hx : x.IsReadable)
    {f : Function} (h : load "squashed" (functionSource { hoist, machine } (Line.renderAll 4
      (Item.linesAll 0 c.items ++ [⟨0, "return " ++ x.text⟩]))) limits = .ok f) :
    f = squashed (c.trees ++ [.result (some x.tree)]) := by
  obtain ⟨ws,hlast,hlays,hplain⟩ := laid_return hx
  obtain ⟨ts,hpassage⟩ := c.passage hc (B := [(4, 4)]) (d := 0) rfl
  rw [Bindings.linesAll_items hc] at h
  have hlaid := hpassage.laid _ _ hlast
  rw [← List.append_assoc] at hlaid
  refine load_eq ?_ (head?_lines c rfl []) (by simp) ?_ (hpassage.lays _ _ hlays) h
  · exact List.forall_mem_append.mpr ⟨Bindings.isPlain_lines hc 0,by simpa using hplain⟩
  · rw [List.map_append]
    exact hlaid

/-- The statements of a loop's body. -/
noncomputable def bodyTrees (c : Bindings) : List Stmt := if c = [] then [.pass] else c.trees

/-- The lines of a loop's body. -/
def bodyLines (c : Bindings) : List Line := if c = [] then [⟨1, "pass"⟩] else c.lines 1

theorem passage_body {c : Bindings} (hc : c.IsReadable) :
    ∃ cs ls s ss ts, (bodyLines c).map Line.source = ⟨8, cs⟩ :: ls ∧ bodyTrees c = s :: ss ∧
      Passage [(8, 8), (4, 4)] (⟨8, cs⟩ :: ls) (s :: ss) ts := by
  cases c with
  | nil =>
    have hline := Passage.line (B := [(8, 8), (4, 4)]) (m := 8) rfl Item.lineText_pass
      fun ss us h => Lays.pass h
    exact ⟨"pass".toList,[],.pass,[],_,rfl,by simp [bodyTrees],hline⟩
  | cons b c =>
    obtain ⟨ts,hpassage⟩ := Bindings.passage hc (B := [(8, 8), (4, 4)]) (d := 1) rfl
    have hne : b :: c ≠ [] := List.cons_ne_nil b c
    exact ⟨_,_,_,_,ts,by rw [bodyLines, if_neg hne]; rfl,by rw [bodyTrees, if_neg hne]; rfl,hpassage⟩

theorem isPlain_bodyLines {c : Bindings} (hc : c.IsReadable) : ∀ l ∈ bodyLines c, l.IsPlain := by
  rw [bodyLines]
  split
  · simpa using Item.lineText_pass.isPlain 1
  · exact Bindings.isPlain_lines hc 1

theorem load_looped {hoist : Bool} {machine : Machine} {limits : Limits}
    {c b : Bindings} (hc : c.IsReadable) (hb : b.IsReadable) {k n : Nat}
    (hn : n < 10 ^ Decimal.maxDigits) {x : Operand} (hx : x.IsReadable) {f : Function}
    (h : load "squashed" (functionSource { hoist, machine } (Line.renderAll 4 (Item.linesAll 0 c.items ++
      ⟨0, Item.loopText k n⟩ :: (bodyLines b ++ [⟨0, "return " ++ x.text⟩])))) limits = .ok f) :
    f = squashed (c.trees ++ [.forEach (Var.index k).text (.call (.name "range") [.int n]) (bodyTrees b),
      .result (some x.tree)]) := by
  obtain ⟨ws,hlast,hlays,hplain⟩ := laid_return hx
  obtain ⟨ts,hpassage⟩ := c.passage hc (B := [(4, 4)]) (d := 0) rfl
  obtain ⟨cs,ls,s,ss,us,hlines,htrees,hbody⟩ := passage_body hb
  obtain ⟨vs,hloop,hrange⟩ := Item.lineText_loop k hn
  rw [Bindings.linesAll_items hc] at h
  have hbodyLaid := Laid.loop rfl (by decide) (by decide) hloop hbody hlast
  have hbodyLays := hbody.lays [] [] .nil
  rw [List.append_nil, List.append_nil] at hbodyLays
  have hlaid := hpassage.laid _ _ hbodyLaid
  have hstmts := hpassage.lays _ _ (.forEach (Var.index k).text hrange hbodyLays hlays)
  rw [htrees]
  refine load_eq ?_ (head?_lines c rfl _) (by simp) ?_ hstmts h
  · refine List.forall_mem_append.mpr ⟨Bindings.isPlain_lines hc 0,List.forall_mem_cons.mpr
      ⟨hloop.isPlain 0,List.forall_mem_append.mpr ⟨isPlain_bodyLines hb,by simpa using hplain⟩⟩⟩
  · have hmap : List.map Line.source
        (c.lines 0 ++ ⟨0, Item.loopText k n⟩ :: (bodyLines b ++ [⟨0, "return " ++ x.text⟩])) = (c.lines 0).map Line.source ++ (⟨4, (Item.loopText k n).toList⟩ ::
          (⟨8, cs⟩ :: ls ++ [⟨4, ("return " ++ x.text).toList⟩])) := by
      rw [List.map_append, List.map_cons, List.map_append, hlines]
      rfl
    rw [hmap]
    simp only [List.append_assoc, List.cons_append, List.nil_append] at hlaid ⊢
    exact hlaid

end Model

end FitCode
