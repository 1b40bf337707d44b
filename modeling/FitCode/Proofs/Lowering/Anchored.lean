import FitCode.Proofs.Lowering.Fresh
import FitCode.Proofs.Lowering.Shelves
import FitCode.Proofs.Text.Names

/-! # Entries are anchored in their names

The depth of an entry is read off the names in its text. If names are bound once and can be found in a
text, no name moves to a loop further outside, so an entry is never deeper than the names it mentions, and
the access to an observable mentions the index of the loop that iterates it.
-/
namespace FitCode

open Emit

/-- Minted names can be found in a text, and are told apart from indices. -/
structure Options.Legible (o : Options) : Prop extends o.Apart where
  tempNames : ∀ k, Text.names (numbered o.tempStem k) = [numbered o.tempStem k]
  arrayNames : ∀ k, Text.names (numbered o.arrayStem k) = [numbered o.arrayStem k]
  loopNames : ∀ k, Text.names (numbered o.loopStem k) = [numbered o.loopStem k]

/-- A name that can be found in a text and is no index. -/
def Options.IsPlainName (o : Options) (name : String) : Prop :=
  Text.names name = [name] ∧ ∀ j, name ≠ numbered o.loopStem j

theorem Options.Legible.allows {s : Setting} (h : s.options.Legible) : s.Allows s.options.IsPlainName :=
  ⟨fun k => ⟨h.tempNames k,h.temp k⟩,fun k => ⟨h.arrayNames k,h.array k⟩⟩

theorem names_numbered (c : Char) (cs : List Char) (hc : Text.isNameStart c = true)
    (hcs : cs.all Text.isWord = true) (k : Nat) :
    Text.names (numbered (String.ofList (c :: cs)) k) = [numbered (String.ofList (c :: cs)) k] := by
  have hlist : (numbered (String.ofList (c :: cs)) k).toList = c :: (cs ++ (toString k).toList) := by
    simp [numbered]
  have hword : ∀ d ∈ cs ++ (toString k).toList, Text.isWord d = true := by
    intro d hd
    rcases List.mem_append.mp hd with hd | hd
    · exact List.all_eq_true.mp hcs d hd
    · exact Text.isWord_digit (Text.isDigit_toString hd)
  rw [Text.names_eq, hlist, Text.namesIn_word hc hword, ← hlist, String.ofList_toList]

theorem Options.legible_default : Options.Legible {} where
  toApart := Options.apart_default
  tempNames := names_numbered 't' [] (by decide) rfl
  arrayNames := names_numbered 'a' ['r', 'r'] (by decide) (by decide)
  loopNames := names_numbered 'l' ['o', 'o', 'p', '_', 'i', 'd', 'x'] (by decide) (by decide)

namespace Draft

/-- How deep the deepest name of a text is bound. -/
def mentioned (c : Draft) (text : String) : Nat :=
  (Text.names text).foldl (fun d n => max d (c.bindingDepth n)) 0

/-- No name is bound further outside than before. -/
def Rises (c c' : Draft) : Prop := ∀ n, c.bindingDepth n ≤ c'.bindingDepth n

/-- Names are bound as deep as what depends on them. -/
structure Anchored (o : Options) (c : Draft) : Prop where
  unbound : ∀ n, n ∉ c.taken → c.bindingDepth n = 0
  indices : ∀ j, c.loopCount ≤ j → numbered o.loopStem j ∉ c.taken
  loops : ∀ k l, c.Opens k l → l.depth ≤ c.bindingDepth l.index
  accesses : ∀ k l, c.Opens k l → ∀ id ∈ l.vars, ∃ text, c.bindings[id.serial]? = some text ∧
    l.index ∈ Text.names text
  entries : ∀ (shelf : Shelf) (k : Nat) (e : Entry), (c.cache shelf)[k]? = some e →
    e.depth ≤ c.mentioned e.text
  aside : ∀ k l, c.Opens k l → ∀ (shelf : Shelf) (v : Nat) (e : Entry), (l.aside shelf)[v]? = some e →
    e.depth ≤ c.mentioned e.text

variable {c c' : Draft}

theorem mentioned_le_iff {text : String} {d : Nat} :
    c.mentioned text ≤ d ↔ ∀ n ∈ Text.names text, c.bindingDepth n ≤ d := by
  rw [mentioned, foldl_max_le_iff]
  simp

theorem le_mentioned {text n : String} (hn : n ∈ Text.names text) : c.bindingDepth n ≤ c.mentioned text :=
  mentioned_le_iff.mp (Nat.le_refl _) n hn

theorem mentioned_mono {text text' : String} (h : ∀ n ∈ Text.names text, n ∈ Text.names text') :
    c.mentioned text ≤ c.mentioned text' := mentioned_le_iff.mpr fun n hn => le_mentioned (h n hn)

theorem mentioned_name {name : String} (h : Text.names name = [name]) :
    c.mentioned name = c.bindingDepth name := by
  rw [mentioned, h]
  simp

theorem depthOf_eq (c : Draft) (text : String) : c.depthOf text = min (c.mentioned text) c.depth := rfl

theorem Rises.refl (c : Draft) : c.Rises c := fun _ => Nat.le_refl _

theorem Rises.trans {c'' : Draft} (h : c.Rises c') (h' : c'.Rises c'') : c.Rises c'' :=
  fun n => Nat.le_trans (h n) (h' n)

theorem Rises.of_eq (h : c'.bindingDepths = c.bindingDepths) : c.Rises c' := fun n => by
  rw [bindingDepth, bindingDepth, h]

theorem Rises.mentioned (h : c.Rises c') (text : String) : c.mentioned text ≤ c'.mentioned text :=
  mentioned_le_iff.mpr fun n hn => Nat.le_trans (h n) (le_mentioned hn)

/-- The loop is open as before, and holds nothing that is not anchored. -/
structure Continues (c c' : Draft) (l l' : Loop) : Prop where
  vars : l'.vars = l.vars
  index : l'.index = l.index
  depth : l'.depth = l.depth
  bindings : ∀ id ∈ l.vars, c'.bindings[id.serial]? = c.bindings[id.serial]?
  aside : ∀ (shelf : Shelf) (v : Nat) (e : Entry), (l'.aside shelf)[v]? = some e →
    e.depth ≤ c.mentioned e.text

theorem Frames.opens (h : c.Frames c') {k : Nat} {l' : Loop} (hl : c'.Opens k l') :
    ∃ l queued, c.Opens k l ∧ l' = { l with queued } := by
  obtain ⟨i,hi,hl'⟩ := hl
  have hlt : i < c.loops.length := by
    rw [← h.count]
    exact (List.getElem?_eq_some_iff.mp hl').1
  obtain ⟨queued,hq⟩ := h.loops i _ (List.getElem?_eq_getElem hlt)
  obtain rfl := Option.some.inj (hq.symm.trans hl')
  exact ⟨_,queued,⟨i,h.stack ▸ hi,List.getElem?_eq_getElem hlt⟩,rfl⟩

namespace Anchored

variable {o : Options}

theorem continues (h : c.Anchored o) (hr : c.Rises c') (hunbound : ∀ n, n ∉ c'.taken → c'.bindingDepth n = 0)
    (hindices : ∀ j, c'.loopCount ≤ j → numbered o.loopStem j ∉ c'.taken)
    (hopens : ∀ k l', c'.Opens k l' → ∃ l, c.Opens k l ∧ c.Continues c' l l')
    (hentries : ∀ (shelf : Shelf) (k : Nat) (e : Entry), (c'.cache shelf)[k]? = some e →
      e.depth ≤ c'.mentioned e.text) : c'.Anchored o where
  unbound := hunbound
  indices := hindices
  loops := fun k l' hl' => by
    obtain ⟨l,hl,hcont⟩ := hopens k l' hl'
    rw [hcont.depth, hcont.index]
    exact Nat.le_trans (h.loops k l hl) (hr _)
  accesses := fun k l' hl' id hid => by
    obtain ⟨l,hl,hcont⟩ := hopens k l' hl'
    rw [hcont.vars] at hid
    rw [hcont.bindings id hid, hcont.index]
    exact h.accesses k l hl id hid
  entries := hentries
  aside := fun k l' hl' shelf v e he => by
    obtain ⟨l,hl,hcont⟩ := hopens k l' hl'
    exact Nat.le_trans (hcont.aside shelf v e he) (hr.mentioned _)

theorem continues_queued (h : c.Anchored o) (hb : c'.bindings = c.bindings) {k : Nat} {l : Loop}
    (hl : c.Opens k l) (queued : List Line) : c.Continues c' l { l with queued } :=
  ⟨rfl,rfl,rfl,fun id _ => by rw [hb],fun shelf v e he => h.aside k l hl shelf v e (by rwa [← l.aside_queued queued])⟩

/-- Steps that bind nothing but allowed names and keep the loops. -/
theorem frames (h : c.Anchored o) (hf : c.Frames c') (hr : c.Rises c')
    (hunbound : ∀ n, n ∉ c'.taken → c'.bindingDepth n = 0)
    (hindices : ∀ j, c.loopCount ≤ j → numbered o.loopStem j ∉ c'.taken)
    (hentries : ∀ (shelf : Shelf) (k : Nat) (e : Entry), (c'.cache shelf)[k]? = some e →
      e.depth ≤ c'.mentioned e.text) : c'.Anchored o := by
  refine h.continues hr hunbound (hf.loopCount ▸ hindices) (fun k l' hl' => ?_) hentries
  obtain ⟨l,queued,hl,rfl⟩ := hf.opens hl'
  exact ⟨l,hl,h.continues_queued hf.bindings hl queued⟩

theorem notes (h : c.Anchored o) (hn : c.Notes c') : c'.Anchored o := by
  have hr : c.Rises c' := .of_eq hn.bindingDepths
  have hdepth : ∀ n, c'.bindingDepth n = c.bindingDepth n := fun n => by
    rw [bindingDepth, bindingDepth, hn.bindingDepths]
  refine h.frames hn.toFrames hr (fun n hfree => ?_) (hn.taken ▸ h.indices) fun shelf k e he => ?_
  · rw [hdepth]
    exact h.unbound n (hn.taken ▸ hfree)
  · rw [cache_congr hn.results hn.arrays] at he
    exact Nat.le_trans (h.entries shelf k e he) (hr.mentioned _)

theorem rises_coins (h : c.Anchored o) {P : String → Prop} {name : String} (hn : c.Coins P name c') :
    c.Rises c' := by
  intro n
  by_cases hname : n = name
  · rw [hname, h.unbound name hn.free]
    exact Nat.zero_le _
  · rw [hn.others n hname]

theorem coins (h : c.Anchored o) {name : String} (hn : c.Coins o.IsPlainName name c') : c'.Anchored o := by
  have hr := h.rises_coins hn
  refine h.frames hn.toFrames hr (fun n hfree => ?_) (fun j hj hmem => ?_) fun shelf k e he => ?_
  · have hfree : n ≠ name ∧ n ∉ c.taken := not_or.mp fun hor => hfree ((hn.taken n).mpr hor)
    rw [hn.others n hfree.1]
    exact h.unbound n hfree.2
  · rcases (hn.taken _).mp hmem with heq | hmem
    · exact hn.allowed.2 j heq.symm
    · exact h.indices j hj hmem
  · rw [cache_congr hn.results hn.arrays] at he
    exact Nat.le_trans (h.entries shelf k e he) (hr.mentioned _)

theorem insertResult (h : c.Anchored o) (k : Nat) (text : String) :
    { c with results := c.results.insert k ⟨text, c.depthOf text⟩ }.Anchored o := by
  refine h.frames (.of_eq rfl rfl rfl rfl rfl) (.of_eq rfl) h.unbound h.indices fun shelf k' e he => ?_
  rw [getElem?_cache_insertResult] at he
  split at he
  · cases he
    exact Nat.min_le_left _ _
  · exact h.entries shelf k' e he

theorem insertArray (h : c.Anchored o) (k : Nat) {name : String} (hname : Text.names name = [name]) :
    { c with arrays := c.arrays.insert k ⟨name, c.bindingDepth name⟩ }.Anchored o := by
  refine h.frames (.of_eq rfl rfl rfl rfl rfl) (.of_eq rfl) h.unbound h.indices fun shelf k' e he => ?_
  rw [getElem?_cache_insertArray] at he
  split at he
  · cases he
    exact (mentioned_name hname).ge
  · exact h.entries shelf k' e he

theorem setAside (h : c.Anchored o) {shelf : Shelf} {k d i : Nat} {e : Entry}
    (he : (c.cache shelf)[k]? = some e) (hi : c.stack[d - 1]? = some i) :
    (c.setAside k e d shelf).Anchored o := by
  obtain ⟨hloops,hstack,hbindings,-,hcount,htaken,hdepths⟩ := setAside_eq shelf k e hi
  have hr : c.Rises (c.setAside k e d shelf) := .of_eq hdepths
  refine h.continues hr (fun n hn => ?_) ?_ (fun p l' hl' => ?_) fun shelf' k' e' he' => ?_
  · rw [bindingDepth, hdepths]
    exact h.unbound n (htaken ▸ hn)
  · rw [hcount, htaken]
    exact h.indices
  · obtain ⟨j,hj,hget⟩ := hl'
    rw [hloops, List.getElem?_modify, Option.map_eq_map, Option.map_eq_some_iff] at hget
    obtain ⟨l,hl,rfl⟩ := hget
    have hopen : c.Opens p l := ⟨j,hstack ▸ hj,hl⟩
    refine ⟨l,hopen,?_⟩
    split
    · refine ⟨l.vars_shelve k e shelf,?_,?_,fun id _ => by rw [hbindings],fun shelf' v e' he' => ?_⟩
      · cases shelf <;> rfl
      · cases shelf <;> rfl
      · rw [Loop.getElem?_aside_shelve] at he'
        split at he'
        · cases he'
          exact h.entries shelf k e he
        · exact h.aside p l hopen shelf' v e' he'
    · exact ⟨rfl,rfl,rfl,fun id _ => by rw [hbindings],h.aside p l hopen⟩
  · rw [getElem?_cache_setAside e hi] at he'
    split at he'
    · cases he'
    · exact Nat.le_trans (h.entries shelf' k' e' he') (hr.mentioned _)

/-- The index of a loop stands in the access to what it iterates. -/
theorem mem_names_indexed (c : Draft) (o : Options) {index : String} (h : Text.names index = [index])
    (id : Identity) : index ∈ Text.names (c.indexed o index id) := by
  have hopen : Text.isBreak '[' = true := by decide
  have hclose : Text.isBreak ']' = true := by decide
  have hlist : (c.indexed o index id).toList =
      (o.obsName ++ "[" ++ toString ((c.columns.get? id).getD 0) ++ "]").toList ++
        '[' :: (index.toList ++ ']' :: []) := by
    simp [indexed]
  rw [Text.names_eq, hlist, Text.namesIn_append_break _ _ hopen, Text.namesIn_append_break _ _ hclose,
    ← Text.names_eq index, h]
  simp

theorem bindingDepth_withLoop (c : Draft) (o : Options) (vars : List Identity) (length : Nat) (n : String) :
    (c.withLoop o vars length).bindingDepth n =
      if n = numbered o.loopStem c.loopCount then c.depth + 1 else c.bindingDepth n :=
  Fits.bindingDepth_cons c (numbered o.loopStem c.loopCount) n (c.depth + 1)

theorem rises_withLoop (h : c.Anchored o) (vars : List Identity) (length : Nat) :
    c.Rises (c.withLoop o vars length) := by
  intro n
  rw [bindingDepth_withLoop]
  split
  · rename_i hn
    rw [hn, h.unbound _ (h.indices _ (Nat.le_refl _))]
    exact Nat.zero_le _
  · exact Nat.le_refl _

theorem withLoop (h : c.Anchored o) (hc : c.Sound) (ho : ∀ k, Text.names (numbered o.loopStem k) =
    [numbered o.loopStem k]) {vars : List Identity} (hfree : ∀ id ∈ vars, c.bindings[id.serial]? = none)
    (length : Nat) : (c.withLoop o vars length).Anchored o := by
  have hr := h.rises_withLoop vars length
  have htaken : (c.withLoop o vars length).taken = numbered o.loopStem c.loopCount :: c.taken := rfl
  have hcache : (c.withLoop o vars length).cache = c.cache := cache_congr rfl rfl
  refine ⟨fun n hn => ?_,fun j hj hmem => ?_,fun k l hl => ?_,fun k l hl id hid => ?_,fun shelf k e he => ?_,
    fun k l hl shelf v e he => ?_⟩
  · rw [htaken, List.mem_cons, not_or] at hn
    rw [bindingDepth_withLoop, if_neg hn.1]
    exact h.unbound n hn.2
  · have hj : c.loopCount + 1 ≤ j := hj
    rw [htaken, List.mem_cons] at hmem
    rcases hmem with heq | hmem
    · have := numbered_injective _ heq
      omega
    · exact h.indices j (by omega) hmem
  · rcases (opens_withLoop hc).mp hl with hl | ⟨-,rfl⟩
    · exact Nat.le_trans (h.loops k l hl) (hr _)
    · rw [bindingDepth_withLoop]
      exact (if_pos rfl).ge
  · rw [getElem?_bindings_withLoop]
    rcases (opens_withLoop hc).mp hl with hl | ⟨-,rfl⟩
    · obtain ⟨text,htext,hmem⟩ := h.accesses k l hl id hid
      rw [if_neg]
      · exact ⟨text,htext,hmem⟩
      · rw [List.contains_iff_mem, List.mem_map]
        rintro ⟨id',hid',heq⟩
        have hnone := hfree id' hid'
        rw [heq, htext] at hnone
        cases hnone
    · have hmem : (vars.map (·.serial)).contains id.serial = true :=
        List.contains_iff_mem.mpr (List.mem_map_of_mem hid)
      rw [if_pos hmem]
      exact ⟨_,rfl,mem_names_indexed c o (ho c.loopCount) _⟩
  · rw [hcache] at he
    exact Nat.le_trans (h.entries shelf k e he) (hr.mentioned _)
  · rcases (opens_withLoop hc).mp hl with hl | ⟨-,rfl⟩
    · exact Nat.le_trans (h.aside k l hl shelf v e he) (hr.mentioned _)
    · cases shelf <;> exact absurd he (by simp [Loop.aside, nextLoop])

theorem withoutLoop (h : c.Anchored o) (hc : c.Sound) {i : Nat} {l : Loop} (hi : c.stack.getLast? = some i)
    (hl : c.loops[i]? = some l) (body : Listing) : ({ c with body }.withoutLoop i l).Anchored o := by
  obtain ⟨hlast,hpos⟩ := getElem?_stack_last hi
  have hopen : c.Opens (c.depth - 1) l := ⟨i,hlast,hl⟩
  refine h.continues (.of_eq rfl) h.unbound h.indices (fun k m hm => ?_) fun shelf k e he => ?_
  · obtain ⟨hm,hk⟩ := (opens_withoutLoop hc hi body).mp hm
    refine ⟨m,hm,rfl,rfl,rfl,fun id hid => ?_,h.aside k m hm⟩
    rw [getElem?_bindings_withoutLoop, if_neg]
    rw [List.contains_iff_mem, List.mem_map]
    rintro ⟨id',hid',heq⟩
    exact hc.disjoint k (c.depth - 1) m l (by omega) hm hopen id hid id' hid' heq.symm
  · rw [getElem?_cache_withoutLoop, Option.or_eq_some_iff] at he
    rcases he with he | ⟨-,he⟩
    · exact h.aside _ l hopen shelf k e he
    · exact h.entries shelf k e (Cache.lt_of_below he).1

theorem atTop (h : c.Anchored o) : c.atTop.Anchored o := by
  have hnone : ∀ {k : Nat} {l : Loop}, ¬ c.atTop.Opens k l := by
    rintro k l ⟨i,hi,-⟩
    cases hi
  refine ⟨h.unbound,h.indices,fun _ _ hl => absurd hl hnone,fun _ _ hl => absurd hl hnone,
    fun shelf k e he => ?_,fun _ _ hl => absurd hl hnone⟩
  cases shelf with
  | results => exact h.entries .results k e (Cache.lt_of_below he).1
  | arrays => exact h.entries .arrays k e (Cache.lt_of_below he).1

/-- What was lowered at top level is taken back, up to the names. -/
theorem backTo (h : c.Anchored o) (hc : c.Sound) {inner : Draft} {T : Nat → Prop}
    (hb : c.atTop.Balanced T inner) (hr : c.Rises inner) (hin : inner.Anchored o) :
    (inner.backTo c).Anchored o := by
  refine h.continues hr hin.unbound hin.indices (fun k l hl => ?_) fun shelf k e he => ?_
  · have hl := opens_backTo hc hb hl
    exact ⟨l,hl,rfl,rfl,rfl,fun _ _ => rfl,h.aside k l hl⟩
  · have hcache : (inner.backTo c).cache = c.cache := cache_congr rfl rfl
    rw [hcache] at he
    exact Nat.le_trans (h.entries shelf k e he) (hr.mentioned _)

theorem adopt (h : c.Anchored o) (hc : c.Sound) {inner : Draft} {T : Nat → Prop}
    (hb : c.atTop.Balanced T inner) (hr : c.Rises inner) (hin : inner.Anchored o) :
    ((inner.backTo c).adopt inner).Anchored o := by
  have hnotes := (inner.backTo c).notes_queueAt 0 inner.body
  have hqueued := (h.backTo hc hb hr hin).notes hnotes
  refine hqueued.frames (.of_eq rfl rfl rfl rfl rfl) (.of_eq rfl) hqueued.unbound hqueued.indices
    fun shelf k e he => ?_
  have hc' : c.Rises ((inner.backTo c).adopt inner) := hr.trans (.of_eq hnotes.bindingDepths)
  have hin' : inner.Rises ((inner.backTo c).adopt inner) := .of_eq hnotes.bindingDepths
  replace he : ((((inner.backTo c).adopt inner).cache shelf))[k]? = some e := he
  rw [getElem?_cache_adopt, Option.or_eq_some_iff] at he
  rcases he with he | ⟨-,he⟩
  · exact Nat.le_trans (h.entries shelf k e he) (hc'.mentioned _)
  · exact Nat.le_trans (hin.entries shelf k e he) (hin'.mentioned _)

end Anchored

end Draft

namespace Setting

open Draft

variable {s : Setting} {α β : Type} {c : Draft}

/-- Steps that bind plain names keep entries anchored, and no name moves outwards. -/
theorem Shelves.anchored (ho : s.options.Legible) {b : Nat} {x : Emit α} {es : List Shelving}
    (h : s.Shelves s.options.IsPlainName b x c es) (ha : c.Anchored s.options) :
    (x.outcome c).2.Anchored s.options ∧ c.Rises (x.outcome c).2 := by
  induction h with
  | note h => exact ⟨ha.notes h,.of_eq h.bindingDepths⟩
  | coin h => exact ⟨ha.coins h,ha.rises_coins h⟩
  | register hnew h =>
    rw [h]
    exact ⟨ha.insertResult _ _,.of_eq rfl⟩
  | build hnew hx hs h hname hf ih =>
    obtain ⟨ha',hr⟩ := ih ha
    rw [hx] at ha' hr
    rw [outcome_bind, hx, hf]
    have hbound := ha'.coins hname
    have hr' := hr.trans (ha'.rises_coins hname)
    exact ⟨hbound.insertArray _ hname.allowed.1,hr'.trans (.of_eq rfl)⟩
  | bind hx h hf ih ihf =>
    obtain ⟨ha',hr⟩ := ih ha
    rw [hx] at ha' hr
    rw [outcome_bind, hx]
    obtain ⟨ha'',hr'⟩ := ihf ha'
    exact ⟨ha'',hr.trans hr'⟩
  | stop hx h ih =>
    obtain ⟨ha',hr⟩ := ih ha
    rw [hx] at ha' hr
    rw [outcome_bind, hx]
    exact ⟨ha',hr⟩
  | attempt h ih => exact ih ha
  | @aside _ c shelf k d i e hc he hd hlt hi =>
    have hdepths := (setAside_eq shelf k e hi).2.2.2.2.2.2
    exact ⟨ha.setAside he hi,.of_eq hdepths⟩
  | opens hc h hfree =>
    rw [h]
    exact ⟨ha.withLoop hc ho.loopNames hfree _,ha.rises_withLoop _ _⟩
  | closes hc hb hi hl =>
    rw [closeLoop_outcome hc hi hl]
    exact ⟨ha.withoutLoop hc hi hl _,.of_eq rfl⟩
  | @lifted _ x c inner T es hc hx hm h ih =>
    obtain ⟨hin,hr⟩ := ih ha.atTop
    rw [hx] at hin hr
    rw [outcome_atTopLevel_ok hx]
    have hadopt : inner.Rises ((inner.backTo c).adopt inner) :=
      .of_eq ((inner.backTo c).notes_queueAt 0 inner.body).bindingDepths
    exact ⟨ha.adopt hc hm.balanced hr hin,Rises.trans hr hadopt⟩
  | dropped hc hx hm h ih =>
    obtain ⟨hin,hr⟩ := ih ha.atTop
    rw [hx] at hin hr
    rw [outcome_atTopLevel_error hx]
    exact ⟨ha.backTo hc hm.balanced hr hin,hr⟩

/-- The step keeps a draft sound and its entries anchored. -/
def Anchors (s : Setting) (x : Emit α) : Prop :=
  ∀ c : Draft, c.Sound → c.Anchored s.options → (x.outcome c).2.Sound ∧ (x.outcome c).2.Anchored s.options

namespace Anchors

variable {x : Emit α} {f : α → Emit β}

theorem of_shelved (ho : s.options.Legible) (hx : s.Shelved s.options.IsPlainName x) : s.Anchors x := by
  intro c hc ha
  obtain ⟨hm,hlog⟩ := hx c hc
  obtain ⟨es,hes⟩ := hlog 0 (Nat.zero_le _)
  exact ⟨hm.sound,(hes.anchored ho ha).1⟩

theorem bind (hx : s.Anchors x) (hf : ∀ a, s.Anchors (f a)) : s.Anchors (x >>= f) := by
  intro c hc ha
  rw [outcome_bind]
  obtain ⟨hc',ha'⟩ := hx c hc ha
  rcases hr : x.outcome c with ⟨r,c'⟩
  rw [hr] at hc' ha'
  cases r with
  | error e => exact ⟨hc',ha'⟩
  | ok a => exact hf a c' hc' ha'

theorem pure (a : α) : s.Anchors (pure a : Emit α) := fun _ hc ha => ⟨hc,ha⟩

theorem throw (e : Fault) : s.Anchors (throw e : Emit α) := fun _ hc ha => ⟨hc,ha⟩

theorem ofExcept (r : Except Fault α) : s.Anchors (Emit.ofExcept r) := by
  cases r with
  | error e => exact throw e
  | ok a => exact pure a

theorem mapM {as : List α} (hf : ∀ a, s.Anchors (f a)) : s.Anchors (as.mapM f) := by
  induction as with
  | nil => exact pure []
  | cons a as ih =>
    rw [List.mapM_cons]
    exact (hf a).bind fun b => ih.bind fun bs => pure (b :: bs)

theorem of_alike (h : ∀ c : Draft, c.Alike (x.outcome c).2 ∧ (x.outcome c).2.loopCount = c.loopCount ∧
    (x.outcome c).2.taken = c.taken ∧ (x.outcome c).2.bindingDepths = c.bindingDepths) : s.Anchors x := by
  intro c hc ha
  obtain ⟨hl,hcount,htaken,hdepths⟩ := h c
  exact ⟨hc.alike hl,ha.notes (.of_eq hl.stack hl.bindings hl.columns hcount hl.loops htaken hdepths
    hl.results hl.arrays)⟩

end Anchors

theorem anchors_eval (s : Setting) (t : Term) : s.Anchors (s.eval t) := by
  refine .of_alike fun c => ?_
  rw [eval, outcome_get_bind]
  rcases (t.eval s.graph).run.run c.nextSerial with ⟨outcome,n⟩
  rw [outcome_set_bind, outcome_ofExcept]
  exact ⟨⟨rfl,rfl,rfl,rfl,rfl,rfl,rfl,rfl⟩,rfl,rfl,rfl⟩

theorem anchors_assignColumn (s : Setting) (node column : Datum) : s.Anchors (s.assignColumn node column) := by
  intro c hc ha
  rcases s.assignColumn_cases node column c with ⟨e,he⟩ | ⟨id,n,he,-⟩
  · rw [he]
    exact ⟨hc,ha⟩
  · rw [he]
    exact ⟨hc.assign id n,ha.continues (.of_eq rfl) ha.unbound ha.indices
      (fun k l hl => ⟨l,hl,rfl,rfl,rfl,fun _ _ => rfl,ha.aside k l hl⟩) ha.entries⟩

theorem anchors_openLoop (hv : s.options.Valid) (ho : s.options.Legible) (node : Datum) :
    s.Anchors (s.openLoop node) := by
  intro c hc ha
  rcases s.openLoop_cases node c with ⟨e,he⟩ | ⟨vars,length,he,hfree,hreg⟩
  · rw [he]
    exact ⟨hc,ha⟩
  · rw [he]
    exact ⟨hc.withLoop hv hfree hreg length,ha.withLoop hc ho.loopNames hfree length⟩

theorem anchors_closeLoop (s : Setting) (i : Nat) : s.Anchors (closeLoop i) := by
  intro c hc ha
  rcases closeLoop_cases hc i with ⟨e,he⟩ | ⟨l,hi,hl,he⟩
  · rw [he]
    exact ⟨hc,ha⟩
  · rw [he]
    exact ⟨hc.withoutLoop hi hl,ha.withoutLoop hc hi hl _⟩

theorem anchors_leaveLoop (s : Setting) (i : Nat) : s.Anchors (leaveLoop i) := by
  intro c hc ha
  rw [leaveLoop, outcome_get_bind]
  cases c.loop? i with
  | none => exact ⟨hc,ha⟩
  | some l =>
    dsimp only
    split
    · exact s.anchors_closeLoop i c hc ha
    · exact ⟨hc,ha⟩

theorem anchors_openedLoop (s : Setting) (i : Int) : s.Anchors (openedLoop i) := by
  intro c hc ha
  rcases openedLoop_cases i c with ⟨e,he⟩ | ⟨h,he⟩
  · exact he ▸ ⟨hc,ha⟩
  · exact he ▸ ⟨hc,ha⟩

theorem anchors_finish (s : Setting) (expr : String) : s.Anchors (s.finish expr) := by
  refine .of_alike fun c => ?_
  rcases s.finish_state expr c with h | h <;> rw [h] <;> exact ⟨⟨rfl,rfl,rfl,rfl,rfl,rfl,rfl,rfl⟩,rfl,rfl,rfl⟩

end Setting

/-- The names that a command gives are allowed. -/
def Command.Names (P : String → Prop) : Command → Prop
  | .bindTemp _ _ given => ∀ name, Setting.explicitName given = some name → P name
  | .arrayOf _ given => ∀ name, Setting.explicitName given = some name → P name
  | _ => True

namespace Setting

variable {s : Setting} {c : Draft}

theorem anchors_execute (hv : s.options.Valid) (ho : s.options.Legible) (hg : s.graph.Scriptless)
    (trail : Trail) (results : List Answer) {command : Command}
    (hnames : command.Names s.options.IsPlainName) :
    s.Anchors (s.execute s.lowerer trail results command) := by
  have hP := ho.allows
  have hl := nested_shelved hP hv hg (s.options.machine.calls + 1)
  have heval := s.anchors_eval
  have hevals : ∀ ts, s.Anchors (s.evalAll ts) := fun ts => .mapM heval
  have hid : ∀ d, s.Anchors (s.identityOf d) := fun d => .ofExcept _
  have hget : ∀ f : Draft → Answer, s.Anchors (do return f (← get)) := fun f _ hc ha => ⟨hc,ha⟩
  have hreq : ∀ {x : Emit String} {f : String → Answer}, s.Shelved s.options.IsPlainName x →
      s.Anchors (do return f (← x)) := fun hx => .bind (.of_shelved ho hx) fun _ => .pure _
  cases command with
  | sizeAt t => exact .bind (heval t) fun d => .bind (hid d) fun _ => .pure _
  | sizes => exact .pure _
  | assignColumn t column =>
    refine .bind (heval t) fun node => .bind (heval column) fun d => ?_
    exact .bind (s.anchors_assignColumn node d) fun _ => .pure _
  | columnOf t => exact .bind (heval t) fun d => .bind (hid d) fun id => hget _
  | register t expr save => exact .bind (heval t) fun d => hreq (shelved_register hP d _ save)
  | isResolved t => exact .bind (heval t) fun d => .bind (hid d) fun id => hget _
  | request t => exact .bind (heval t) fun d => hreq (hl.1 trail d)
  | emit t => exact .bind (heval t) fun d => .bind (.of_shelved ho (hl.2 trail d)) fun _ => .pure _
  | temp => exact hreq (shelved_freshTemp hP)
  | bindTemp t expr name => exact .bind (heval t) fun d => hreq (shelved_bindTemp hP d _ hnames)
  | openLoop t =>
    refine .bind (heval t) fun d => .bind (anchors_openLoop hv ho d) fun h => .bind ?_ fun _ => hget _
    exact .of_alike fun c => ⟨⟨rfl,rfl,rfl,rfl,rfl,rfl,rfl,rfl⟩,rfl,rfl,rfl⟩
  | closeLoop i => exact .bind (s.anchors_openedLoop i) fun h => .bind (s.anchors_closeLoop h) fun _ => .pure _
  | leaveLoop i => exact .bind (s.anchors_openedLoop i) fun h => .bind (s.anchors_leaveLoop h) fun _ => .pure _
  | queue i lines =>
    refine .bind (s.anchors_openedLoop i) fun h => .bind (fun c hc ha => ?_) fun _ => .pure _
    exact ⟨hc.queue h lines,ha.notes (c.notes_queue h lines)⟩
  | innermost => exact hget _
  | arrayOf t name => exact .bind (heval t) fun d => hreq (shelved_arrayOf hP hl.1 trail d hnames)
  | toArgument t => exact .bind (heval t) fun d => .bind (.ofExcept _) fun a => .bind (.ofExcept _) fun _ => .pure _
  | argumentCode t =>
    refine .bind (heval t) fun d => ?_
    cases d with
    | argument k d => exact .bind (.of_shelved ho (shelved_argumentCode hP hl.1 trail k d)) fun _ => .pure _
    | _ => exact .throw _
  | argumentsCode ts => exact .bind (hevals _) fun ds => hreq (shelved_argumentsCode hP hl.1 trail ds)
  | callCode f ts => exact .bind (hevals _) fun ds => hreq (shelved_callCode hP hl.1 trail f ds)
  | addPreamble text =>
    exact .bind (.of_alike fun c => ⟨⟨rfl,rfl,rfl,rfl,rfl,rfl,rfl,rfl⟩,rfl,rfl,rfl⟩) fun _ => .pure _
  | write text => exact .bind (.of_shelved ho (s.shelved_write _)) fun _ => .pure _
  | finish expr => exact .bind (s.anchors_finish _) fun _ => .pure _
  | snapshot => exact hget _

/-- The drafts that commands lead to if they give allowed names only. -/
inductive ReachableBy (s : Setting) (P : String → Prop) : Draft → Prop
  | start (n : Nat) : ReachableBy s P { nextSerial := n }
  | command {c : Draft} (h : ReachableBy s P c) (trail : Trail) (results : List Answer) {command : Command}
    (hnames : command.Names P) : ReachableBy s P ((s.execute s.lowerer trail results command).outcome c).2
  | entered {c : Draft} (h : ReachableBy s P c) (id : Identity) : ReachableBy s P (c.entered id)
  | lifted {c : Draft} (h : ReachableBy s P c) : ReachableBy s P c.atTop

theorem reachableBy_reach {P : String → Prop} (n : Nat) {commands : List Command}
    (hnames : ∀ command ∈ commands, command.Names P) : s.ReachableBy P (s.reach n commands) := by
  have hrun : ∀ now : List Answer × Draft, s.ReachableBy P now.2 →
      s.ReachableBy P (commands.foldl s.after now).2 := by
    induction commands with
    | nil => exact fun _ h => h
    | cons command commands ih =>
      intro now h
      exact ih (fun command' hmem => hnames command' (by simp [hmem])) _
        (.command h {} now.1 (hnames command (by simp)))
  exact hrun _ (.start n)

theorem anchored_start (o : Options) (n : Nat) : Draft.Anchored o { nextSerial := n } := by
  have hnone : ∀ {k : Nat} {l : Loop}, ¬ Draft.Opens { nextSerial := n } k l := by
    rintro k l ⟨i,hi,-⟩
    cases hi
  refine ⟨fun _ _ => rfl,fun _ _ => List.not_mem_nil,fun _ _ hl => absurd hl hnone,
    fun _ _ hl => absurd hl hnone,fun shelf k e he => ?_,fun _ _ hl => absurd hl hnone⟩
  cases shelf <;> exact absurd he (by simp [Draft.cache])

theorem ReachableBy.anchored (hv : s.options.Valid) (ho : s.options.Legible) (hg : s.graph.Scriptless)
    (h : s.ReachableBy s.options.IsPlainName c) : c.Sound ∧ c.Anchored s.options := by
  induction h with
  | start n => exact ⟨Draft.sound_start n,anchored_start _ n⟩
  | command _ trail results hnames ih => exact anchors_execute hv ho hg trail results hnames _ ih.1 ih.2
  | entered _ id ih =>
    exact ⟨ih.1.running _,ih.2.notes (.of_eq rfl rfl rfl rfl rfl rfl rfl rfl rfl)⟩
  | lifted _ ih => exact ⟨Draft.sound_atTop _,ih.2.atTop⟩

end Setting

end FitCode
