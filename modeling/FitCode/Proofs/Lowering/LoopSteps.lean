import FitCode.Proofs.Lowering.Builds
import FitCode.Proofs.Lowering.Steps

/-! # Loops of a draft and of its sketch

Opening and closing loops, lowering at top level and setting results aside keep a draft fitting. What
happens between is balanced: the same loops are open afterwards, and loops that are not open stay as
they are.
-/
namespace FitCode

open Text

/-- The same loops are open, and the others are untouched. -/
structure Draft.Stays (c c' : Draft) : Prop where
  stack : c'.stack = c.stack
  length : c.loops.length ≤ c'.loops.length
  loops : ∀ i < c.loops.length, i ∉ c.stack → c'.loops[i]? = c.loops[i]?

namespace Draft.Stays

variable {c c' c'' : Draft}

theorem refl (c : Draft) : c.Stays c := ⟨rfl,Nat.le_refl _,fun _ _ _ => rfl⟩

theorem trans (h : c.Stays c') (h' : c'.Stays c'') : c.Stays c'' where
  stack := h'.stack.trans h.stack
  length := Nat.le_trans h.length h'.length
  loops := by
    intro i hi hn
    rw [h'.loops i (Nat.lt_of_lt_of_le hi h.length) (h.stack ▸ hn), h.loops i hi hn]

theorem of_eq (hs : c'.stack = c.stack) (hl : c'.loops = c.loops) : c.Stays c' :=
  ⟨hs,by rw [hl],fun _ _ _ => by rw [hl]⟩

theorem trans_eq (h : c.Stays c') (hs : c''.stack = c'.stack) (hl : c''.loops = c'.loops) :
    c.Stays c'' := h.trans (of_eq hs hl)

theorem modifyLoop {k : Nat} (hk : k ∈ c.stack) (g : Loop → Loop) : c.Stays (c.modifyLoop k g) where
  stack := rfl
  length := by simp [Draft.modifyLoop]
  loops := by
    intro i _ hn
    have hne : k ≠ i := fun he => hn (he ▸ hk)
    simp [Draft.modifyLoop, hne]

theorem queueAt (c : Draft) (d : Nat) (ls : List Line) : c.Stays (c.queueAt d ls) := by
  rw [Draft.queueAt]
  split
  · rename_i k hk
    exact modifyLoop (List.mem_of_getElem? hk) _
  · exact refl c

theorem setResultAside (c : Draft) (v : Nat) (e : Entry) (d : Nat) :
    c.Stays (c.setResultAside v e d) := by
  rw [Draft.setResultAside]
  split
  · rename_i k hk
    exact (modifyLoop (List.mem_of_getElem? hk) _).trans_eq rfl rfl
  · exact refl c

theorem setArrayAside (c : Draft) (v : Nat) (e : Entry) (d : Nat) :
    c.Stays (c.setArrayAside v e d) := by
  rw [Draft.setArrayAside]
  split
  · rename_i k hk
    exact (modifyLoop (List.mem_of_getElem? hk) _).trans_eq rfl rfl
  · exact refl c

theorem introduce (c : Draft) (o : Options) (name statement : String) (d : Nat) :
    c.Stays (c.introduce o name statement d) := by
  simp only [Draft.introduce]
  generalize (if o.hoist then d else c.depth) = d
  split
  · exact of_eq rfl rfl
  · refine trans ?_ (queueAt _ _ _)
    exact of_eq rfl rfl

theorem bindFresh (c : Draft) (o : Options) (expr : String) : c.Stays (c.bindFresh o expr).2 := by
  have h : c.Stays (c.freshTemp o).2 := of_eq rfl rfl
  exact h.trans (introduce _ _ _ _ _)

theorem loop (o : Options) (vars : List Identity) (length : Nat)
    (h : (c.withLoop o vars length).Stays c') (body : Listing) (l : Loop) :
    c.Stays ({ c' with body }.withoutLoop c.loops.length l) where
  stack := by
    simp [Draft.withoutLoop, Draft.modifyLoop, h.stack, Draft.withLoop]
  length := by
    have hl := h.length
    simp only [Draft.withLoop, List.length_append, List.length_singleton] at hl
    simp only [Draft.withoutLoop, Draft.modifyLoop, List.length_modify]
    omega
  loops := by
    intro i hi hn
    have hne : c.loops.length ≠ i := by omega
    have hlt : i < (c.withLoop o vars length).loops.length := by
      simp only [Draft.withLoop, List.length_append, List.length_singleton]
      omega
    have hstack : i ∉ (c.withLoop o vars length).stack := by
      simp only [Draft.withLoop, List.mem_append, List.mem_singleton]
      exact not_or.mpr ⟨hn,Ne.symm hne⟩
    have hmod : ({ c' with body }.withoutLoop c.loops.length l).loops[i]? = c'.loops[i]? := by
      simp [Draft.withoutLoop, Draft.modifyLoop, hne]
    rw [hmod, h.loops i hlt hstack]
    exact List.getElem?_append_left hi

end Draft.Stays

namespace Draft.Fits

variable {p : Plan} {c : Draft} {σ : Sketch}

theorem stack_isEmpty (h : c.Fits p σ) : c.stack.isEmpty = σ.frames.isEmpty := by
  have hl := h.stack.length_eq
  rw [List.length_reverse] at hl
  cases hs : c.stack with
  | nil =>
    cases hf : σ.frames with
    | nil => rfl
    | cons f fs => simp [hs, hf] at hl
  | cons i is =>
    cases hf : σ.frames with
    | nil => simp [hs, hf] at hl
    | cons f fs => rfl

theorem contains_bindings (h : c.Fits p σ) (k : Nat) :
    c.bindings.contains k = (σ.index? k).isSome := by
  rw [Std.TreeMap.contains_eq_isSome_getElem?, h.bindings, Sketch.binding]
  simp

theorem inputs_eq (h : c.Fits p σ) (v : Nat) : p.toSetting.inputs c (.object v) = p.inputs v := by
  rw [Setting.inputs, h.columns]
  rfl

theorem isLiftable_eq (h : c.Fits p σ) (v : Nat) :
    p.toSetting.isLiftable c (.object v) = p.isLiftable σ v := by
  simp only [Setting.isLiftable, Plan.isLiftable, h.stack_isEmpty, h.inputs_eq, Setting.isReducer,
    h.contains_bindings]

end Draft.Fits

theorem Stacked.iterationDepth_eq {loops : List Loop} {hs : List Nat} {fs : List Frame}
    (h : Stacked loops hs fs) (inputs : List Identity) :
    (((hs.filterMap (loops[·]?)).find? fun l =>
      l.vars.any fun v => inputs.any fun i => i.same v).map (·.depth)).getD 0 =
      (fs.dropWhile fun f => !f.vars.any fun w => inputs.any (·.serial == w)).length := by
  induction h with
  | nil => rfl
  | @cons h l hs f fs hl hf _ _ _ ih =>
    have hv : (f.vars.any fun w => inputs.any (·.serial == w)) =
        l.vars.any fun v => inputs.any fun i => i.same v := by
      rw [← hf.vars, List.any_map]
      rfl
    rw [List.filterMap_cons_some hl, List.find?_cons, List.dropWhile_cons, hv]
    cases l.vars.any fun v => inputs.any fun i => i.same v with
    | true => simp [hf.depth]
    | false => simpa using ih

namespace Draft.Fits

variable {p : Plan} {c : Draft} {σ : Sketch}

theorem iterationDepth_eq (h : c.Fits p σ) (v : Nat) :
    p.toSetting.iterationDepth c (.object v) = p.iterationDepth σ v := by
  have ho : c.openLoops.reverse = c.stack.reverse.filterMap (c.loops[·]?) := by
    rw [Draft.openLoops, List.filterMap_reverse]
    rfl
  simp only [Setting.iterationDepth, Plan.iterationDepth, h.stack_isEmpty, h.isLiftable_eq,
    h.inputs_eq, ho, h.stack.iterationDepth_eq]

theorem setResultAside (h : c.Fits p σ) {d : Nat} (hd : 0 < d) (hle : d ≤ σ.depth) (v : Nat)
    (e : Held) :
    (c.setResultAside v ⟨e.operand.text, e.depth⟩ d).Fits p (σ.setResultAside v e d) := by
  obtain ⟨k,hk,hr⟩ := h.stack_getElem? (d := d - 1) (by omega)
  rw [Nat.sub_add_cancel hd] at hr
  rw [Draft.setResultAside, hk]
  have hm := h.modifyFrame hr
    (fun l => { l with results := l.results.insert v ⟨e.operand.text, e.depth⟩ })
    (fun f => { f with results := Function.update f.results v (some e) })
    (fun f => ⟨rfl,rfl,rfl,rfl⟩)
    (fun l f fs _ hf => { hf with results := hf.results.insert v e.operand e.depth })
  exact { hm with results := h.results.erase v }

theorem setArrayAside (h : c.Fits p σ) {d : Nat} (hd : 0 < d) (hle : d ≤ σ.depth) (v : Nat)
    (e : Held) :
    (c.setArrayAside v ⟨e.operand.text, e.depth⟩ d).Fits p (σ.setArrayAside v e d) := by
  obtain ⟨k,hk,hr⟩ := h.stack_getElem? (d := d - 1) (by omega)
  rw [Nat.sub_add_cancel hd] at hr
  rw [Draft.setArrayAside, hk]
  have hm := h.modifyFrame hr
    (fun l => { l with arrays := l.arrays.insert v ⟨e.operand.text, e.depth⟩ })
    (fun f => { f with arrays := Function.update f.arrays v (some e) })
    (fun f => ⟨rfl,rfl,rfl,rfl⟩)
    (fun l f fs _ hf => { hf with arrays := hf.arrays.insert v e.operand e.depth })
  exact { hm with arrays := h.arrays.erase v }

end Draft.Fits

theorem getElem?_foldl_insert (vars : List Identity) (F : Nat → String)
    (m : Std.TreeMap Nat String) (k : Nat) :
    (vars.foldl (fun m id => m.insert id.serial (F id.serial)) m)[k]? =
      if (vars.map (·.serial)).contains k then some (F k) else m[k]? := by
  induction vars generalizing m with
  | nil => simp
  | cons id vars ih =>
    rw [List.foldl_cons, ih, Std.TreeMap.getElem?_insert, List.map_cons, List.contains_cons]
    by_cases hk : id.serial = k
    · subst hk
      simp
    · have hb : (k == id.serial) = false := beq_false_of_ne (Ne.symm hk)
      simp [hk, hb]

theorem getElem?_foldl_erase (vars : List Identity) (m : Std.TreeMap Nat String) (k : Nat) :
    (vars.foldl (fun m id => m.erase id.serial) m)[k]? =
      if (vars.map (·.serial)).contains k then none else m[k]? := by
  induction vars generalizing m with
  | nil => simp
  | cons id vars ih =>
    rw [List.foldl_cons, ih, Std.TreeMap.getElem?_erase, List.map_cons, List.contains_cons]
    by_cases hk : id.serial = k
    · subst hk
      simp
    · have hb : (k == id.serial) = false := beq_false_of_ne (Ne.symm hk)
      simp [hk, hb]

theorem IdMap.get?_congr {α : Type} (m : IdMap α) {a b : Identity} (h : a.serial = b.serial) :
    m.get? a = m.get? b := by
  simp only [IdMap.get?, Identity.same, h]

theorem toString_toNat {n : Int} (hn : 0 ≤ n) : toString n.toNat = toString n := by
  rw [Int.toString_eq_repr, Int.repr_eq_if, if_pos hn, Nat.toString_eq_repr]

theorem Plan.Standard.column_eq {p : Plan} (hp : p.Standard) (id : Identity) :
    toString (p.column id.serial) = toString ((p.columns.get? id).getD 0) := by
  have hg : p.columns.get? (p.graph.idOf id.serial) = p.columns.get? id := IdMap.get?_congr _ rfl
  rw [Plan.column, Plan.column?, hg]
  cases hc : p.columns.get? id with
  | none => rfl
  | some n =>
    obtain ⟨e,he,rfl⟩ := Option.map_eq_some_iff.mp hc
    exact toString_toNat (hp.columns e (List.mem_of_find?_eq_some he))

theorem Sketch.index?_openLoop (σ : Sketch) (vars : List Nat) (length v : Nat) :
    (σ.openLoop vars length).index? v = if vars.contains v then some σ.indices else σ.index? v := by
  simp only [index?, openLoop, List.find?_cons]
  cases vars.contains v <;> rfl

namespace Draft.Fits

variable {p : Plan} {c : Draft} {σ : Sketch}

theorem indexed_eq (h : c.Fits p σ) (hp : p.Standard) (k : Nat) (id : Identity) :
    c.indexed p.options (Var.index k).text id = (Operand.entry (p.column id.serial) k).text := by
  rw [Draft.indexed, h.columns, ← hp.column_eq, hp.names]
  rfl

theorem withLoop (h : c.Fits p σ) (hp : p.Standard) {vars : List Identity}
    (hv : ∀ id ∈ vars, σ.index? id.serial = none) (length : Nat) :
    (c.withLoop p.options vars length).Fits p (σ.openLoop (vars.map (·.serial)) length) := by
  have hname : numbered p.options.loopStem c.loopCount = (Var.index σ.indices).text := by
    rw [hp.names, h.indices]
    rfl
  have hloops : ∀ i ∈ c.stack.reverse, ∀ l, (c.loops ++ [l])[i]? = c.loops[i]? := fun i hi l =>
    List.getElem?_append_left (h.stack.lt_length i hi)
  rw [Draft.withLoop, hname]
  exact
    { columns := h.columns
      results := h.results
      arrays := h.arrays
      bindings := by
        intro k
        simp only [h.indexed_eq hp]
        rw [getElem?_foldl_insert vars fun k => (Operand.entry (p.column k) σ.indices).text,
          h.bindings]
        rw [Sketch.binding, Sketch.binding, Sketch.index?_openLoop]
        split
        · rfl
        · rfl
      stack := by
        rw [List.reverse_append]
        refine .cons (l := ⟨vars, (Var.index σ.indices).text, c.depth + 1, length, c.body.length, [],
          ∅, ∅, false⟩) (by simp) ?_ (fun hm => ?_) ?_ (h.stack.congr fun i hi => hloops i hi _)
        · exact
            { vars := rfl
              index := rfl
              depth := by rw [h.depth_eq]; rfl
              start := by rw [h.body]
              queued := by simp
              results := .empty
              arrays := .empty
              closed := rfl }
        · exact absurd (h.stack.lt_length _ hm) (Nat.lt_irrefl _)
        · intro v hvm g hg hgv
          obtain ⟨id,hid,rfl⟩ := List.mem_map.mp hvm
          have hnone := hv id hid
          rw [Sketch.index?, Option.map_eq_none_iff, List.find?_eq_none] at hnone
          exact hnone g hg (by simpa using hgv)
      body := by
        have hd : c.depth = σ.frames.length := h.depth_eq
        have hl := Item.ofSnippet_loop σ.indices length σ.frames.length
        rw [Item.loopText] at hl
        simp only [Listing.append, hd, hl, h.body, Sketch.openLoop, Frame.lines, Item.linesAll_nil,
          Item.loopText]
      temps := h.temps
      arrayNames := h.arrayNames
      indices := by rw [h.indices]; rfl
      taken := by
        intro n hn
        rcases List.mem_cons.mp hn with rfl | hn
        · exact ⟨_,rfl,Nat.lt_succ_self _⟩
        · obtain ⟨x,rfl,hx⟩ := h.taken n hn
          refine ⟨x,rfl,Nat.lt_of_lt_of_le hx ?_⟩
          cases x with
          | temp k => exact Nat.le_refl _
          | array k => exact Nat.le_refl _
          | index k => exact Nat.le_succ _
      depths := by
        rw [h.depth_eq]
        exact h.depths_bind _ _
      others := fun n hn => h.others_bind _ _ hn
      preamble := h.preamble }

end Draft.Fits

namespace Plan

open Emit

variable {p : Plan} {c c' : Draft} {σ : Sketch}

/-- A loop is opened over the unbound inputs of a reducer, which agree on their size. -/
theorem fits_openLoop (hp : p.Standard) (hc : c.Fits p σ) {v k : Nat}
    (h : Gives (p.openLoop (.object v)) c k c') :
    ∃ inputs length, p.inputs v = .ok inputs ∧
      ((loopVars σ inputs).map p.sizes.size).eraseDups = [length] ∧
      k = c.loops.length ∧ c' = c.withLoop p.options (loopVars σ inputs) length ∧
      c'.Fits p (σ.openLoop ((loopVars σ inputs).map (·.serial)) length) := by
  simp only [Setting.openLoop, gives_get_bind, gives_ofExcept_bind, hc.inputs_eq] at h
  obtain ⟨inputs,hi,h⟩ := h
  have hvars : (inputs.filter fun id => !c.bindings.contains id.serial) = loopVars σ inputs := by
    refine List.filter_congr fun id _ => ?_
    rw [hc.contains_bindings]
    cases σ.index? id.serial <;> rfl
  rw [hvars] at h
  split at h
  · simp [gives_bind] at h
  · rename_i length hl
    simp only [gives_set_bind, gives_pure] at h
    obtain ⟨rfl,rfl⟩ := h
    refine ⟨inputs,length,hi,hl,rfl,rfl,hc.withLoop hp (fun id hid => ?_) length⟩
    exact Option.isNone_iff_eq_none.mp (List.mem_filter.mp hid).2
  · simp [gives_bind] at h

end Plan

theorem Sketch.closeLoop_eq {σ : Sketch} {f : Frame} {fs : List Frame} (hf : σ.frames = f :: fs) :
    σ.closeLoop = { σ with
      frames := fs
      current := f.before ++ f.queued ++ [.loop f.index f.length σ.current]
      results := f.results.orElse (σ.results.below σ.depth)
      arrays := f.arrays.orElse (σ.arrays.below σ.depth) } := by
  rw [closeLoop, hf]

namespace Draft.Fits

variable {p : Plan} {c : Draft} {σ : Sketch}

theorem exists_innermost (h : c.Fits p σ) {f : Frame} {fs : List Frame}
    (hf : σ.frames = f :: fs) : ∃ k l hs, c.stack.reverse = k :: hs ∧ c.loops[k]? = some l ∧
      l.Fits f fs ∧ k ∉ hs ∧ (∀ v ∈ f.vars, ∀ g ∈ fs, v ∉ g.vars) ∧ Stacked c.loops hs fs := by
  have hs := h.stack
  rw [hf] at hs
  generalize hr : c.stack.reverse = ks at hs
  cases hs with
  | cons hl hf hn hd ht => exact ⟨_,_,_,rfl,hl,hf,hn,hd,ht⟩

/-- Closing the innermost loop, given its lines with what was queued in front of it. -/
theorem withoutLoop (h : c.Fits p σ) {f : Frame} {fs : List Frame} (hf : σ.frames = f :: fs)
    {k : Nat} {l : Loop} {hs : List Nat} (hk : c.stack.reverse = k :: hs)
    (hl : c.loops[k]? = some l) :
    ({ c with body := Frame.lines fs σ.closeLoop.current }.withoutLoop k l).Fits p σ.closeLoop := by
  obtain ⟨k',l',hs',hk',hl',hfit,hn,hd,ht⟩ := h.exists_innermost hf
  rw [hk] at hk'
  cases hk'
  rw [hl] at hl'
  cases hl'
  have hdepth : l.depth = σ.depth := by rw [hfit.depth, Sketch.depth, hf]; rfl
  rw [Sketch.closeLoop_eq hf]
  exact
    { columns := h.columns
      results := by
        rw [Draft.withoutLoop, ← hdepth]
        exact hfit.results.orElse (h.results.below _)
      arrays := by
        rw [Draft.withoutLoop, ← hdepth]
        exact hfit.arrays.orElse (h.arrays.below _)
      bindings := by
        intro v
        have hb : c.bindings[v]? = (σ.binding p v).map Operand.text := h.bindings v
        rw [Sketch.binding, Sketch.index?, hf, List.find?_cons] at hb
        simp only [Draft.withoutLoop, Draft.modifyLoop, Sketch.binding, Sketch.index?,
          getElem?_foldl_erase, hfit.vars, hb]
        cases hv : f.vars.contains v with
        | false => rfl
        | true =>
          have hnone : (fs.find? fun g => g.vars.contains v) = none := by
            refine List.find?_eq_none.mpr fun g hg hgv => ?_
            exact hd v (by simpa using hv) g hg (by simpa using hgv)
          rw [if_pos rfl, hnone]
          rfl
      stack := by
        have hst : c.stack.dropLast.reverse = hs := by
          rw [← List.tail_reverse, hk]
          rfl
        simp only [Draft.withoutLoop, Draft.modifyLoop, hst]
        refine ht.congr fun i hi => ?_
        have hne : k ≠ i := fun he => hn (he ▸ hi)
        simp [hne]
      body := rfl
      temps := h.temps
      arrayNames := h.arrayNames
      indices := h.indices
      taken := h.taken
      depths := h.depths
      others := h.others
      preamble := h.preamble }

end Draft.Fits

namespace Draft.Fits

open Emit

variable {p : Plan} {c c' : Draft} {σ : Sketch}

theorem lines_closeLoop {f : Frame} {fs : List Frame} (hf : σ.frames = f :: fs) :
    Frame.lines fs σ.closeLoop.current = Frame.lines fs f.before ++ Item.linesAll fs.length f.queued ++
      Item.lineOf fs.length (Item.loopText f.index f.length) ::
        Item.linesAll (fs.length + 1) σ.current := by
  rw [Sketch.closeLoop_eq hf]
  simp [Frame.lines_append, Item.linesAll_append, Item.lines]

theorem closeLoop (h : c.Fits p σ) {f : Frame} {fs : List Frame} (hf : σ.frames = f :: fs)
    (hcur : σ.current ≠ []) {k : Nat} {hs : List Nat} (hk : c.stack.reverse = k :: hs) {u : PUnit}
    (hg : Gives (FitCode.closeLoop k) c u c') : ∃ l, c.loops[k]? = some l ∧
      c' = { c with body := Frame.lines fs σ.closeLoop.current }.withoutLoop k l ∧
      c'.Fits p σ.closeLoop := by
  obtain ⟨k',l,hs',hk',hl,hfit,_,_,_⟩ := h.exists_innermost hf
  rw [hk] at hk'
  cases hk'
  have hbody : c.body = Frame.lines fs f.before ++
      Item.lineOf fs.length (Item.loopText f.index f.length) ::
        Item.linesAll (fs.length + 1) σ.current := by
    rw [h.body, hf]
    rfl
  have hlast : c.stack.getLast? = some k := by
    rw [← List.head?_reverse, hk]
    rfl
  have hafter : (c.body.after (l.start + 1)).isEmpty = false := by
    have hpos : (0 : Int) ≤ l.start + 1 := by omega
    have hnat : ((l.start : Int) + 1).toNat = (Frame.lines fs f.before).length + 1 := by
      rw [hfit.start]
      omega
    rw [Listing.after, if_pos hpos, hbody, hnat, List.drop_length_add_append, List.drop_one,
      List.tail_cons, List.isEmpty_eq_false_iff]
    exact Item.linesAll_ne_nil hcur _
  simp only [FitCode.closeLoop, gives_get_bind, Draft.loop?, hl, hfit.closed, hlast, hafter,
    Bool.false_eq_true, if_false, bne_self_eq_false] at hg
  have hc' : c' = { c with body := Frame.lines fs σ.closeLoop.current }.withoutLoop k l := by
    rw [lines_closeLoop hf]
    cases hq : l.queued.isEmpty with
    | true =>
      have hnil : Item.linesAll fs.length f.queued = [] := by
        rw [← hfit.queued]
        exact List.isEmpty_iff.mp hq
      simp only [hq, Bool.not_true, Bool.false_eq_true, if_false, gives_modify] at hg
      rw [hg, hnil, List.append_nil, ← hbody]
    | false =>
      simp only [hq, Bool.not_false, if_true, gives_get_bind, gives_ofExcept_bind,
        gives_modify_bind, gives_modify] at hg
      obtain ⟨body,hb,rfl⟩ := hg
      have hpos : (0 ≤ (l.start : Int) && (l.start : Int) ≤ c.body.length) = true := by
        have hle : l.start ≤ c.body.length := by
          rw [hbody, hfit.start, List.length_append]
          exact Nat.le_add_right _ _
        simp [hle]
      rw [Listing.insert, if_pos hpos] at hb
      cases hb
      rw [hbody, hfit.start, hfit.queued]
      simp
  exact ⟨l,hl,hc',hc' ▸ h.withoutLoop hf hk hl⟩

theorem leaveLoop {k : Nat} {l : Loop} (hl : c.loops[k]? = some l) (hopen : l.closed = false)
    {u : PUnit} (hg : Gives (FitCode.leaveLoop k) c u c') : Gives (FitCode.closeLoop k) c u c' := by
  simp only [FitCode.leaveLoop, gives_get_bind, Draft.loop?, hl, hopen, Bool.not_false,
    if_true] at hg
  exact hg

theorem atTop (h : c.Fits p σ) : c.atTop.Fits p σ.atTop :=
  { h with
    results := h.results.below 1
    arrays := h.arrays.below 1
    bindings := fun _ => by simp [Draft.atTop, Sketch.binding, Sketch.index?, Sketch.atTop]
    stack := .nil
    body := rfl }

theorem adopt (h : c.Fits p σ) {inner : Draft} {σ' : Sketch} (hi : inner.Fits p σ')
    (hs : c.atTop.Stays inner) (hpos : 0 < σ.depth) :
    ((inner.backTo c).adopt inner).Fits p (σ.adopt σ') ∧ c.Stays ((inner.backTo c).adopt inner) := by
  have hframes : σ'.frames = [] := by
    have hl := hi.depth_eq
    rw [Draft.depth, hs.stack] at hl
    exact List.eq_nil_of_length_eq_zero hl.symm
  have hback : (inner.backTo c).Fits p { σ' with
      frames := σ.frames
      current := σ.current
      results := σ.results
      arrays := σ.arrays } :=
    { hi with
      results := h.results
      arrays := h.arrays
      bindings := h.bindings
      stack := h.stack.congr fun i hm =>
        hs.loops i (h.stack.lt_length i hm) (by simp [Draft.atTop])
      body := h.body }
  have hbody : inner.body = Item.linesAll 0 σ'.current := by
    rw [hi.body, hframes]
    rfl
  have hq := hback.queueAt hpos σ'.current
  rw [← hbody] at hq
  constructor
  · exact { hq with
      results := h.results.orElse hi.results
      arrays := h.arrays.orElse hi.arrays }
  · have hb : c.Stays (inner.backTo c) :=
      ⟨rfl,hs.length,fun i hlt _ => hs.loops i hlt (by simp [Draft.atTop])⟩
    refine (hb.trans (.queueAt _ 0 inner.body)).trans ?_
    exact .of_eq rfl rfl

theorem running (h : c.Fits p σ) (ids : List Identity) : Draft.Fits p { c with running := ids } σ :=
  { h with }

end Draft.Fits

end FitCode
