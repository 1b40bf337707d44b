import FitCode.Proofs.Lowering.Fits
import FitCode.Proofs.Lowering.Gives
import Mathlib.Order.Basic

/-! # Steps of a draft and of its sketch

Each operation on a draft that the lowering of built-in nodes uses has its counterpart on sketches,
and fitting is kept.
-/
namespace FitCode

open Text

namespace Draft.Fits

variable {p : Plan} {c : Draft} {σ : Sketch}

theorem depth_eq (h : c.Fits p σ) : c.depth = σ.depth := by
  have hl := h.stack.length_eq
  rwa [List.length_reverse] at hl

theorem bindingDepth_cons (c : Draft) (n m : String) (d : Nat) :
    { c with bindingDepths := (n, d) :: c.bindingDepths }.bindingDepth m =
      if m = n then d else c.bindingDepth m := by
  simp only [Draft.bindingDepth, List.lookup_cons]
  by_cases hm : m = n
  · subst hm
    simp
  · have hb : (m == n) = false := beq_false_of_ne hm
    simp [hb, hm]

theorem freeNumber_eq {stem : String} {k : Nat} (hk : numbered stem k ∉ c.taken) :
    c.freeNumber stem k = k := by
  simp [Draft.freeNumber, firstFree, hk]

theorem temp_not_taken (h : c.Fits p σ) : (Var.temp σ.temps).text ∉ c.taken := by
  intro hm
  obtain ⟨x,hx,hn⟩ := h.taken _ hm
  cases Var.text_injective hx
  exact absurd hn (Nat.lt_irrefl _)

theorem array_not_taken (h : c.Fits p σ) : (Var.array σ.arrayNames).text ∉ c.taken := by
  intro hm
  obtain ⟨x,hx,hn⟩ := h.taken _ hm
  cases Var.text_injective hx
  exact absurd hn (Nat.lt_irrefl _)

theorem depths_bind (h : c.Fits p σ) (x : Var) (d : Nat) (y : Var) :
    { c with bindingDepths := (x.text, d) :: c.bindingDepths }.bindingDepth y.text =
      Function.update σ.depths x d y := by
  rw [bindingDepth_cons]
  by_cases hy : y = x
  · subst hy
    simp
  · rw [if_neg (by simpa using hy), Function.update_of_ne hy, h.depths]

theorem others_bind (h : c.Fits p σ) (x : Var) (d : Nat) {n : String} (hn : ∀ x : Var, n ≠ x.text) :
    { c with bindingDepths := (x.text, d) :: c.bindingDepths }.bindingDepth n = 0 := by
  rw [bindingDepth_cons, if_neg (hn x), h.others n hn]

theorem freshTemp (h : c.Fits p σ) {o : Options} (ho : o.tempStem = "t") :
    (c.freshTemp o).1 = (Var.temp σ.temps).text ∧ (c.freshTemp o).2.Fits p σ.takeTemp := by
  have hfree : c.freeNumber "t" c.tempCount = σ.temps := by
    rw [h.temps]
    exact freeNumber_eq h.temp_not_taken
  have hname : (c.freshTemp o).1 = (Var.temp σ.temps).text := by
    simp only [Draft.freshTemp, ho, hfree]
    rfl
  refine ⟨hname,?_⟩
  have hc : (c.freshTemp o).2 = { c with
      tempCount := σ.temps + 1
      taken := (Var.temp σ.temps).text :: c.taken
      bindingDepths := ((Var.temp σ.temps).text, σ.depth) :: c.bindingDepths } := by
    simp only [Draft.freshTemp, ho, hfree, h.depth_eq]
    rfl
  rw [hc]
  exact
    { columns := h.columns
      results := h.results
      arrays := h.arrays
      bindings := h.bindings
      stack := h.stack
      body := h.body
      temps := rfl
      arrayNames := h.arrayNames
      indices := h.indices
      taken := by
        intro n hn
        rcases List.mem_cons.mp hn with rfl | hn
        · exact ⟨_,rfl,Nat.lt_succ_self _⟩
        · obtain ⟨x,rfl,hx⟩ := h.taken n hn
          refine ⟨x,rfl,Nat.lt_of_lt_of_le hx ?_⟩
          cases x with
          | temp k => exact Nat.le_succ _
          | array k => exact Nat.le_refl _
          | index k => exact Nat.le_refl _
      depths := h.depths_bind _ _
      others := fun n hn => h.others_bind _ _ hn
      preamble := h.preamble }

theorem stack_getElem? (h : c.Fits p σ) {d : Nat} (hd : d < σ.depth) :
    ∃ k, c.stack[d]? = some k ∧ c.stack.reverse[σ.depth - (d + 1)]? = some k := by
  have hlen : c.stack.length = σ.depth := h.depth_eq
  refine ⟨c.stack[d],List.getElem?_eq_getElem (by omega),?_⟩
  rw [List.getElem?_reverse (by omega), List.getElem?_eq_some_iff]
  exact ⟨by omega,by congr 1; omega⟩

/-- Changing an open loop and its frame alike keeps everything else. -/
theorem modifyFrame (h : c.Fits p σ) {d k : Nat}
    (hk : c.stack.reverse[σ.depth - d]? = some k) (gl : Loop → Loop) (g : Frame → Frame)
    (hg : ∀ f, Frame.Keeps f (g f))
    (hl : ∀ l f fs, fs.length + (σ.depth - d) + 1 = σ.depth → Loop.Fits l f fs →
      Loop.Fits (gl l) (g f) fs) : (c.modifyLoop k gl).Fits p (σ.modifyFrame d g) where
  columns := h.columns
  results := h.results
  arrays := h.arrays
  bindings := by
    intro v
    rw [Sketch.binding, Sketch.index?, Sketch.modifyFrame, Frame.find_modify _ _ hg]
    exact h.bindings v
  stack := h.stack.modify hk hg hl
  body := by rw [Sketch.modifyFrame, Frame.lines_modify _ _ hg]; exact h.body
  temps := h.temps
  arrayNames := h.arrayNames
  indices := h.indices
  taken := h.taken
  depths := h.depths
  others := h.others
  preamble := h.preamble

theorem queueAt (h : c.Fits p σ) {d : Nat} (hd : d < σ.depth) (is : List Item) :
    (c.queueAt d (Item.linesAll d is)).Fits p (σ.queue d is) := by
  obtain ⟨k,hk,hr⟩ := h.stack_getElem? hd
  rw [Draft.queueAt, hk]
  refine h.modifyFrame hr _ _ (fun f => ⟨rfl,rfl,rfl,rfl⟩) fun l f fs hlen hf => ?_
  exact
    { hf with
      queued := by
        have hfs : fs.length = d := by omega
        simp only [hf.queued, Item.linesAll_append, hfs] }

theorem write (h : c.Fits p σ) (i : Item) :
    { c with body := c.body ++ Item.lines σ.depth i }.Fits p (σ.write i) :=
  { h with
    body := by
      simp only [Sketch.write, Frame.lines_append, h.body, Item.linesAll_cons, Item.linesAll_nil,
        List.append_nil]
      rfl }

theorem note (h : c.Fits p σ) {x : Var} (hx : x.number < σ.taken x) (d : Nat) :
    { c with
      taken := x.text :: c.taken
      bindingDepths := (x.text, d) :: c.bindingDepths }.Fits p (σ.note x d) :=
  { h with
    taken := by
      intro n hn
      rcases List.mem_cons.mp hn with rfl | hn
      · exact ⟨x,rfl,hx⟩
      · exact h.taken n hn
    depths := h.depths_bind x d
    others := fun n hn => h.others_bind x d hn }

theorem place (h : c.Fits p σ) {d : Nat} (hd : d ≤ σ.depth) (i : Item) :
    (if d = c.depth then { c with body := c.body ++ Item.lines d i }
      else c.queueAt d (Item.lines d i)).Fits p (σ.place d i) := by
  rw [h.depth_eq, Sketch.place]
  by_cases heq : d = σ.depth
  · rw [if_pos heq, if_pos heq, heq]
    exact h.write i
  · rw [if_neg heq, if_neg heq]
    have hq := h.queueAt (Nat.lt_of_le_of_ne hd heq) [i]
    simpa using hq

theorem depthOf_eq (h : c.Fits p σ) {text : String} {xs : List Var}
    (hx : ∀ x : Var, x.text ∈ namesIn text.toList ↔ x ∈ xs) : c.depthOf text = σ.depthOf xs := by
  rw [Draft.depthOf, Sketch.depthOf, h.depth_eq]
  congr 1
  refine eq_of_forall_ge_iff fun k => ?_
  rw [foldl_max_le_iff, foldl_max_le_iff, names_eq]
  refine and_congr_right fun _ => ⟨fun hn x hm => ?_,fun hm n hn => ?_⟩
  · rw [← h.depths]
    exact hn x.text ((hx x).mpr hm)
  · by_cases hv : ∃ x : Var, n = x.text
    · obtain ⟨x,rfl⟩ := hv
      rw [h.depths]
      exact hm x ((hx x).mp hn)
    · rw [h.others n fun x he => hv ⟨x,he⟩]
      exact Nat.zero_le k

theorem introduce (h : c.Fits p σ) {x : Var} {e : Compound} (he : e.Proper)
    (hx : x.number < σ.taken x) :
    (c.introduce p.options x.text (x.text ++ " = " ++ e.text) (c.depthOf e.text)).Fits p
      (σ.introduce p x e) := by
  have hdepth : (if p.options.hoist then c.depthOf e.text else c.depth) = σ.home p e.vars := by
    rw [h.depth_eq, h.depthOf_eq (e.mem_namesIn_text he), Sketch.home]
  have hle : σ.home p e.vars ≤ (σ.note x (σ.home p e.vars)).depth := by
    change σ.home p e.vars ≤ σ.depth
    rw [Sketch.home, Sketch.depthOf]
    split <;> omega
  simp only [Draft.introduce, hdepth, Item.ofSnippet_assign x he]
  exact (h.note hx _).place hle (.assign x e)

theorem bindFresh (h : c.Fits p σ) (hp : p.Standard) {e : Compound} (he : e.Proper) :
    (c.bindFresh p.options e.text).1 = (Var.temp σ.temps).text ∧
      (c.bindFresh p.options e.text).2.Fits p (σ.bindTemp p e) := by
  obtain ⟨hname,hfit⟩ := h.freshTemp (o := p.options) (by rw [hp.names])
  refine ⟨hname,?_⟩
  have hi := hfit.introduce (x := .temp σ.temps) he (Nat.lt_succ_self _)
  rw [← hname] at hi
  exact hi

theorem register (h : c.Fits p σ) (v : Nat) (x : Operand) :
    { c with results := c.results.insert v ⟨x.text, c.depthOf x.text⟩ }.Fits p
      (σ.register v x) := by
  rw [h.depthOf_eq fun y => x.mem_namesIn_text y]
  exact { h with results := h.results.insert v x _ }

theorem results_none (h : c.Fits p σ) {v : Nat} (hv : c.results[v]? = none) :
    σ.results v = none := by
  rw [h.results v] at hv
  cases hr : σ.results v with
  | none => rfl
  | some e => simp [hr] at hv

theorem results_some (h : c.Fits p σ) {v : Nat} {e : Entry} (hv : c.results[v]? = some e) :
    ∃ e', σ.results v = some e' ∧ e = ⟨e'.operand.text, e'.depth⟩ := by
  rw [h.results v] at hv
  obtain ⟨e',he,rfl⟩ := Option.map_eq_some_iff.mp hv
  exact ⟨e',he,rfl⟩

theorem arrays_none (h : c.Fits p σ) {v : Nat} (hv : c.arrays[v]? = none) : σ.arrays v = none := by
  rw [h.arrays v] at hv
  cases hr : σ.arrays v with
  | none => rfl
  | some e => simp [hr] at hv

theorem arrays_some (h : c.Fits p σ) {v : Nat} {e : Entry} (hv : c.arrays[v]? = some e) :
    ∃ e', σ.arrays v = some e' ∧ e = ⟨e'.operand.text, e'.depth⟩ := by
  rw [h.arrays v] at hv
  obtain ⟨e',he,rfl⟩ := Option.map_eq_some_iff.mp hv
  exact ⟨e',he,rfl⟩

end Draft.Fits

namespace Setting

open Emit

variable {s : Setting} {c c' : Draft}

theorem gives_register {d : Datum} {expr t : String}
    (h : Gives (s.register d expr false) c t c') :
    ∃ id, s.graph.identityOf d = .ok id ∧ c.results[id.serial]? = none ∧ t = expr ∧
      c' = { c with results := c.results.insert id.serial ⟨expr, c.depthOf expr⟩ } := by
  simp only [register, identityOf, gives_ofExcept_bind, gives_get_bind] at h
  obtain ⟨id,hid,h⟩ := h
  cases hr : c.results[id.serial]? with
  | some e => simp [hr] at h
  | none =>
    simp only [hr, Bool.false_eq_true, if_false, gives_pure_bind, gives_modify_bind,
      gives_pure] at h
    exact ⟨id,hid,hr,h.1,h.2⟩

theorem gives_register_saved {d : Datum} {expr t : String}
    (h : Gives (s.register d expr true) c t c') :
    ∃ id, s.graph.identityOf d = .ok id ∧ c.results[id.serial]? = none ∧
      t = (c.bindFresh s.options expr).1 ∧
      c' = { (c.bindFresh s.options expr).2 with
        results := (c.bindFresh s.options expr).2.results.insert id.serial
          ⟨t, (c.bindFresh s.options expr).2.depthOf t⟩ } := by
  simp only [register, identityOf, gives_ofExcept_bind, gives_get_bind] at h
  obtain ⟨id,hid,h⟩ := h
  cases hr : c.results[id.serial]? with
  | some e => simp [hr] at h
  | none =>
    simp only [hr, if_true, bindTemp, explicitName, Option.filter_none,
      bind_assoc, gives_get_bind, gives_set_bind, gives_pure_bind, gives_modify_bind,
      gives_pure] at h
    obtain ⟨rfl,rfl⟩ := h
    exact ⟨id,hid,hr,rfl,rfl⟩

end Setting

end FitCode
