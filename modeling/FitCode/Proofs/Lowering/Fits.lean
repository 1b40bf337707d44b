import FitCode.Lowering.Node
import FitCode.Proofs.Code.Lines
import FitCode.Proofs.Lowering.Cache
import FitCode.Proofs.Lowering.Sketch

/-! # Drafts that fit a sketch

A draft fits a sketch if its caches hold the texts of the sketch's operands, its open loops match the
frames, its body is the code of the blocks that the frames leave open, and its names are the
introduced ones.
-/
namespace FitCode

open Text

namespace Cache

/-- The cache holds the texts of the held operands. -/
def Fits (m : Cache) (h : Holding) : Prop :=
  ∀ k : Nat, m[k]? = (h k).map fun e => (⟨e.operand.text, e.depth⟩ : Entry)

variable {m m' : Cache} {h h' : Holding}

theorem Fits.empty : Fits ∅ fun _ => none := by
  intro k
  simp

theorem Fits.insert (hm : Fits m h) (k : Nat) (x : Operand) (d : Nat) :
    Fits (m.insert k ⟨x.text, d⟩) (Function.update h k (some ⟨x, d⟩)) := by
  intro l
  rw [getElem?_insert]
  by_cases hk : k = l
  · subst hk
    simp
  · rw [if_neg hk, Function.update_of_ne (Ne.symm hk), hm l]

theorem Fits.erase (hm : Fits m h) (k : Nat) : Fits (m.erase k) (Function.update h k none) := by
  intro l
  rw [getElem?_erase]
  by_cases hk : k = l
  · subst hk
    simp
  · rw [if_neg hk, Function.update_of_ne (Ne.symm hk), hm l]

theorem Fits.below (hm : Fits m h) (d : Nat) : Fits (m.below d) (h.below d) := by
  intro k
  rw [getElem?_below, hm k, Holding.below]
  cases h k with
  | none => rfl
  | some e =>
    by_cases he : e.depth < d
    · simp [Option.filter, he]
    · simp [Option.filter, he]

theorem Fits.orElse (hm : Fits m h) (hm' : Fits m' h') : Fits (m.orElse m') (h.orElse h') := by
  intro k
  rw [getElem?_orElse, hm k, hm' k, Holding.orElse]
  cases h k <;> simp

end Cache

namespace Frame

/-- The lines of the blocks that the frames leave open, `is` being the code of the innermost. -/
def lines : List Frame → List Item → List Line
  | [], is => Item.linesAll 0 is
  | f :: fs, is =>
    lines fs f.before ++ Item.lineOf fs.length (Item.loopText f.index f.length) ::
      Item.linesAll (fs.length + 1) is

/-- A change to what a frame holds back; the loop stays. -/
structure Keeps (f g : Frame) : Prop where
  vars : g.vars = f.vars
  index : g.index = f.index
  length : g.length = f.length
  before : g.before = f.before

end Frame

/-- A loop matches a frame, `fs` being the frames around it. -/
structure Loop.Fits (l : Loop) (f : Frame) (fs : List Frame) : Prop where
  vars : l.vars.map (·.serial) = f.vars
  index : l.index = (Var.index f.index).text
  depth : l.depth = fs.length + 1
  start : l.start = (Frame.lines fs f.before).length
  queued : l.queued = Item.linesAll fs.length f.queued
  results : l.results.Fits f.results
  arrays : l.arrays.Fits f.arrays
  closed : l.closed = false

/-- The loops at some positions match the frames, innermost first. -/
inductive Stacked (loops : List Loop) : List Nat → List Frame → Prop
  | nil : Stacked loops [] []
  | cons {h l hs f fs} (hl : loops[h]? = some l) (hf : l.Fits f fs) (hn : h ∉ hs)
      (hd : ∀ v ∈ f.vars, ∀ g ∈ fs, v ∉ g.vars) (ht : Stacked loops hs fs) :
      Stacked loops (h :: hs) (f :: fs)

theorem Frame.lines_append (fs : List Frame) (is js : List Item) :
    lines fs (is ++ js) = lines fs is ++ Item.linesAll fs.length js := by
  cases fs with
  | nil => exact Item.linesAll_append 0 is js
  | cons f fs => simp [lines, Item.linesAll_append]

theorem Frame.lines_modify (fs : List Frame) (i : Nat) {g : Frame → Frame}
    (hg : ∀ f, Keeps f (g f)) (is : List Item) : lines (fs.modify i g) is = lines fs is := by
  induction fs generalizing i is with
  | nil => simp
  | cons f fs ih =>
    cases i with
    | zero => simp [lines, (hg f).index, (hg f).length, (hg f).before]
    | succ i => simp [lines, ih]

namespace Stacked

variable {loops loops' : List Loop} {hs : List Nat} {fs : List Frame}

theorem length_eq (h : Stacked loops hs fs) : hs.length = fs.length := by
  induction h with
  | nil => rfl
  | cons _ _ _ _ _ ih => simp [ih]

theorem lt_length (h : Stacked loops hs fs) : ∀ i ∈ hs, i < loops.length := by
  induction h with
  | nil => simp
  | cons hl _ _ _ _ ih =>
    intro i hi
    rcases List.mem_cons.mp hi with rfl | hi
    · exact (List.getElem?_eq_some_iff.mp hl).1
    · exact ih i hi

theorem congr (h : Stacked loops hs fs) (he : ∀ i ∈ hs, loops'[i]? = loops[i]?) :
    Stacked loops' hs fs := by
  induction h with
  | nil => exact .nil
  | cons hl hf hn hd _ ih =>
    exact .cons ((he _ (by simp)).trans hl) hf hn hd (ih fun i hi => he i (by simp [hi]))

theorem mem_modify {i : Nat} {g : Frame → Frame} (hg : ∀ f, Frame.Keeps f (g f)) {f : Frame}
    (hf : f ∈ fs.modify i g) : ∃ f' ∈ fs, f.vars = f'.vars := by
  induction fs generalizing i with
  | nil => simp at hf
  | cons f' fs ih =>
    cases i with
    | zero =>
      rcases List.mem_cons.mp hf with rfl | hf
      · exact ⟨f',by simp,(hg f').vars⟩
      · exact ⟨f,by simp [hf],rfl⟩
    | succ i =>
      rcases List.mem_cons.mp hf with rfl | hf
      · exact ⟨f,by simp,rfl⟩
      · obtain ⟨f'',hm,hv⟩ := ih hf
        exact ⟨f'',by simp [hm],hv⟩

end Stacked

theorem Loop.Fits.modify {l : Loop} {f : Frame} {fs : List Frame} (h : l.Fits f fs) (i : Nat)
    {g : Frame → Frame} (hg : ∀ f, Frame.Keeps f (g f)) : l.Fits f (fs.modify i g) where
  vars := h.vars
  index := h.index
  depth := by rw [h.depth, List.length_modify]
  start := by rw [h.start, Frame.lines_modify fs i hg]
  queued := by rw [h.queued, List.length_modify]
  results := h.results
  arrays := h.arrays
  closed := h.closed

theorem Stacked.modify {loops : List Loop} {hs : List Nat} {fs : List Frame}
    (h : Stacked loops hs fs) {i k : Nat} (hk : hs[i]? = some k) {gl : Loop → Loop}
    {g : Frame → Frame} (hg : ∀ f, Frame.Keeps f (g f))
    (hl : ∀ l f fs', fs'.length + i + 1 = fs.length → Loop.Fits l f fs' →
      Loop.Fits (gl l) (g f) fs') : Stacked (loops.modify k gl) hs (fs.modify i g) := by
  induction h generalizing i with
  | nil => simp at hk
  | @cons h l hs f fs hget hf hn hd ht ih =>
    cases i with
    | zero =>
      simp only [List.getElem?_cons_zero, Option.some.injEq] at hk
      subst hk
      refine .cons (l := gl l) (by simp [hget]) (hl l f fs (by simp) hf) hn ?_
        (ht.congr fun j hj => ?_)
      · rw [(hg f).vars]
        exact hd
      · have hne : h ≠ j := fun he => hn (he ▸ hj)
        simp [hne]
    | succ i =>
      rw [List.getElem?_cons_succ] at hk
      have hne : k ≠ h := fun he => hn (he ▸ List.mem_of_getElem? hk)
      refine .cons (l := l) (by simp [hne, hget]) (hf.modify i hg) hn ?_
        (ih hk fun l f fs' he => hl l f fs' (by simp; omega))
      intro v hv g' hg' hmem
      obtain ⟨f',hf',hvars⟩ := mem_modify hg hg'
      exact hd v hv f' hf' (hvars ▸ hmem)

theorem Frame.find_modify (fs : List Frame) (i : Nat) {g : Frame → Frame}
    (hg : ∀ f, Keeps f (g f)) (v : Nat) :
    ((fs.modify i g).find? fun f => f.vars.contains v).map (·.index) =
      (fs.find? fun f => f.vars.contains v).map (·.index) := by
  induction fs generalizing i with
  | nil => simp
  | cons f fs ih =>
    cases i with
    | zero =>
      simp only [List.modify_zero_cons, List.find?_cons, (hg f).vars]
      split
      · simp [(hg f).index]
      · rfl
    | succ i =>
      simp only [List.modify_succ_cons, List.find?_cons]
      split
      · rfl
      · exact ih i

structure Draft.Fits (p : Plan) (c : Draft) (σ : Sketch) : Prop where
  columns : c.columns = p.columns
  results : c.results.Fits σ.results
  arrays : c.arrays.Fits σ.arrays
  bindings : ∀ k : Nat, c.bindings[k]? = (σ.binding p k).map Operand.text
  stack : Stacked c.loops c.stack.reverse σ.frames
  body : c.body = Frame.lines σ.frames σ.current
  temps : c.tempCount = σ.temps
  arrayNames : c.arrayCount = σ.arrayNames
  indices : c.loopCount = σ.indices
  taken : ∀ n ∈ c.taken, ∃ x : Var, n = x.text ∧ x.number < σ.taken x
  depths : ∀ x : Var, c.bindingDepth x.text = σ.depths x
  others : ∀ n, (∀ x : Var, n ≠ x.text) → c.bindingDepth n = 0
  preamble : c.preamble = ""

end FitCode
