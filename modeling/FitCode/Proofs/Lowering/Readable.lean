import FitCode.Proofs.Code.Source
import FitCode.Proofs.Lowering.Bindings
import FitCode.Proofs.Lowering.Fits

/-! # Code of pointwise graphs

Lowering a graph without reducers only binds names, and in a graph whose templates are arithmetic and
whose numbers are not too long all expressions can be read back.
-/
namespace FitCode

open Text

/-- Nodes that are computed entry by entry, and collections. -/
def Kind.isPointwise : Kind → Bool
  | entrySum _ => false
  | negLogLikelihood _ => false
  | custom .. => false
  | script .. => false
  | identity => false
  | _ => true

/-- Graphs of pointwise nodes with arithmetic templates and polynomials of orders that can be read. -/
structure Graph.Pointwise (g : Graph) : Prop where
  kinds : ∀ v < g.size, (g.kind v).isPointwise = true
  templates : ∀ v template args, g.kind v = .formula template args →
    ∀ o, outline? template = some o → o.IsArithmetic
  orders : ∀ v x cs n, g.kind v = .polynomial x cs n → n.natAbs < 10 ^ Decimal.maxDigits

theorem Graph.Pointwise.reduced? {g : Graph} (hg : g.Pointwise) (v : Nat) : (g.kind v).reduced? = none := by
  by_cases hv : v < g.size
  · have h := hg.kinds v hv
    cases hk : g.kind v <;> simp_all [Kind.reduced?, Kind.isPointwise]
  · rw [Graph.kind, Graph.vertex, Array.getElem?_eq_none (Nat.le_of_not_lt hv)]
    rfl

theorem Graph.Pointwise.isReducer {g : Graph} (hg : g.Pointwise) (v : Nat) : (g.kind v).isReducer = false := by
  by_cases hv : v < g.size
  · have h := hg.kinds v hv
    cases hk : g.kind v <;> simp_all [Kind.isReducer, Kind.isPointwise]
  · rw [Graph.kind, Graph.vertex, Array.getElem?_eq_none (Nat.le_of_not_lt hv)]
    rfl

/-- A plan for a pointwise graph, with columns that can be read. -/
structure Plan.Pointwise (p : Plan) : Prop where
  graph : p.graph.Pointwise
  columns : ∀ v c, p.column? v = some c → c < 10 ^ Decimal.maxDigits

theorem Plan.Pointwise.isLiftable {p : Plan} (hp : p.Pointwise) (σ : Sketch) (v : Nat) :
    p.isLiftable σ v = .ok false := by
  simp [Plan.isLiftable, hp.graph.isReducer v, pure, Except.pure]

namespace Sketch

/-- The code of all open blocks. -/
def code (σ : Sketch) : List Item := σ.blocks.flatMap (·.code)

theorem Grows.code_subset {σ σ' : Sketch} (h : σ.Grows σ') : ∀ i ∈ σ.code, i ∈ σ'.code := by
  have hgrow : ∀ {bs bs' : List Block}, Block.Grow bs bs' → ∀ i ∈ bs.flatMap (·.code), i ∈ bs'.flatMap (·.code) := by
    intro bs bs' h
    induction h with
    | nil => exact fun i hi => hi
    | cons is h ih =>
      intro i hi
      simp only [List.flatMap_cons, List.mem_append, Block.append] at hi ⊢
      exact hi.elim (fun h => .inl (.inl h)) fun h => .inr (ih i h)
  exact hgrow h.blocks

theorem mem_code_bindAt {σ : Sketch} {x : Var} {d : Nat} {e : Compound} (hd : d ≤ σ.depth) (i : Item) :
    i ∈ (σ.bindAt x d e).code ↔ i ∈ σ.code ∨ i = .assign x e := by
  have hmodify : ∀ (bs : List Block) (k : Nat), k < bs.length →
      (i ∈ (bs.modify k (·.append [.assign x e])).flatMap (·.code) ↔
        i ∈ bs.flatMap (·.code) ∨ i = .assign x e) := by
    intro bs
    induction bs with
    | nil => simp
    | cons b bs ih =>
      intro k hk
      cases k with
      | zero => simp [Block.append, or_comm, or_left_comm]
      | succ k => simp [ih k (by simpa using hk), or_assoc]
  rw [code, blocks_bindAt hd]
  exact hmodify _ _ (by rw [length_blocks]; omega)

theorem blocks_setResultAside (σ : Sketch) (v : Nat) (e : Held) (d : Nat) :
    (σ.setResultAside v e d).blocks = σ.blocks := by
  refine Frame.blocks_modify σ.frames _ ?_ _
  exact fun _ => ⟨rfl,rfl,rfl⟩

theorem blocks_setArrayAside (σ : Sketch) (v : Nat) (e : Held) (d : Nat) :
    (σ.setArrayAside v e d).blocks = σ.blocks := by
  refine Frame.blocks_modify σ.frames _ ?_ _
  exact fun _ => ⟨rfl,rfl,rfl⟩

/-- The open loops, without the code that they gather. -/
def loops (σ : Sketch) : List (List Nat × Nat × Nat × List Item) :=
  σ.frames.map fun f => (f.vars, f.index, f.length, f.before)

theorem index?_eq_loops (σ : Sketch) (v : Nat) :
    σ.index? v = (σ.loops.find? fun l => l.1.contains v).map (·.2.1) := by
  simp only [index?, loops, List.find?_map, Option.map_map]
  rfl

theorem binding_eq_of_loops {p : Plan} {σ σ' : Sketch} (h : σ'.loops = σ.loops) (v : Nat) :
    σ'.binding p v = σ.binding p v := by
  rw [binding, binding, index?_eq_loops, index?_eq_loops, h]

theorem loops_modify (fs : List Frame) (i : Nat) {f : Frame → Frame} (hf : ∀ x, Frame.Keeps x (f x)) :
    (fs.modify i f).map (fun x => (x.vars, x.index, x.length, x.before)) =
      fs.map fun x => (x.vars, x.index, x.length, x.before) := by
  induction fs generalizing i with
  | nil => simp
  | cons x fs ih =>
    cases i with
    | zero => simp [(hf x).vars, (hf x).index, (hf x).length, (hf x).before]
    | succ i => simp [ih]

theorem loops_bindAt (σ : Sketch) (x : Var) (d : Nat) (e : Compound) : (σ.bindAt x d e).loops = σ.loops := by
  obtain ⟨i,is,hi⟩ := frames_bindAt (σ := σ) (d := d) (c := e) x
  rw [loops, hi]
  exact loops_modify σ.frames i fun _ => ⟨rfl,rfl,rfl,rfl⟩

theorem loops_save (p : Plan) (σ : Sketch) (v : Nat) (e : Compound) : (σ.save p v e).loops = σ.loops := by
  have h : (σ.save p v e).loops = (σ.bindTemp p e).loops := rfl
  rw [h, bindTemp_eq, loops_bindAt]

theorem loops_bindArray (p : Plan) (σ : Sketch) (v : Nat) (xs : List Operand) :
    (σ.bindArray p v xs).loops = σ.loops := by
  rw [bindArray, introduce_array]
  exact loops_bindAt ..

theorem loops_setResultAside (σ : Sketch) (v : Nat) (e : Held) (d : Nat) :
    (σ.setResultAside v e d).loops = σ.loops := by
  refine loops_modify σ.frames _ ?_
  exact fun _ => ⟨rfl,rfl,rfl,rfl⟩

theorem loops_setArrayAside (σ : Sketch) (v : Nat) (e : Held) (d : Nat) :
    (σ.setArrayAside v e d).loops = σ.loops := by
  refine loops_modify σ.frames _ ?_
  exact fun _ => ⟨rfl,rfl,rfl,rfl⟩

/-- Only bindings are written, and everything written or held can be read. -/
structure Readable (σ : Sketch) : Prop where
  code : ∀ i ∈ σ.code, ∃ x e, i = .assign x e ∧ e.IsReadable
  results : ∀ v e, σ.results v = some e → e.operand.IsReadable
  arrays : ∀ v e, σ.arrays v = some e → e.operand.IsReadable

namespace Readable

variable {σ : Sketch} {e : Held}

theorem register (h : σ.Readable) (v : Nat) {x : Operand} (hx : x.IsReadable) : (σ.register v x).Readable where
  code := h.code
  arrays := h.arrays
  results := fun k e he => by
    rcases eq_or_of_update_some he with rfl | he
    · exact hx
    · exact h.results k e he

theorem bindAt (h : σ.Readable) (x : Var) {d : Nat} (hd : d ≤ σ.depth) {c : Compound} (hc : c.IsReadable) :
    (σ.bindAt x d c).Readable where
  code := fun i hi => by
    rcases (mem_code_bindAt hd i).mp hi with hi | rfl
    · exact h.code i hi
    · exact ⟨x,c,rfl,hc⟩
  results := by
    rw [results_bindAt]
    exact h.results
  arrays := by
    rw [arrays_bindAt]
    exact h.arrays

theorem save (h : σ.Readable) (p : Plan) (v : Nat) {c : Compound} (hc : c.IsReadable) :
    (σ.save p v c).Readable := by
  rw [Sketch.save, bindTemp_eq]
  exact (h.bindAt _ (home_le p σ.takeTemp c.vars) hc).register v trivial

theorem bindArray (h : σ.Readable) (p : Plan) (v : Nat) {xs : List Operand} (hx : ∀ x ∈ xs, x.IsReadable) :
    (σ.bindArray p v xs).Readable := by
  have hc : (Compound.array xs).IsReadable := ⟨hx,by simp,by simp⟩
  have hb := h.bindAt (.array σ.arrayNames) (home_le p σ (Compound.array xs).vars) hc
  rw [Sketch.bindArray, introduce_array]
  refine ⟨hb.code,hb.results,fun k e he => ?_⟩
  rcases eq_or_of_update_some he with rfl | he
  · trivial
  · exact hb.arrays k e he

theorem code_of_blocks {σ' : Sketch} (h : σ.Readable) (hb : σ'.blocks = σ.blocks) :
    ∀ i ∈ σ'.code, ∃ x c, i = .assign x c ∧ c.IsReadable := by
  rw [Sketch.code, hb]
  exact h.code

theorem setResultAside (h : σ.Readable) (v : Nat) (e : Held) (d : Nat) : (σ.setResultAside v e d).Readable where
  code := h.code_of_blocks (blocks_setResultAside σ v e d)
  results := fun k e he => h.results k e (eq_some_of_update_none he)
  arrays := h.arrays

theorem setArrayAside (h : σ.Readable) (v : Nat) (e : Held) (d : Nat) : (σ.setArrayAside v e d).Readable where
  code := h.code_of_blocks (blocks_setArrayAside σ v e d)
  results := h.results
  arrays := fun k e he => h.arrays k e (eq_some_of_update_none he)

end Readable

end Sketch

/-- The operands that a task gives can be read. -/
def Task.Readable : Task → Prop
  | ask _ _ x => x.IsReadable
  | askAll _ vs xs => xs.length = vs.length ∧ ∀ x ∈ xs, x.IsReadable
  | _ => True

/-- The expression of a pointwise node can be read if its operands can. -/
theorem Graph.Pointwise.isReadable_make {g : Graph} (hg : g.Pointwise) {v : Nat} {r : Role} {vs : List Nat}
    {make : List Operand → Compound} (hk : (g.kind v).combined? = some (r, vs, make)) {xs : List Operand}
    (hlen : xs.length = vs.length) (hx : ∀ x ∈ xs, x.IsReadable) (hp : (make xs).Proper) :
    (make xs).IsReadable := by
  have hne : vs ≠ [] → xs ≠ [] := by
    rintro hvs rfl
    exact hvs (List.length_eq_zero_iff.mp hlen.symm)
  have hcall : ∀ f : Routine, vs ≠ [] → (Compound.call f xs).IsReadable := by
    refine fun f hvs => ⟨hx,?_,by simp⟩
    simpa using hne hvs
  cases hkind : g.kind v with
  | sum ts =>
    rw [hkind] at hk
    cases ts with
    | nil => cases hk
    | cons t ts =>
      cases hk
      exact ⟨hx,by simpa using hne,by simp⟩
  | product fs =>
    rw [hkind] at hk
    cases fs with
    | nil => cases hk
    | cons f fs =>
      cases hk
      exact ⟨hx,by simpa using hne,by simp⟩
  | formula template args =>
    rw [hkind] at hk
    obtain ⟨o,ho,hmake⟩ := Option.map_eq_some_iff.mp hk
    cases hmake
    refine ⟨fun x hmem => ?_,by simp,fun o' xs' heq => ?_⟩
    · obtain ⟨i,_,hi⟩ := List.mem_filterMap.mp hmem
      exact hx x (List.mem_of_getElem? hi)
    · cases heq
      exact ⟨hg.templates v template _ hkind o ho,hp.2.1⟩
  | polynomial x cs order =>
    rw [hkind] at hk
    cases hk
    refine ⟨fun y hy => ?_,by simp,by simp⟩
    rcases List.mem_append.mp hy with hy | hy
    · exact hx y hy
    · rw [List.mem_singleton.mp hy]
      exact hg.orders v x cs order hkind
  | gaussian x m s =>
    rw [hkind] at hk
    cases hk
    exact hcall _ (by simp)
  | exponential x c =>
    rw [hkind] at hk
    cases hk
    exact hcall _ (by simp)
  | mixture ds cs =>
    rw [hkind] at hk
    cases hk
    exact hcall _ (by simp)
  | _ =>
    rw [hkind] at hk
    cases hk

namespace Builds

variable {p : Plan} {t : Task} {σ σ' : Sketch}

theorem loops_eq (h : Builds p t σ σ') (hp : p.Pointwise) : σ'.loops = σ.loops := by
  induction h with
  | bound _ => rfl
  | cached _ _ _ _ => rfl
  | missing _ _ _ _ ih => exact ih
  | stale _ _ _ _ _ _ ih => exact ih.trans (Sketch.loops_setResultAside ..)
  | here _ _ ih => exact ih
  | lifted hf _ _ =>
    rw [hp.isLiftable] at hf
    cases hf
  | literal _ _ => rfl
  | column _ _ _ => rfl
  | combined _ _ _ _ ih => exact (Sketch.loops_save ..).trans ih
  | added hk _ _ _ _ =>
    rw [hp.graph.reduced?] at hk
    cases hk
  | looped hk _ _ _ _ _ _ =>
    rw [hp.graph.reduced?] at hk
    cases hk
  | nil => rfl
  | cons _ _ ih ihs => exact ihs.trans ih
  | node _ _ ih => exact ih
  | kept _ _ _ _ => rfl
  | listed _ _ _ ih => exact (Sketch.loops_bindArray ..).trans ih
  | listedAgain _ _ _ _ _ ih =>
    exact (Sketch.loops_bindArray ..).trans (ih.trans (Sketch.loops_setArrayAside ..))

theorem readable (h : Builds p t σ σ') (hp : p.Pointwise) (hs : σ.Readable) : σ'.Readable ∧ t.Readable := by
  induction h with
  | @bound σ v x hb =>
    obtain ⟨k,_,rfl⟩ := Option.map_eq_some_iff.mp hb
    refine ⟨hs,?_⟩
    cases hc : p.column? v with
    | none => simp [Task.Readable, Operand.IsReadable, Plan.column, hc]
    | some c => simpa [Task.Readable, Operand.IsReadable, Plan.column, hc] using hp.columns v c hc
  | cached _ hr _ _ => exact ⟨hs,hs.results _ _ hr⟩
  | missing _ _ _ hr' ih =>
    have hs' := (ih hs).1
    exact ⟨hs',hs'.results _ _ hr'⟩
  | stale _ _ _ _ _ hr' ih =>
    have hs' := (ih (hs.setResultAside ..)).1
    exact ⟨hs',hs'.results _ _ hr'⟩
  | here _ _ ih => exact ih hs
  | lifted hf _ _ =>
    rw [hp.isLiftable] at hf
    cases hf
  | literal _ _ => exact ⟨hs.register _ trivial,trivial⟩
  | column _ hc _ => exact ⟨hs.register _ (hp.columns _ _ hc),trivial⟩
  | combined hk _ he _ ih =>
    obtain ⟨hs',hlen,hx⟩ := ih hs
    exact ⟨hs'.save p _ (hp.graph.isReadable_make hk hlen hx he),trivial⟩
  | added hk _ _ _ _ =>
    rw [hp.graph.reduced?] at hk
    cases hk
  | looped hk _ _ _ _ _ _ =>
    rw [hp.graph.reduced?] at hk
    cases hk
  | nil => exact ⟨hs,rfl,by simp⟩
  | cons _ _ ih ihs =>
    obtain ⟨hs₁,hx⟩ := ih hs
    obtain ⟨hs₂,hlen,hxs⟩ := ihs hs₁
    exact ⟨hs₂,congrArg Nat.succ hlen,List.forall_mem_cons.mpr ⟨hx,hxs⟩⟩
  | node _ _ ih => exact ih hs
  | kept _ ha _ _ => exact ⟨hs,hs.arrays _ _ ha⟩
  | listed _ _ _ ih =>
    obtain ⟨hs',_,hx⟩ := ih hs
    exact ⟨hs'.bindArray p _ hx,trivial⟩
  | listedAgain _ _ _ _ _ ih =>
    obtain ⟨hs',_,hx⟩ := ih (hs.setArrayAside ..)
    exact ⟨hs'.bindArray p _ hx,trivial⟩

end Builds

end FitCode
