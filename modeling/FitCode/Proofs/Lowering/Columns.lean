import FitCode.Proofs.Code.Running
import FitCode.Proofs.Lowering.Agreement
import FitCode.Proofs.Lowering.EntryCode
import FitCode.Proofs.Lowering.Entrywise
import FitCode.Proofs.Lowering.Progress
import FitCode.Proofs.Lowering.Scope

/-! # Whole columns and single entries

Code that is lowered outside of loops works on whole columns, code that is lowered inside a loop on one
entry of each column at a time. For pointwise nodes both agree: what the second one computes in a pass is
the entry of what the first one computes.
-/
namespace FitCode

open Text Emit Numeric Program

namespace Bindings

theorem exists_items {is : List Item} (h : ∀ i ∈ is, ∃ x e, i = .assign x e ∧ e.IsReadable) :
    ∃ c : Bindings, is = c.items ∧ c.IsReadable := by
  induction is with
  | nil => exact ⟨[],rfl,by simp [IsReadable]⟩
  | cons i is ih =>
    obtain ⟨x,e,rfl,he⟩ := h i (by simp)
    obtain ⟨c,rfl,hc⟩ := ih fun i hi => h i (by simp [hi])
    exact ⟨(x, e) :: c,rfl,List.forall_mem_cons.mpr ⟨he,hc⟩⟩

theorem assigned_items (c : Bindings) : Item.assigned c.items = c.map (·.1) := by
  induction c with
  | nil => rfl
  | cons b c ih => exact congrArg (b.1 :: ·) ih

theorem boundAll_items (c : Bindings) : Item.boundAll c.items = c.map (·.1) := by
  induction c with
  | nil => rfl
  | cons b c ih => exact congrArg (b.1 :: ·) ih

theorem mem_items {c : Bindings} {x : Var} {e : Compound} : .assign x e ∈ c.items ↔ (x, e) ∈ c := by
  simp [items]

end Bindings

theorem Graph.Touches.snoc {g : Graph} {v u w : Nat} (h : g.Touches v u) (hw : w ∈ (g.kind u).targets) :
    g.Touches v w := by
  induction h with
  | refl v => exact .step hw (.refl w)
  | step hv _ ih => exact .step hv (ih hw)

theorem Graph.Pointwise.leads {g : Graph} (hg : g.Pointwise) {v w : Nat} (h : g.Leads false v w) :
    g.Leads true v w := by
  induction h with
  | refl v => exact .refl v
  | step hw _ _ ih => exact .step hw (.inr fun h => by rw [hg.isReducer] at h; cases h.2) ih

theorem Plan.Adds.objects {g : Graph} {make : Nat → Operand} {test : Identity → Bool} {vs : List Nat}
    {k : Nat} {e : Held} (h : Adds g make test (vs.map .object) 0 k e) :
    ∃ i, vs[i]? = some k ∧ test (g.idOf k) = true ∧ e = ⟨make i, 0⟩ := by
  obtain ⟨i,d,id,hd,hid,ht,rfl,rfl⟩ := h
  rw [List.getElem?_map] at hd
  obtain ⟨v,hv,rfl⟩ := Option.map_eq_some_iff.mp hd
  cases hid
  exact ⟨i,hv,ht,by rw [Nat.zero_add]⟩

namespace Builds

variable {p : Plan} {σ σ' : Sketch} {root : Nat} {x : Operand}

theorem exists_straight (h : Builds p (.ask .result root x) σ σ') (hp : p.Pointwise)
    (hs : σ.Sound fun _ => False) (hr : σ.Readable) (hblocks : σ.blocks = [⟨none, []⟩]) :
    ∃ c : Bindings, σ'.blocks = [⟨none, c.items⟩] ∧ σ'.current = c.items ∧ c.IsReadable ∧ x.IsReadable ∧
      Item.Scoped (fun _ => False) c.items ∧ (c.map (·.1)).Nodup ∧ ∀ y ∈ x.vars, y ∈ c.map (·.1) := by
  obtain ⟨hs',hgrow,husable⟩ := h.sound hs
  obtain ⟨hr',hx⟩ := h.readable hp hr
  have hframes : σ.frames = [] := by
    have hl := congrArg List.length hblocks
    rw [Sketch.length_blocks] at hl
    exact List.length_eq_zero_iff.mp (Nat.succ.inj hl)
  have htop := hgrow.blocks_of_top hframes
  obtain ⟨c,hc,hread⟩ := Bindings.exists_items fun i (hi : i ∈ σ'.current) =>
    hr'.code i (by rw [Sketch.code, htop]; simpa using hi)
  have hcode := hs'.code
  rw [htop, hc] at hcode
  refine ⟨c,by rw [htop, hc],hc,hread,hx,hcode.2.mono ?_,List.nodup_iff_count_le_one.mpr fun y => ?_,fun y hy => ?_⟩
  · simp [Block.Binds]
  · have hcount := hgrow.bound y
    rw [htop, hblocks, hc] at hcount
    simp only [Block.bound, Bindings.boundAll_items, Item.boundAll, Option.map_none, Option.toList_none,
      List.nil_append, List.append_nil, List.count_nil, Nat.zero_add] at hcount
    rw [hcount]
    split <;> omega
  · rcases husable y hy with hy | ⟨d,_,hy⟩
    · exact hy.elim
    · rw [htop, hc] at hy
      rcases hy with ⟨_,hy | hy⟩ | hy
      · cases hy
      · rwa [Bindings.assigned_items] at hy
      · exact hy.elim

/-- The code of a lowering inside a loop: what is bound in front of the loop, and what is bound in it. -/
structure InLoop (σ : Sketch) (k n : Nat) (x : Operand) (f : Frame) (c b : Bindings) : Prop where
  frames : σ.frames = [f]
  index : f.index = k
  length : f.length = n
  before : f.before = []
  queued : f.queued = c.items
  current : σ.current = b.items
  outerReadable : c.IsReadable
  innerReadable : b.IsReadable
  operand : x.IsReadable
  outerScoped : Item.Scoped (fun _ => False) c.items
  innerScoped : Item.Scoped (fun y => y ∈ c.map (·.1) ∨ y = .index k) b.items
  nodup : (.index k :: (c.map (·.1) ++ b.map (·.1))).Nodup
  vars : ∀ y ∈ x.vars, y ∈ .index k :: (c.map (·.1) ++ b.map (·.1))

theorem exists_looped {vars : List Nat} {n : Nat} (h : Builds p (.ask .result root x) (σ.openLoop vars n) σ')
    (hp : p.Pointwise) (hs : σ.Sound fun _ => False) (hr : (σ.openLoop vars n).Readable)
    (hframes : σ.frames = []) (hcurrent : σ.current = []) : ∃ f c b, InLoop σ' σ.indices n x f c b := by
  obtain ⟨hs',hgrow,husable⟩ := h.sound (hs.openLoop vars n)
  obtain ⟨hr',hx⟩ := h.readable hp hr
  have hloops := h.loops_eq hp
  have hopen : (σ.openLoop vars n).loops = [(vars, σ.indices, n, [])] := by
    simp [Sketch.loops, Sketch.openLoop, hframes, hcurrent]
  rw [hopen, Sketch.loops, List.map_eq_singleton_iff] at hloops
  obtain ⟨f,hf,hfields⟩ := hloops
  simp only [Prod.mk.injEq] at hfields
  obtain ⟨_,hindex,hlength,hbefore⟩ := hfields
  have hblocks : σ'.blocks = [⟨some σ.indices, σ'.current⟩, ⟨none, f.queued⟩] := by
    rw [Sketch.blocks_cons hf, hindex, hbefore]
    rfl
  obtain ⟨c,hc,hreadc⟩ := Bindings.exists_items fun i (hi : i ∈ f.queued) =>
    hr'.code i (by rw [Sketch.code, hblocks]; simp [hi])
  obtain ⟨b,hb,hreadb⟩ := Bindings.exists_items fun i (hi : i ∈ σ'.current) =>
    hr'.code i (by rw [Sketch.code, hblocks]; simp [hi])
  rw [hc, hb] at hblocks
  have hcode := hs'.code
  rw [hblocks] at hcode
  obtain ⟨⟨_,hscoped⟩,hscoped'⟩ := hcode
  refine ⟨f,c,b,hf,hindex,hlength,hbefore,hc,hb,hreadc,hreadb,hx,hscoped.mono ?_,hscoped'.mono ?_,
    List.nodup_iff_count_le_one.mpr fun y => ?_,fun y hy => ?_⟩
  · simp [Block.Binds]
  · rintro y ((hy | ⟨d,hy⟩) | hy)
    · exact hy.elim
    · rcases hy with ⟨_,hy | hy⟩ | hy
      · cases hy
      · exact .inl (by rwa [Bindings.assigned_items] at hy)
      · exact hy.elim
    · exact .inr (Option.some.inj hy).symm
  · have hcount := hgrow.bound y
    have hstart : (σ.openLoop vars n).blocks = [⟨some σ.indices, []⟩, ⟨none, []⟩] := by
      rw [Sketch.blocks_openLoop, Sketch.blocks, hframes, hcurrent]
      rfl
    rw [hblocks, hstart] at hcount
    simp only [Block.bound, Bindings.boundAll_items, Item.boundAll, Option.map_some, Option.map_none,
      Option.toList_some, Option.toList_none, List.nil_append, List.append_nil, List.cons_append,
      List.count_cons, List.count_append, List.count_nil, Nat.zero_add] at hcount ⊢
    by_cases hy : y = .index σ.indices
    · have htaken : (σ.openLoop vars n).taken y = σ.indices + 1 := by
        rw [hy]
        rfl
      have hnumber : y.number = σ.indices := by
        rw [hy]
        rfl
      rw [htaken, hnumber, if_neg (by omega : ¬ (σ.indices + 1 ≤ σ.indices ∧ _))] at hcount
      simp only [hy, BEq.rfl, if_true] at hcount ⊢
      omega
    · have hne : (Var.index σ.indices == y) = false := beq_false_of_ne (Ne.symm hy)
      simp only [hne, Bool.false_eq_true, if_false] at hcount ⊢
      split at hcount <;> omega
  · rcases husable y hy with hy | ⟨d,_,hy⟩
    · exact hy.elim
    · rw [hblocks] at hy
      simp only [List.mem_cons, List.mem_append]
      rcases hy with ⟨_,hy | hy⟩ | ⟨_,hy | hy⟩ | hy
      · exact .inl (Option.some.inj hy).symm
      · exact .inr (.inr (by rwa [Bindings.assigned_items] at hy))
      · cases hy
      · exact .inr (.inl (by rwa [Bindings.assigned_items] at hy))
      · exact hy.elim

namespace InLoop

variable {k n : Nat} {f : Frame} {c b : Bindings}

theorem mem_code (h : InLoop σ k n x f c b) {y : Var} {e : Compound} :
    .assign y e ∈ σ.code ↔ (y, e) ∈ c ++ b := by
  rw [Sketch.code, Sketch.blocks_cons h.frames, h.before, h.queued, h.current]
  simp [Frame.blocks, Bindings.mem_items, or_comm]

/-- The store in a pass of the loop. -/
noncomputable def store (k : Nat) (c : Bindings) (a d : Value) (j : Nat) : Store :=
  ((⟨a, d, fun _ => .error .unboundName⟩ : Store).set (.index k) (.ok (.int j))).bind c

@[simp] theorem params_store (k : Nat) (c : Bindings) (a d : Value) (j : Nat) : (store k c a d j).params = a := by
  simp [store, Store.set]

@[simp] theorem columns_store (k : Nat) (c : Bindings) (a d : Value) (j : Nat) : (store k c a d j).columns = d := by
  simp [store, Store.set]

theorem passes (h : InLoop σ k n x f c b) (a d : Value) : Model.Passes (store k (c ++ b) a d) c b k := by
  have hnames : (c ++ b).map (·.1) = c.map (·.1) ++ b.map (·.1) := List.map_append
  obtain ⟨hindex,hnodup⟩ := List.nodup_cons.mp h.nodup
  refine ⟨fun j => ?_,fun j => ?_,fun j => ?_,fun j y hy => ?_,fun j => ?_⟩
  · rw [params_store, params_store]
  · rw [columns_store, columns_store]
  · rw [store, Store.vars_bind (by rw [hnames]; exact hindex)]
    exact Function.update_self ..
  · have hyb : y ∉ b.map (·.1) := fun hb => (List.nodup_append.mp hnodup).2.2 y hy y hb rfl
    rw [store, store, Store.bind_append, Store.bind_append, Store.vars_bind hyb, Store.vars_bind hyb]
    refine Store.bind_congr h.outerScoped h.outerReadable ?_ ?_ (fun y hy => hy.elim) y (.inr hy)
    · rfl
    · rfl
  · have hitems : (c ++ b).items = c.items ++ b.items := List.map_append
    refine Store.solves_bind (S := (· = .index k)) ?_ ?_ (by rw [hnames]; exact hnodup) ?_ _
    · rw [hitems]
      refine (h.outerScoped.mono fun y hy => hy.elim).append (h.innerScoped.mono fun y hy => ?_)
      rw [Bindings.assigned_items]
      exact hy.symm
    · exact List.forall_mem_append.mpr ⟨h.outerReadable,h.innerReadable⟩
    · rintro y hy rfl
      rw [hnames] at hy
      exact hindex hy

end InLoop

end Builds

namespace Model

open Builds

/-- A complete model of pointwise nodes whose vector observables are of one size. The numbers that its
code mentions can be read. -/
structure Pointwise (m : Model) (root : Nat) (ps os : List Nat) (sizes : SizeTable) (n : Nat) : Prop where
  complete : m.Complete root ps os
  builtIn : m.graph.BuiltIn
  graph : m.graph.Pointwise
  sizes : ∀ v ∈ os, 1 < sizes.size (m.graph.idOf v) → sizes.size (m.graph.idOf v) = n
  parameters : ps.length ≤ 10 ^ Decimal.maxDigits
  observables : os.length ≤ 10 ^ Decimal.maxDigits
  size : n < 10 ^ Decimal.maxDigits

/-- Parameters are numbers, and columns are arrays of numbers, at least `n` of them in the columns of
vector observables. -/
structure Arguments (m : Model) (os : List Nat) (sizes : SizeTable) (n : Nat) (a b : Value) : Prop where
  parameters : ∀ (i : Nat) V, a.index (.int i) = .ok V → ∃ s, V = .scalar s
  columns : ∀ (c : Nat) C, b.index (.int c) = .ok C → ∃ xs, C = .array (.ofList xs) ∧
    ∀ v, os[c]? = some v → 1 < sizes.size (m.graph.idOf v) → n ≤ xs.length

variable {m : Model} {root n : Nat} {ps os : List Nat} {sizes : SizeTable} {p : Plan} {σ : Sketch} {v c : Nat}

namespace Starts

theorem column (h : m.Starts p σ) (ho : m.observables = os.map .object) (hc : p.column? v = some c) :
    os[c]? = some v ∧ 1 < p.sizes.size (p.graph.idOf v) := by
  obtain ⟨k,hk,rfl⟩ := Option.map_eq_some_iff.mp hc
  obtain ⟨e,he,rfl⟩ := Option.map_eq_some_iff.mp hk
  have hmem := List.mem_of_find?_eq_some he
  rw [h.columns, ho] at hmem
  obtain ⟨i,x,hx,hs,rfl⟩ := mem_columnsOf.mp hmem
  have hsame : x = v := by simpa [Identity.same, Graph.idOf] using List.find?_some he
  subst hsame
  exact ⟨by simpa using hx,hs⟩

theorem results_cases (h : m.Starts p σ) (hm : m.Complete root ps os) {e : Held}
    (he : σ.results v = some e) :
    (∃ i, ps[i]? = some v ∧ e = ⟨.parameter i, 0⟩) ∨
      ∃ i, os[i]? = some v ∧ p.sizes.size (p.graph.idOf v) ≤ 1 ∧ e = ⟨.first i, 0⟩ := by
  rcases (h.results v e).mp he with ha | ha
  · rw [hm.parameters] at ha
    obtain ⟨i,hi,_,rfl⟩ := ha.objects
    exact .inl ⟨i,hi,rfl⟩
  · rw [hm.observables] at ha
    obtain ⟨i,hi,ht,rfl⟩ := ha.objects
    exact .inr ⟨i,hi,by simpa using ht,rfl⟩

theorem kind_of_results (h : m.Starts p σ) (hm : m.Complete root ps os) {e : Held}
    (he : σ.results v = some e) : (m.graph.kind v).parts? = some [] := by
  rcases h.results_cases hm he with ⟨i,hi,_⟩ | ⟨i,hi,_⟩
  · obtain ⟨x,b,hk⟩ := hm.parameter v (List.mem_of_getElem? hi)
    rw [hk]
    rfl
  · rw [hm.observable v (List.mem_of_getElem? hi)]
    rfl

theorem results_of_column (h : m.Starts p σ) (hm : m.Complete root ps os) (hc : p.column? v = some c) :
    σ.results v = none := by
  obtain ⟨hv,hs⟩ := h.column hm.observables hc
  cases he : σ.results v with
  | none => rfl
  | some e =>
    rcases h.results_cases hm he with ⟨i,hi,_⟩ | ⟨i,_,hle,_⟩
    · obtain ⟨x,b,hk⟩ := hm.parameter v (List.mem_of_getElem? hi)
      rw [hm.observable v (List.mem_of_getElem? hv)] at hk
      cases hk
    · omega

theorem index?_eq_none (h : m.Starts p σ) (v : Nat) : σ.index? v = none := by
  rw [h.sketch]
  rfl

theorem opening (h : m.Starts p σ) (hm : m.Complete root ps os) (hg : p.graph = m.graph) : σ.Opening p where
  leaves := fun v e he => by
    rw [hg]
    exact h.kind_of_results hm he
  columns := fun v c hc => by
    refine ⟨?_,h.results_of_column hm hc⟩
    rw [hg]
    exact hm.observable v (List.mem_of_getElem? (h.column hm.observables hc).1)
  bindings := fun v x hx => by
    rw [Sketch.binding, h.index?_eq_none] at hx
    cases hx
  arrays := fun v => by
    rw [h.sketch]

variable {vars : List Nat} (hvars : ∀ v ∈ vars, ∃ c, p.column? v = some c)

theorem binding_openLoop (h : m.Starts p σ) (v length : Nat) : (σ.openLoop vars length).binding p v =
    if vars.contains v then some (.entry (p.column v) 0) else none := by
  have hzero : σ.indices = 0 := by rw [h.sketch]
  rw [Sketch.binding, Sketch.index?_openLoop, h.index?_eq_none, hzero]
  split <;> rfl

include hvars in
/-- Loops that are opened at the start iterate vector observables. -/
theorem opening_openLoop (h : m.Starts p σ) (hm : m.Complete root ps os) (hg : p.graph = m.graph)
    (length : Nat) : (σ.openLoop vars length).Opening p where
  leaves := (h.opening hm hg).leaves
  columns := (h.opening hm hg).columns
  arrays := (h.opening hm hg).arrays
  bindings := fun v x hx => by
    rw [h.binding_openLoop] at hx
    split at hx
    · rename_i hv
      obtain ⟨c,hc⟩ := hvars v (by simpa using hv)
      exact h.results_of_column hm hc
    · cases hx

theorem readable (h : m.Starts p σ) (hm : m.Pointwise root ps os sizes n) : σ.Readable where
  code := fun i hi => by
    rw [h.sketch] at hi
    cases hi
  results := fun v e he => by
    rcases h.results_cases hm.complete he with ⟨i,hi,rfl⟩ | ⟨i,hi,_,rfl⟩
    · exact Nat.lt_of_lt_of_le (List.getElem?_eq_some_iff.mp hi).1 hm.parameters
    · exact Nat.lt_of_lt_of_le (List.getElem?_eq_some_iff.mp hi).1 hm.observables
  arrays := fun v e he => by
    rw [h.sketch] at he
    cases he

theorem readable_openLoop (h : m.Starts p σ) (hm : m.Pointwise root ps os sizes n) (vars : List Nat)
    (length : Nat) : (σ.openLoop vars length).Readable where
  code := fun i hi => by
    rw [h.sketch] at hi
    cases hi
  results := (h.readable hm).results
  arrays := (h.readable hm).arrays

theorem pointwise (h : m.Starts p σ) (hm : m.Pointwise root ps os sizes n) (hg : p.graph = m.graph) :
    p.Pointwise where
  graph := by
    rw [hg]
    exact hm.graph
  columns := fun v c hc =>
    Nat.lt_of_lt_of_le (List.getElem?_eq_some_iff.mp (h.column hm.complete.observables hc).1).1 hm.observables

/-- A vertex that is no bound leaf outside of the loop is none inside of it. -/
theorem base_eq_none (h : m.Starts p σ) {s t : Store} (hb : σ.base p s v = none) (length : Nat)
    (hvars : ∀ v ∈ vars, ∃ c, p.column? v = some c) : (σ.openLoop vars length).base p t v = none := by
  have hleaf : σ.leaf? p v = none := Option.map_eq_none_iff.mp hb
  have hresults : (σ.openLoop vars length).results v = σ.results v := rfl
  rw [Sketch.leaf?, Option.or_eq_none_iff, Option.or_eq_none_iff] at hleaf
  have hnot : vars.contains v = false := by
    refine Bool.eq_false_iff.mpr fun hv => ?_
    obtain ⟨c,hc⟩ := hvars v (by simpa using hv)
    rw [hc] at hleaf
    cases hleaf.2.2
  rw [Sketch.base, Sketch.leaf?, hresults, h.binding_openLoop, hnot, hleaf.1, hleaf.2.2]
  rfl

theorem base_eq_some (h : m.Starts p σ) (hm : m.Pointwise root ps os sizes n) (hset : p.sizes = sizes)
    (hg : p.graph = m.graph) {s t : Store} (hparams : t.params = s.params) (hcolumns : t.columns = s.columns)
    {j : Nat} (hj : j < n) (hindex : t.vars (.index 0) = .ok (.int j))
    (hargs : m.Arguments os sizes n s.params s.columns) (hv : (p.column? v).isSome → v ∈ vars)
    {o : Outcome Value} (hb : σ.base p s v = some o) (length : Nat) :
    ∃ o', (σ.openLoop vars length).base p t v = some o' ∧ Lifts (Value.Entry n j) o o' := by
  obtain ⟨x,hx,rfl⟩ := Option.map_eq_some_iff.mp hb
  have hresults : (σ.openLoop vars length).results v = σ.results v := rfl
  cases he : σ.results v with
  | some e =>
    rw [Sketch.leaf?, he] at hx
    cases hx
    refine ⟨e.operand.value t,by rw [Sketch.base, Sketch.leaf?, hresults, he]; rfl,fun V hV => ?_⟩
    rcases h.results_cases hm.complete he with ⟨i,hi,rfl⟩ | ⟨i,hi,_,rfl⟩
    · obtain ⟨a,rfl⟩ := hargs.parameters i V hV
      exact ⟨_,by rw [Operand.value, hparams]; exact hV,.scalar a⟩
    · obtain ⟨C,hC,hV⟩ := Outcome.bind_eq_ok.mp hV
      obtain ⟨xs,rfl,_⟩ := hargs.columns i C hC
      refine ⟨V,by rw [Operand.value, hcolumns, hC]; exact hV,?_⟩
      have hfirst := Value.index_column xs 0
      rw [Int.natCast_zero, hV] at hfirst
      cases hxs : xs[0]? with
      | none =>
        rw [hxs] at hfirst
        cases hfirst
      | some x =>
        rw [hxs] at hfirst
        cases hfirst
        exact .scalar _
  | none =>
    have hnone : σ.binding p v = none := by rw [Sketch.binding, h.index?_eq_none]; rfl
    rw [Sketch.leaf?, he, hnone] at hx
    obtain ⟨c,hc,rfl⟩ := Option.map_eq_some_iff.mp hx
    have hmem : vars.contains v = true := by simpa using hv (by rw [hc]; rfl)
    have hcolumn : p.column v = c := by rw [Plan.column, hc]; rfl
    refine ⟨(Operand.entry c 0).value t,?_,fun V hV => ?_⟩
    · rw [Sketch.base, Sketch.leaf?, hresults, he, h.binding_openLoop, hmem, hcolumn]
      rfl
    · obtain ⟨hos,hs⟩ := h.column hm.complete.observables hc
      obtain ⟨xs,rfl,hlen⟩ := hargs.columns c V hV
      have hle := hlen v hos (by rw [← hset, ← hg]; exact hs)
      obtain ⟨x,hx⟩ : ∃ x, xs[j]? = some x :=
        ⟨_,List.getElem?_eq_getElem (Nat.lt_of_lt_of_le hj hle)⟩
      refine ⟨_,?_,.column hle hx⟩
      have hcol : t.columns.index (.int c) = .ok (.array (.ofList xs)) := by rw [hcolumns]; exact hV
      simp only [Operand.value, hcol, hindex, bind, Except.bind, Value.index_column, hx]
      rfl

end Starts

theorem Starts.unique {p' : Plan} {σ' : Sketch} (h : m.Starts p σ) (h' : m.Starts p' σ')
    (hp : p.toSetting = p'.toSetting) : p = p' ∧ σ = σ' := by
  obtain ⟨s,cs⟩ := p
  obtain ⟨s',cs'⟩ := p'
  cases hp
  have hcolumns : cs = cs' := h.columns.trans h'.columns.symm
  subst hcolumns
  have hresults : σ.results = σ'.results := by
    funext v
    refine Option.ext fun e => ?_
    exact (h.results v e).trans (h'.results v e).symm
  refine ⟨rfl,?_⟩
  rw [h.sketch, h'.sketch, hresults]

namespace Unrolls

variable {start final : Sketch} {ids : List Identity} {k : Nat} {x : Operand} {body : String}

theorem loopVars_eq (h : m.Unrolls p start final ids k root x body) : Plan.loopVars start ids = ids :=
  List.filter_eq_self.mpr fun id _ => by rw [h.starts.index?_eq_none]; rfl

theorem mem_ids (h : m.Unrolls p start final ids k root x body) (hm : m.Complete root ps os)
    (hg : p.graph = m.graph) (id : Identity) :
    id ∈ ids ↔ (∃ c, (id, c) ∈ p.columns) ∧ m.graph.Leads true root id.serial := by
  have hcolumns : ∀ e ∈ p.columns, p.graph.kind e.1.serial = .observable := by
    intro e he
    rw [h.starts.columns, hm.observables] at he
    obtain ⟨i,v,hv,_,rfl⟩ := mem_columnsOf.mp he
    rw [hg]
    exact hm.observable v (List.mem_of_getElem? hv)
  have hsorted : p.graph.Sorted := by
    rw [hg]
    exact hm.typed.sorted
  obtain ⟨ids',hids,hmem⟩ := hsorted.inputs (c := { nextSerial := 0, columns := p.columns }) hcolumns
    (.inl (by rw [hg]; exact hm.isNode))
  have heq : ids' = ids := Except.ok.inj (hids.symm.trans h.inputs)
  rw [← heq, hmem, hg]

theorem column_of_mem (h : m.Unrolls p start final ids k root x body) (hm : m.Complete root ps os)
    (hg : p.graph = m.graph) {id : Identity} (hid : id ∈ ids) :
    (∃ c, p.column? id.serial = some c) ∧ id.serial ∈ os ∧ id = m.graph.idOf id.serial ∧ 1 < p.sizes.size id := by
  obtain ⟨⟨c,hc⟩,_⟩ := (h.mem_ids hm hg id).mp hid
  have hmem := hc
  rw [h.starts.columns, hm.observables] at hmem
  obtain ⟨i,v,hv,hs,heq⟩ := mem_columnsOf.mp hmem
  cases heq
  have hsome : (p.columns.get? (p.graph.idOf v)).isSome = true := by
    rw [IdMap.get?, Option.isSome_map, List.find?_isSome]
    exact ⟨_,hc,by simp [Identity.same]⟩
  obtain ⟨c,hc⟩ := Option.isSome_iff_exists.mp hsome
  exact ⟨⟨c.toNat,by rw [Plan.column?, show p.graph.idOf (p.graph.idOf v).serial = p.graph.idOf v from rfl, hc]; rfl⟩,
    List.mem_of_getElem? hv,by rw [hg]; rfl,hs⟩

/-- The loop iterates every vector observable that the root depends on. -/
theorem mem_of_column (h : m.Unrolls p start final ids k root x body) (hm : m.Pointwise root ps os sizes n)
    (hg : p.graph = m.graph) {v : Nat} (hv : m.graph.Touches root v) (hc : (p.column? v).isSome) :
    v ∈ ids.map (·.serial) := by
  obtain ⟨c,hc⟩ := Option.isSome_iff_exists.mp hc
  obtain ⟨hos,_⟩ := h.starts.column hm.complete.observables hc
  have hnode : (m.graph.kind v).isNode = true := by
    rw [hm.complete.observable v (List.mem_of_getElem? hos)]
    rfl
  have hleads := hm.graph.leads (hm.complete.typed.sorted.leads_of_touches hv hnode)
  rw [Plan.column?] at hc
  obtain ⟨i,hi,_⟩ := Option.map_eq_some_iff.mp hc
  obtain ⟨e,he,hserial⟩ := IdMap.exists_mem_of_isSome (Option.isSome_iff_exists.mpr ⟨i,hi⟩)
  have hsame : e.1.serial = v := hserial
  exact List.mem_map.mpr ⟨e.1,(h.mem_ids hm.complete hg e.1).mpr ⟨⟨e.2,he⟩,by rw [hsame]; exact hleads⟩,hsame⟩

/-- The loop has as many passes as the vector observables have entries. -/
theorem size_eq (h : m.Unrolls p start final ids k root x body) (hm : m.Pointwise root ps os sizes n)
    (hg : p.graph = m.graph) (hset : p.sizes = sizes) : k = n ∧ 1 < n := by
  have hsize := h.size
  rw [h.loopVars_eq] at hsize
  have hmem : k ∈ (ids.map p.sizes.size).eraseDups := by simp [hsize]
  obtain ⟨id,hid,rfl⟩ := List.mem_map.mp (List.mem_eraseDups.mp hmem)
  obtain ⟨_,hos,heq,hlt⟩ := h.column_of_mem hm.complete hg hid
  have hn : p.sizes.size id = n := by
    rw [hset] at hlt ⊢
    rw [heq] at hlt ⊢
    exact hm.sizes _ hos hlt
  exact ⟨hn,hn ▸ hlt⟩

end Unrolls

section

variable {hoist : Bool} {machine : Machine} {limits : Limits}
  {k : Nat} {body : String} {d : Draft} {f : Function} {a b V : Value}

/-- What the code on whole columns computes is the value of the root. -/
theorem means_of_run (hm : m.Pointwise root ps os sizes n)
    (hbody : Gives (m.emitBody ⟨m.graph, { hoist, machine }, sizes⟩) { nextSerial := k } body d)
    (hload : load "squashed" (functionSource { hoist, machine } body) limits = .ok f) (hrun : f.run a b = .ok V) :
    ∃ p σ s, p.toSetting = ⟨m.graph, { hoist, machine }, sizes⟩ ∧ m.Starts p σ ∧ s.params = a ∧ s.columns = b ∧
      σ.Denotes p s (.one .result root) [.ok V] := by
  have hlt : root < m.graph.size := Graph.lt_size_of_kind (Graph.ne_identity_of_isNode hm.complete.isNode)
  obtain ⟨p,σ₀,σ,x,hset,_,hstart,hb,hcode,htext⟩ := emitBody_builds rfl hm.builtIn hm.complete.rooted hlt hbody
  have hg : p.graph = m.graph := by rw [hset]
  have hp := hstart.pointwise hm hg
  have hblocks : σ₀.blocks = [⟨none, []⟩] := by rw [hstart.sketch]; rfl
  obtain ⟨c,htop,hcurrent,hread,hx,hscoped,hnodup,hvars⟩ :=
    hb.exists_straight hp hstart.sound (hstart.readable hm) hblocks
  rw [htext, hcode, hcurrent] at hload
  obtain rfl := load_straight hread hx hload
  have hmem : ∀ y e, .assign y e ∈ σ.code → (y, e) ∈ c := by
    intro y e he
    rw [Sketch.code, htop] at he
    exact Bindings.mem_items.mp (by simpa using he)
  have hsolves := Store.solves_bind hscoped hread hnodup (fun _ _ h => h)
    ⟨a, b, fun _ => .error .unboundName⟩
  obtain ⟨hok,hV⟩ := run_straight hscoped hread hvars hsolves (by simpa using hrun)
  obtain ⟨_,_,hmeans⟩ := hb.follows hp (hstart.opening hm.complete hg) hstart.sound rfl
    ((hstart.opening hm.complete hg).follows _) trivial (fun y e he => hsolves (y, e) (hmem y e he))
    (.inl fun y e he => hok (y, e) (hmem y e he))
  refine ⟨p,σ₀,Store.bind ⟨a, b, fun _ => .error .unboundName⟩ c,hset,hstart,Store.params_bind _ c,
    Store.columns_bind _ c,?_⟩
  rw [← hV]
  exact hmeans

end

theorem entryLines_items {c b : Bindings} (hb : b.IsReadable) (k : Nat) {n : Nat}
    (hn : n < 10 ^ Decimal.maxDigits) : entryLines c.items k n b.items =
      Item.linesAll 0 c.items ++ ⟨0, Item.loopText k n⟩ :: bodyLines b := by
  obtain ⟨ts,hline,_⟩ := Item.lineText_loop k hn
  have hheader : Item.lineOf 0 (Item.loopText k n) = ⟨0, Item.loopText k n⟩ := hline.lineOf_eq 0
  rw [entryLines, hheader, Bindings.linesAll_items hb, bodyLines]
  by_cases hnil : b = []
  · subst hnil
    rfl
  · have hne : b.lines 1 ≠ [] := by simpa [Bindings.lines] using hnil
    simp only [passFor, if_neg hnil, if_neg hne, List.append_nil]

namespace Unrolls

variable {start final : Sketch} {ids : List Identity} {k : Nat} {x : Operand} {body : String} {hoist : Bool}
  {machine : Machine} {limits : Limits}  {f : Function} {a b V : Value} {i : Nat}

/-- If the root has a value over whole columns, the code inside the loop computes the entries of it. -/
theorem run (h : m.Unrolls p start final ids k root x body) (hm : m.Pointwise root ps os sizes n)
    (hset : p.toSetting = ⟨m.graph, { hoist, machine }, sizes⟩) (hargs : m.Arguments os sizes n a b)
    (hload : load "squashed" (functionSource { hoist, machine } body) limits = .ok f) {s : Store}
    (ha : s.params = a) (hb : s.columns = b) (hV : start.Denotes p s (.one .result root) [.ok V]) (hi : i < n) :
    ∃ v, (f.cut (i + 1)).run a b = .ok v ∧ Value.Entry n i V v := by
  have hg : p.graph = m.graph := by rw [hset]
  have hsizes : p.sizes = sizes := by rw [hset]
  have hp := h.starts.pointwise hm hg
  have hzero : start.indices = 0 := by rw [h.starts.sketch]
  obtain ⟨rfl,h1⟩ := h.size_eq hm hg hsizes
  have hvars : ∀ v ∈ ids.map (·.serial), ∃ c, p.column? v = some c := by
    intro v hv
    obtain ⟨id,hid,rfl⟩ := List.mem_map.mp hv
    exact (h.column_of_mem hm.complete hg hid).1
  have hbuilds := h.builds
  rw [h.loopVars_eq] at hbuilds
  obtain ⟨fr,c,d,hloop⟩ := hbuilds.exists_looped hp h.starts.sound (h.starts.readable_openLoop hm _ _)
    (by rw [h.starts.sketch]) (by rw [h.starts.sketch])
  rw [hzero] at hloop
  have hpasses := hloop.passes a b
  have hopening := h.starts.opening_openLoop hvars hm.complete hg k
  have hentry : ∀ j < k, (∀ q ∈ c ++ d, ∃ w, (InLoop.store 0 (c ++ d) a b j).vars q.1 = .ok w) ∧
      ∃ v, x.value (InLoop.store 0 (c ++ d) a b j) = .ok v ∧ Value.Entry k j V v := by
    intro j hj
    have hparams : (InLoop.store 0 (c ++ d) a b j).params = s.params := by rw [InLoop.params_store, ha]
    have hcolumns : (InLoop.store 0 (c ++ d) a b j).columns = s.columns := by rw [InLoop.columns_store, hb]
    generalize InLoop.store 0 (c ++ d) a b = t at hpasses hparams hcolumns
    have htyped : p.graph.Typed := by rw [hg]; exact hm.complete.typed
    obtain ⟨os',hmeans,htracks⟩ : ∃ os', (start.openLoop (ids.map (·.serial)) k).Denotes p (t j)
        (.one .result root) os' ∧ p.graph.Tracks k j .result [root] [.ok V] os' :=
      hV.lifts htyped hp.graph h1 (Q := m.graph.Touches root) (fun v w hv hw => hv.snoc (by rwa [hg] at hw))
        (fun v _ hnone => h.starts.base_eq_none hnone k hvars)
        (fun v o hv hsome => h.starts.base_eq_some hm hsizes hg hparams hcolumns hj (hpasses.index j)
          (by rw [ha, hb]; exact hargs) (h.mem_of_column hm hg hv) hsome k)
        (fun v hv => by rw [List.mem_singleton.mp hv]; exact .refl root)
    rcases htracks with _ | ⟨ho,_ | _⟩
    rw [Kind.aligns_result] at ho
    obtain ⟨v,rfl,hVv⟩ := ho V rfl
    have hempty : (start.openLoop (ids.map (·.serial)) k).Fine (t j) := by
      intro y e hy
      rw [h.starts.sketch] at hy
      cases hy
    have hsol : final.Solves (t j) := fun y e hy => hpasses.solves j (y, e) (hloop.mem_code.mp hy)
    obtain ⟨_,hfine,hans⟩ := hbuilds.follows hp hopening (h.starts.sound.openLoop _ k) rfl (hopening.follows (t j))
      trivial hsol (.inr ⟨hempty,_,hmeans⟩)
    refine ⟨fun q hq => hfine q.1 q.2 (hloop.mem_code.mpr hq),v,?_,hVv⟩
    exact List.singleton_inj.mp (hans.unique hmeans)
  obtain ⟨v,hv,hVv⟩ := (hentry i hi).2
  refine ⟨v,?_,hVv⟩
  have hbody := h.body fr hloop.frames hloop.before
  rw [hloop.queued, hloop.index, hloop.length, hloop.current, entryLines_items hloop.innerReadable 0 hm.size,
    List.append_assoc] at hbody
  rw [hbody] at hload
  obtain rfl := load_looped hloop.outerReadable hloop.innerReadable hm.size hloop.operand hload
  have hrun := run_looped hpasses hloop.outerScoped hloop.outerReadable hloop.innerScoped hloop.innerReadable
    hloop.vars hi (fun j hj q hq => (hentry j (by omega)).1 q hq) hv
  rwa [InLoop.params_store, InLoop.columns_store] at hrun

end Unrolls

/-- Code on whole columns and code on single entries agree: if the first one runs, the second one gives,
at each position, the entry of what the first one returns. -/
theorem emitEntry_agrees {s : Setting} (hm : m.Pointwise root ps os s.sizes n) (hg : s.graph = m.graph)
    (ho : s.options = { hoist := s.options.hoist, machine := s.options.machine }) {k k' : Nat}
    {body body' : String} {d d' : Draft}
    (hcolumns : Gives (m.emitBody s) { nextSerial := k } body d)
    (hentries : Gives (m.emitEntry s) { nextSerial := k' } body' d') {limits : Limits} {f f' : Function}
    (hload : load "squashed" (functionSource s.options body) limits = .ok f)
    (hload' : load "squashed" (functionSource s.options body') limits = .ok f') {a b V : Value}
    (hargs : m.Arguments os s.sizes n a b) (hrun : f.run a b = .ok V) {i : Nat} (hi : i < n) :
    ∃ v, (f'.cut (i + 1)).run a b = .ok v ∧ Value.Entry n i V v := by
  obtain ⟨g,o,sizes⟩ := s
  cases hg
  dsimp only at ho
  rw [ho] at hcolumns hentries hload hload'
  have hlt : root < m.graph.size := Graph.lt_size_of_kind (Graph.ne_identity_of_isNode hm.complete.isNode)
  obtain ⟨p,σ,t,hset,hstart,ha,hb,hmeans⟩ := means_of_run hm hcolumns hload hrun
  obtain ⟨p',start,final,ids,size,x,hset',hun⟩ := emitEntry_builds rfl hm.builtIn hm.complete.rooted hlt hentries
  obtain ⟨rfl,rfl⟩ := hstart.unique hun.starts (hset.trans hset'.symm)
  exact hun.run hm hset hargs hload' ha hb hmeans hi

/-- A column with a parameter added to its entries. -/
def shiftedColumn : Model where
  graph := ⟨#[⟨"x", .observable⟩, ⟨"p", .parameter 1 false⟩, ⟨"s", .sum [0, 1]⟩]⟩
  root := .object 2
  parameters := [.object 1]
  observables := [.object 0]

theorem pointwise_shiftedColumn : shiftedColumn.Pointwise 2 [1] [0] [(⟨0, "x"⟩, 2)] 2 where
  complete := complete_of_ordered (by decide +kernel) (by decide +kernel) rfl rfl rfl rfl (by decide) (by decide)
    (by simp [shiftedColumn, Graph.kind, Graph.vertex]) (by simp [shiftedColumn, Graph.kind, Graph.vertex])
    (by decide +kernel)
  builtIn := Graph.builtIn_of_isPlain (by decide +kernel)
  graph := by
    have hlt : ∀ {v}, shiftedColumn.graph.kind v ≠ .identity → v < 3 := Graph.lt_size_of_kind
    have hkinds : ∀ v < 3, (shiftedColumn.graph.kind v).isPointwise = true ∧
        (∀ template args, shiftedColumn.graph.kind v ≠ .formula template args) ∧
        ∀ x cs n, shiftedColumn.graph.kind v ≠ .polynomial x cs n := by
      intro v hv
      interval_cases v <;> simp [shiftedColumn, Graph.kind, Graph.vertex, Kind.isPointwise]
    refine ⟨fun v hv => (hkinds v hv).1,fun v template args hk => ?_,fun v x cs n hk => ?_⟩
    · exact absurd hk ((hkinds v (hlt (by simp [hk]))).2.1 template args)
    · exact absurd hk ((hkinds v (hlt (by simp [hk]))).2.2 x cs n)
  sizes := fun v hv _ => by
    cases List.mem_singleton.mp hv
    decide +kernel
  parameters := Nat.one_le_pow _ _ (by decide)
  observables := Nat.one_le_pow _ _ (by decide)
  size := lt_of_lt_of_le (by decide : 2 < 10 ^ 1) (Nat.pow_le_pow_right (by decide) (by decide))

theorem index_singleton {v V : Value} {i : Nat} (h : (Value.list [v]).index (.int i) = .ok V) : i = 0 ∧ V = v := by
  cases i with
  | zero =>
    cases h
    exact ⟨rfl,rfl⟩
  | succ i =>
    have hnone : Value.position? 1 ((i + 1 : Nat) : Int) = none := by
      rw [Value.position?, if_pos (Int.natCast_nonneg _)]
      simp
    have herror : (Value.list [v]).index (.int ((i + 1 : Nat) : Int)) = .error .index := by
      rw [Value.int, Value.index, List.length_singleton, hnone]
      rfl
    rw [herror] at h
    cases h

theorem arguments_shiftedColumn :
    shiftedColumn.Arguments [0] [(⟨0, "x"⟩, 2)] 2 (.list [.float 2]) (.list [.array (.ofList [1, 3])]) where
  parameters := fun _ _ h => ⟨_,(index_singleton h).2⟩
  columns := fun _ _ h => ⟨[1, 3],(index_singleton h).2,fun _ _ _ => Nat.le_refl 2⟩

theorem ok_of_toOption {ε α : Type} {r : Except ε α} {a : α} (h : r.toOption = some a) : r = .ok a := by
  cases r with
  | error e => cases h
  | ok b => rw [Option.some.inj h]

theorem emitEntry_agrees_shiftedColumn : ∃ f f' V,
    load "squashed" (functionSource {} "t0 = obs[0] + params[0]\nreturn t0\n") = .ok f ∧
    load "squashed" (functionSource {}
      "for loop_idx0 in range(2):\n    t0 = obs[0][loop_idx0] + params[0]\nreturn t0\n") = .ok f' ∧
    f.run (.list [.float 2]) (.list [.array (.ofList [1, 3])]) = .ok V ∧
    ∀ i < 2, ∃ v, (f'.cut (i + 1)).run (.list [.float 2]) (.list [.array (.ofList [1, 3])]) = .ok v ∧
      Value.Entry 2 i V v := by
  have hrun : ((load "squashed" (functionSource {} "t0 = obs[0] + params[0]\nreturn t0\n")).toOption.bind
      fun f => (f.run (.list [.float 2]) (.list [.array (.ofList [1, 3])])).toOption).isSome = true := by
    decide +kernel
  have hload' : (load "squashed" (functionSource {}
      "for loop_idx0 in range(2):\n    t0 = obs[0][loop_idx0] + params[0]\nreturn t0\n")).toOption.isSome = true := by
    decide +kernel
  obtain ⟨V,hV⟩ := Option.isSome_iff_exists.mp hrun
  obtain ⟨f,hload,hV⟩ := Option.bind_eq_some_iff.mp hV
  obtain ⟨f',hload'⟩ := Option.isSome_iff_exists.mp hload'
  have hcolumns : Gives (shiftedColumn.emitBody ⟨shiftedColumn.graph, {}, [(⟨0, "x"⟩, 2)]⟩) { nextSerial := 3 }
      "t0 = obs[0] + params[0]\nreturn t0\n" _ := Prod.ext (ok_of_toOption (by decide +kernel)) rfl
  have hentries : Gives (shiftedColumn.emitEntry ⟨shiftedColumn.graph, {}, [(⟨0, "x"⟩, 2)]⟩) { nextSerial := 3 }
      "for loop_idx0 in range(2):\n    t0 = obs[0][loop_idx0] + params[0]\nreturn t0\n" _ :=
    Prod.ext (ok_of_toOption (by decide +kernel)) rfl
  refine ⟨f,f',V,ok_of_toOption hload,ok_of_toOption hload',ok_of_toOption hV,fun i hi => ?_⟩
  exact emitEntry_agrees pointwise_shiftedColumn rfl rfl hcolumns hentries (ok_of_toOption hload)
    (ok_of_toOption hload') arguments_shiftedColumn (ok_of_toOption hV) hi

end Model

end FitCode
