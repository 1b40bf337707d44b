import FitCode.Proofs.Graph.Typed
import FitCode.Proofs.Lowering.Means

/-! # Lowered code computes the values of the graph

Take values of all names that solve the bindings of the code. If the names have values, then what is
lowered is the value of the graph there. And if the graph has a value, the names have values.
-/
namespace FitCode

open Numeric Program

namespace Sketch

variable {σ σ' : Sketch} {s : Store}

theorem Solves.mono (h : σ'.Solves s) (hg : σ.Grows σ') : σ.Solves s :=
  fun x e hx => h x e (hg.code_subset _ hx)

theorem Fine.mono (h : σ'.Fine s) (hg : σ.Grows σ') : σ.Fine s :=
  fun x e hx => h x e (hg.code_subset _ hx)

theorem Fine.of_blocks (hb : σ'.blocks = σ.blocks) (h : σ.Fine s) : σ'.Fine s := by
  intro x e hx
  rw [code, hb] at hx
  exact h x e hx

theorem Fine.bindAt (h : σ.Fine s) {x : Var} {d : Nat} (hd : d ≤ σ.depth) {e : Compound} {w : Value}
    (hx : s.vars x = .ok w) : (σ.bindAt x d e).Fine s := by
  intro y c hy
  rcases (mem_code_bindAt hd _).mp hy with hy | hy
  · exact h y c hy
  · cases hy
    exact ⟨w,hx⟩

end Sketch

theorem Plan.iterationDepth_leaf {p : Plan} {σ : Sketch} {v d : Nat} (hk : (p.graph.kind v).parts? = some [])
    (hb : σ.index? v = none) (hcolumns : ∀ e ∈ p.columns, (p.graph.kind e.1.serial).members? = none)
    (hd : p.iterationDepth σ v = .ok d) : d = 0 := by
  have hleads : ∀ w, p.graph.Leads true v w → v = w := by
    intro w hw
    cases hw with
    | refl => rfl
    | step hu _ _ => simp [Graph.links, Graph.operands?, hk] at hu
  have hinputs : ∀ ids, p.inputs v = .ok ids → ∀ id ∈ ids, id.serial = v := by
    intro ids hids id hid
    obtain ⟨es,hes,hids⟩ := Except.bind_eq_ok_iff.mp hids
    cases hids
    obtain ⟨hok,rfl⟩ := List.filterM_eq_ok.mp hes
    obtain ⟨e,he,rfl⟩ := List.mem_map.mp hid
    obtain ⟨hmem,hreach⟩ := List.mem_filter.mp he
    obtain ⟨b,hb⟩ := hok e hmem
    have htrue : b = true := by simpa [hb, Except.toOption] using hreach
    exact (hleads _ ((Graph.reaches_eq (hcolumns e hmem) hb).mp htrue)).symm
  have hfree : ∀ f ∈ σ.frames, v ∉ f.vars := by
    rw [Sketch.index?, Option.map_eq_none_iff, List.find?_eq_none] at hb
    exact fun f hf hv => hb f hf (by simpa using hv)
  simp only [iterationDepth, pure, Except.pure, bind, Except.bind] at hd
  split at hd
  · exact (Except.ok.inj hd).symm
  · split at hd
    · cases hd
    · split at hd
      · exact (Except.ok.inj hd).symm
      · split at hd
        · cases hd
        · rename_i ids hids
          have hdrop : (σ.frames.dropWhile fun f => !f.vars.any fun w => ids.any (·.serial == w)) = [] := by
            rw [List.dropWhile_eq_nil_iff]
            intro f hf
            simp only [Bool.not_eq_true', List.any_eq_false]
            intro w hw hany
            obtain ⟨id,hid,heq⟩ := List.any_eq_true.mp hany
            rw [← beq_iff_eq.mp heq, hinputs ids hids id hid] at hw
            exact hfree f hf hw
          rw [hdrop] at hd
          exact (Except.ok.inj hd).symm

namespace Sketch

/-- What a lowering keeps: the leaves that are bound, and that whatever is cached stands for the value of
its vertex. -/
structure Follows (p : Plan) (σ σ₁ : Sketch) (s : Store) : Prop where
  leaves : ∀ v e, σ₁.results v = some e → σ.results v = some e
  results : ∀ v e, σ.results v = some e → σ₁.Denotes p s (.one .result v) [e.operand.value s]
  arrays : ∀ v e, σ.arrays v = some e → σ₁.Denotes p s (.one .argument v) [e.operand.value s]

variable {p : Plan} {σ σ₁ : Sketch} {s : Store} {v : Nat}

theorem leaf?_of_binding (ho : σ₁.Opening p) {x : Operand} (hb : σ₁.binding p v = some x) :
    σ₁.leaf? p v = some x := by
  rw [leaf?, ho.bindings v x hb, hb]
  rfl

theorem leaf?_of_column (ho : σ₁.Opening p) {c : Nat} (hb : σ₁.binding p v = none)
    (hc : p.column? v = some c) : σ₁.leaf? p v = some (.column c) := by
  rw [leaf?, (ho.columns v c hc).2, hb, hc]
  rfl

theorem Opening.members_of_column (ho : σ₁.Opening p) {e : Identity × Int} (he : e ∈ p.columns) :
    (p.graph.kind e.1.serial).members? = none := by
  have hsome : (p.columns.get? (p.graph.idOf e.1.serial)).isSome = true := by
    rw [IdMap.get?, Option.isSome_map, List.find?_isSome]
    exact ⟨e,he,by simp [Identity.same, Graph.idOf]⟩
  obtain ⟨c,hc⟩ := Option.isSome_iff_exists.mp hsome
  rw [(ho.columns e.1.serial c.toNat (by rw [Plan.column?, hc]; rfl)).1]
  rfl

theorem Opening.follows (ho : σ.Opening p) (s : Store) : σ.Follows p σ s where
  leaves := fun v e he => he
  results := fun v e he => .given (by rw [base, leaf?, he]; rfl)
  arrays := fun v e he => by
    rw [ho.arrays v] at he
    cases he

namespace Follows

/-- A vertex that is lowered is no bound leaf, unless it is a vector observable. -/
theorem base_none (h : σ.Follows p σ₁ s) (ho : σ₁.Opening p) (hb : σ₁.binding p v = none)
    (hr : σ.results v = none) (hk : p.graph.kind v ≠ .observable) : σ₁.base p s v = none := by
  have hfree : σ₁.results v = none := by
    cases hr₁ : σ₁.results v with
    | none => rfl
    | some e =>
      rw [h.leaves v e hr₁] at hr
      cases hr
  have hcolumn : p.column? v = none := by
    cases hc : p.column? v with
    | none => rfl
    | some c => exact absurd (ho.columns v c hc).1 hk
  rw [base, leaf?, hfree, hb, hcolumn]
  rfl

theorem register (h : σ.Follows p σ₁ s) (hr : σ.results v = none) {x : Operand}
    (hx : σ₁.Denotes p s (.one .result v) [x.value s]) : (σ.register v x).Follows p σ₁ s where
  arrays := h.arrays
  leaves := fun k e he => by
    have hk := h.leaves k e he
    have hne : k ≠ v := by
      rintro rfl
      rw [hr] at hk
      cases hk
    exact (Function.update_of_ne hne _ _).trans hk
  results := fun k e he => by
    by_cases hk : k = v
    · subst hk
      simp only [Sketch.register, Function.update_self, Option.some.injEq] at he
      subst he
      exact hx
    · exact h.results k e ((Function.update_of_ne hk _ _).symm.trans he)

theorem bindAt (h : σ.Follows p σ₁ s) (x : Var) (d : Nat) (e : Compound) :
    (σ.bindAt x d e).Follows p σ₁ s := by
  refine ⟨?_,?_,?_⟩
  · rw [results_bindAt]
    exact h.leaves
  · rw [results_bindAt]
    exact h.results
  · rw [arrays_bindAt]
    exact h.arrays

theorem setResultAside (h : σ.Follows p σ₁ s) (ho : σ₁.Opening p) (hb : σ.binding p v = none) {e : Held}
    (hr : σ.results v = some e) {d : Nat} (hd : p.iterationDepth σ v = .ok d) (hlt : e.depth < d) :
    (σ.setResultAside v e d).Follows p σ₁ s where
  arrays := h.arrays
  results := fun k e he => h.results k e (eq_some_of_update_none he)
  leaves := fun k e' he => by
    have hne : k ≠ v := by
      rintro rfl
      have hindex : σ.index? k = none := Option.map_eq_none_iff.mp hb
      have hzero := Plan.iterationDepth_leaf (ho.leaves k e' he) hindex (fun _ => ho.members_of_column) hd
      omega
    exact (Function.update_of_ne hne _ _).trans (h.leaves k e' he)

theorem setArrayAside (h : σ.Follows p σ₁ s) (v : Nat) (e : Held) (d : Nat) :
    (σ.setArrayAside v e d).Follows p σ₁ s where
  leaves := h.leaves
  results := h.results
  arrays := fun k e he => h.arrays k e (eq_some_of_update_none he)

end Follows

end Sketch

namespace Task

/-- The graph has the values that a task is about. -/
def Wanted (M : Demand → List (Outcome Value) → Prop) : Task → Prop
  | ask r v _ => ∃ o, M (.one r v) [o]
  | askAll r vs _ => ∃ os, M (.all r vs) os
  | lowered v => ∃ o, M (.one .result v) [o]
  | emitted v => ∃ o, M (.one .result v) [o]

/-- The operands that a task gives have the values of the graph. -/
def Answers (M : Demand → List (Outcome Value) → Prop) (s : Store) : Task → Prop
  | ask r v x => M (.one r v) [x.value s]
  | askAll r vs xs => M (.all r vs) (xs.map (Operand.value s))
  | _ => True

/-- A vertex that is lowered is none that an open loop iterates, and it has no result. -/
def IsDue (p : Plan) (σ₁ σ : Sketch) : Task → Prop
  | lowered v => σ₁.binding p v = none ∧ σ.results v = none
  | emitted v => σ₁.binding p v = none ∧ σ.results v = none
  | _ => True

end Task

namespace Sketch

variable {p : Plan} {σ σ₁ : Sketch} {s : Store} {v : Nat}

/-- Binding the expression of a node. Either its name is known to have a value, or the node is. -/
theorem Follows.save (h : σ.Follows p σ₁ s) (hb : σ₁.base p s v = none) {r : Role} {vs : List Nat}
    {make : List Operand → Compound} (hk : (p.graph.kind v).combined? = some (r, vs, make))
    {xs : List Operand} (hxs : σ₁.Denotes p s (.all r vs) (xs.map (Operand.value s)))
    (hr : σ.results v = none) (hfine : σ.Fine s) (hs : (σ.save p v (make xs)).Solves s)
    (hmode : (σ.save p v (make xs)).Fine s ∨ ∃ o, σ₁.Denotes p s (.one .result v) [o]) :
    (σ.save p v (make xs)).Follows p σ₁ s ∧ (σ.save p v (make xs)).Fine s := by
  have hle : σ.takeTemp.home p (make xs).vars ≤ σ.depth := home_le p σ.takeTemp (make xs).vars
  have hcode : (σ.save p v (make xs)).code = (σ.bindTemp p (make xs)).code := rfl
  have hmem : .assign (.temp σ.temps) (make xs) ∈ (σ.save p v (make xs)).code := by
    rw [hcode, bindTemp_eq]
    exact (mem_code_bindAt hle _).mpr (.inr rfl)
  have hvalue : s.vars (.temp σ.temps) = (p.graph.kind v).combine (xs.map (Operand.value s)) := by
    rw [hs _ _ hmem]
    exact Kind.value_make hk s xs
  have hex : ∃ w, s.vars (.temp σ.temps) = .ok w := by
    rcases hmode with hf | ⟨o,ho⟩
    · exact hf _ _ hmem
    · obtain ⟨us,w,hus,hw,-⟩ := ho.combined_inv hb hk
      exact ⟨w,by rw [hvalue, hxs.unique hus, hw]⟩
  obtain ⟨w,hw⟩ := hex
  have hmeans : σ₁.Denotes p s (.one .result v) [s.vars (.temp σ.temps)] := by
    rw [hw]
    exact .combined hb hk hxs (hvalue.symm.trans hw)
  have hresult : (σ.bindTemp p (make xs)).results v = none := by
    rw [bindTemp_eq, results_bindAt]
    exact hr
  have hbind : (σ.bindTemp p (make xs)).Follows p σ₁ s ∧ (σ.bindTemp p (make xs)).Fine s := by
    rw [bindTemp_eq]
    exact ⟨h.bindAt _ _ _,hfine.bindAt hle hw⟩
  exact ⟨hbind.1.register hresult hmeans,hbind.2⟩

theorem Follows.bindArray (h : σ.Follows p σ₁ s) {ms : List Nat}
    (hk : (p.graph.kind v).members? = some ms) {xs : List Operand}
    (hxs : σ₁.Denotes p s (.all .result ms) (xs.map (Operand.value s)))
    (hfine : σ.Fine s) (hs : (σ.bindArray p v xs).Solves s)
    (hmode : (σ.bindArray p v xs).Fine s ∨ ∃ o, σ₁.Denotes p s (.one .argument v) [o]) :
    (σ.bindArray p v xs).Follows p σ₁ s ∧ (σ.bindArray p v xs).Fine s ∧
      σ₁.Denotes p s (.one .argument v) [s.vars (.array σ.arrayNames)] := by
  have hle := home_le p σ (Compound.array xs).vars
  have hcode : (σ.bindArray p v xs).code =
      (σ.bindAt (.array σ.arrayNames) (σ.home p (Compound.array xs).vars) (.array xs)).code := by
    rw [Sketch.bindArray, introduce_array]
    rfl
  have hmem : .assign (.array σ.arrayNames) (.array xs) ∈ (σ.bindArray p v xs).code := by
    rw [hcode]
    exact (mem_code_bindAt hle _).mpr (.inr rfl)
  have hvalue : s.vars (.array σ.arrayNames) = arrayOf (xs.map (Operand.value s)) := hs _ _ hmem
  have hex : ∃ w, s.vars (.array σ.arrayNames) = .ok w := by
    rcases hmode with hf | ⟨o,ho⟩
    · exact hf _ _ hmem
    · obtain ⟨us,w,hus,hw,-⟩ := ho.collection_inv hk
      exact ⟨w,by rw [hvalue, hxs.unique hus, hw]⟩
  obtain ⟨w,hw⟩ := hex
  have hmeans : σ₁.Denotes p s (.one .argument v) [s.vars (.array σ.arrayNames)] := by
    rw [hw]
    exact .collection hk hxs (hvalue.symm.trans hw)
  have hbind := h.bindAt (.array σ.arrayNames) (σ.home p (Compound.array xs).vars) (.array xs)
  have hfine' : (σ.bindArray p v xs).Fine s := by
    intro x e hx
    rw [hcode] at hx
    exact hfine.bindAt hle hw x e hx
  refine ⟨?_,hfine',hmeans⟩
  rw [Sketch.bindArray, introduce_array]
  refine ⟨hbind.leaves,hbind.results,fun k e he => ?_⟩
  by_cases hkv : k = v
  · subst hkv
    simp only [Function.update_self, Option.some.injEq] at he
    subst he
    exact hmeans
  · simp only [Function.update_of_ne hkv] at he
    exact hbind.arrays k e he

end Sketch

namespace Builds

variable {p : Plan} {t : Task} {σ σ' σ₁ : Sketch} {s : Store} {A : Var → Prop}

/-- Code that is lowered from a pointwise graph computes the values of the graph, if its names have
values; and they do if the graph has the values that are asked for. -/
theorem follows (h : Builds p t σ σ') (hp : p.Pointwise) (ho : σ₁.Opening p) (hs : σ.Sound A)
    (hl : σ.loops = σ₁.loops) (hf : σ.Follows p σ₁ s) (hu : t.IsDue p σ₁ σ) (hsol : σ'.Solves s)
    (hmode : σ'.Fine s ∨ σ.Fine s ∧ t.Wanted (σ₁.Denotes p s)) :
    σ'.Follows p σ₁ s ∧ σ'.Fine s ∧ t.Answers (σ₁.Denotes p s) s := by
  induction h with
  | @bound σ v x hb =>
    rw [Sketch.binding_eq_of_loops hl] at hb
    exact ⟨hf,hmode.elim id And.left,.given (by rw [Sketch.base, Sketch.leaf?_of_binding ho hb]; rfl)⟩
  | cached _ hr _ _ => exact ⟨hf,hmode.elim id And.left,hf.results _ _ hr⟩
  | missing hb hr _ hr' ih =>
    rw [Sketch.binding_eq_of_loops hl] at hb
    obtain ⟨hf',hfine,_⟩ := ih hs hl hf ⟨hb,hr⟩ hsol hmode
    exact ⟨hf',hfine,hf'.results _ _ hr'⟩
  | @stale σ σ' v e d e' hb hr hd hlt _ hr' ih =>
    have haside := hf.setResultAside ho hb hr hd hlt
    rw [Sketch.binding_eq_of_loops hl] at hb
    have hmode' := hmode.imp_right
      (And.imp_left (Sketch.Fine.of_blocks (Sketch.blocks_setResultAside σ v e d)))
    obtain ⟨hf',hfine,_⟩ := ih (hs.setResultAside hr hlt (Plan.iterationDepth_le hd))
      ((Sketch.loops_setResultAside σ v e d).trans hl) haside
      ⟨hb,Function.update_self ..⟩ hsol hmode'
    exact ⟨hf',hfine,hf'.results _ _ hr'⟩
  | here _ _ ih => exact ih hs hl hf hu hsol hmode
  | lifted hlift _ _ =>
    rw [hp.isLiftable] at hlift
    cases hlift
  | literal hk hr =>
    have hbase := hf.base_none ho hu.1 hr (by intro hobs; rw [hobs] at hk; cases hk)
    exact ⟨hf.register hr (.literal hbase hk),hmode.elim id And.left,trivial⟩
  | column hk hc hr =>
    have hleaf := Sketch.leaf?_of_column ho hu.1 hc
    exact ⟨hf.register hr (.given (by rw [Sketch.base, hleaf]; rfl)),hmode.elim id And.left,trivial⟩
  | @combined σ σ' v r vs make xs hk hxs _ hr ih =>
    have hgrow := Sketch.grows_save p σ' v (make xs)
    have hbase := hf.base_none ho hu.1 hu.2 (by intro hobs; rw [hobs] at hk; cases hk)
    obtain ⟨hf',hfine,hans⟩ := ih hs hl hf trivial (hsol.mono hgrow)
      (hmode.imp (fun hfine => hfine.mono hgrow) (And.imp_right (Means.members_of_combined hbase hk)))
    obtain ⟨hf'',hfine'⟩ := hf'.save hbase hk hans hr hfine hsol (hmode.imp_right And.right)
    exact ⟨hf'',hfine',trivial⟩
  | added hk _ _ _ _ =>
    rw [hp.graph.reduced?] at hk
    cases hk
  | looped hk _ _ _ _ _ _ =>
    rw [hp.graph.reduced?] at hk
    cases hk
  | nil => exact ⟨hf,hmode.elim id And.left,.nil⟩
  | cons hx hxs ih ihs =>
    obtain ⟨hs₁,_,_⟩ := hx.sound hs
    obtain ⟨_,hgrow,_⟩ := hxs.sound hs₁
    obtain ⟨hf₁,hfine₁,hans₁⟩ := ih hs hl hf (by trivial) (hsol.mono hgrow)
      (hmode.imp (fun hfine => hfine.mono hgrow) (And.imp_right Means.head_of_cons))
    obtain ⟨hf₂,hfine₂,hans₂⟩ := ihs hs₁ ((hx.loops_eq hp).trans hl) hf₁ trivial hsol
      (hmode.imp_right fun hw => ⟨hfine₁,Means.tail_of_cons hw.2⟩)
    exact ⟨hf₂,hfine₂,.cons hans₁ hans₂⟩
  | node hk _ ih =>
    obtain ⟨hf',hfine,hans⟩ := ih hs hl hf trivial hsol
      (hmode.imp_right (And.imp_right (Exists.imp fun _ => Means.node_inv hk)))
    exact ⟨hf',hfine,.node hk hans⟩
  | kept _ ha _ _ => exact ⟨hf,hmode.elim id And.left,hf.arrays _ _ ha⟩
  | @listed σ σ' v ms xs hk _ hxs ih =>
    have hgrow := Sketch.grows_bindArray p σ' v xs
    obtain ⟨hf',hfine,hans⟩ := ih hs hl hf trivial (hsol.mono hgrow)
      (hmode.imp (fun hfine => hfine.mono hgrow) (And.imp_right (Means.members_of_collection hk)))
    exact hf'.bindArray hk hans hfine hsol (hmode.imp_right And.right)
  | @listedAgain σ σ' v ms xs e d hk ha hd hlt hxs ih =>
    have hgrow := Sketch.grows_bindArray p σ' v xs
    have hmode' := hmode.imp (fun hfine => hfine.mono hgrow)
      (And.imp (Sketch.Fine.of_blocks (Sketch.blocks_setArrayAside σ v e d)) (Means.members_of_collection hk))
    obtain ⟨hf',hfine,hans⟩ := ih (hs.setArrayAside ha hlt (Plan.iterationDepth_le hd))
      ((Sketch.loops_setArrayAside σ v e d).trans hl) (hf.setArrayAside v e d) trivial (hsol.mono hgrow) hmode'
    exact hf'.bindArray hk hans hfine hsol (hmode.imp_right And.right)

end Builds

end FitCode
