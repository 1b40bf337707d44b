import FitCode.Function
import FitCode.Proofs.Lowering.Refine

/-! # The body of a generated function

Before the root is lowered, parameters are registered as entries of the first argument, scalar
observables as first entries of their columns, and vector observables get their columns. The body is
then the code of the sketch in which the lowering of the root ends, followed by a return statement.
-/
namespace FitCode

open Text Emit

namespace Plan

variable {p : Plan} {c c' : Draft} {σ : Sketch}

/-- The entries that a list of values adds to the results, numbered from `n`. -/
def Adds (g : Graph) (make : Nat → Operand) (test : Identity → Bool) (ds : List Datum) (n k : Nat)
    (e : Held) : Prop :=
  ∃ i d id, ds[i]? = some d ∧ g.identityOf d = .ok id ∧ test id = true ∧ id.serial = k ∧
    e = ⟨make (n + i), 0⟩

theorem adds_nil {g : Graph} {make : Nat → Operand} {test : Identity → Bool} {n k : Nat} {e : Held} :
    ¬ Adds g make test [] n k e := by
  rintro ⟨i,d,id,hd,_⟩
  simp at hd

theorem adds_cons {g : Graph} {make : Nat → Operand} {test : Identity → Bool} {d : Datum}
    {ds : List Datum} {id : Identity} (hid : g.identityOf d = .ok id) {n k : Nat} {e : Held} :
    Adds g make test (d :: ds) n k e ↔
      test id = true ∧ id.serial = k ∧ e = ⟨make n, 0⟩ ∨ Adds g make test ds (n + 1) k e := by
  constructor
  · rintro ⟨i,d',id',hd,hid',ht,hk,he⟩
    cases i with
    | zero =>
      cases hd
      rw [hid] at hid'
      cases hid'
      exact .inl ⟨ht,hk,he⟩
    | succ i => exact .inr ⟨i,d',id',hd,hid',ht,hk,by rw [he]; congr 2; omega⟩
  · rintro (⟨ht,hk,he⟩ | ⟨i,d',id',hd,hid',ht,hk,he⟩)
    · exact ⟨0,d,id,rfl,hid,ht,hk,he⟩
    · exact ⟨i + 1,d',id',hd,hid',ht,hk,by rw [he]; congr 2; omega⟩

theorem results_register {v k : Nat} {x : Operand} (hx : x.vars = []) (hv : σ.results v = none)
    {e : Held} : (σ.register v x).results k = some e ↔
      σ.results k = some e ∨ v = k ∧ e = ⟨x, 0⟩ := by
  have hd : σ.depthOf x.vars = 0 := by simp [hx, Sketch.depthOf]
  simp only [Sketch.register, hd]
  by_cases hk : v = k
  · subst hk
    simp [hv, eq_comm]
  · rw [Function.update_of_ne (Ne.symm hk)]
    simp [hk]

theorem toString_parameter (hp : p.Standard) (i : Nat) :
    p.options.paramsName ++ "[" ++ toString i ++ "]" = (Operand.parameter i).text := by
  rw [hp.names]
  rfl

theorem toString_first (hp : p.Standard) (i : Nat) :
    p.options.obsName ++ "[" ++ toString i ++ "][0]" = (Operand.first i).text := by
  rw [hp.names]
  rfl

theorem fits_parameters (hp : p.Standard) {ds : List Datum} {n : Nat} (hc : c.Fits p σ) {u : PUnit}
    (h : Gives ((ds.zipIdx n).forM fun (d, i) =>
      discard (p.register d (p.options.paramsName ++ "[" ++ toString i ++ "]") false)) c u c') :
    ∃ r, c'.Fits p { σ with results := r } ∧ ∀ k e, r k = some e ↔
      σ.results k = some e ∨ Adds p.graph .parameter (fun _ => true) ds n k e := by
  induction ds generalizing n c σ with
  | nil =>
    simp only [List.zipIdx_nil, List.forM, gives_pure] at h
    obtain ⟨_,rfl⟩ := h
    exact ⟨σ.results,hc,fun k e => by simp [adds_nil]⟩
  | cons d ds ih =>
    rw [List.zipIdx_cons, List.forM] at h
    obtain ⟨_,c₁,hd,h⟩ := gives_bind.mp h
    obtain ⟨t,hd⟩ := gives_discard.mp hd
    rw [toString_parameter hp] at hd
    obtain ⟨id,hid,hr,rfl,rfl⟩ := Setting.gives_register hd
    obtain ⟨r,hc',hr'⟩ := ih (hc.register id.serial (.parameter n)) h
    refine ⟨r,hc',fun k e => ?_⟩
    rw [hr', results_register rfl (hc.results_none hr), adds_cons hid, or_assoc]
    simp

/-- The columns of the vector observables in a list, numbered from `n`. -/
def columnsOf (g : Graph) (sizes : SizeTable) (ds : List Datum) (n : Nat) : IdMap Int :=
  (ds.zipIdx n).filterMap fun (d, i) => do
    let id ← (g.identityOf d).toOption
    if 1 < sizes.size id then some (id, (i : Int)) else none

theorem IdMap.put_of_get?_none {α : Type} {m : IdMap α} {id : Identity} (h : m.get? id = none)
    (a : α) : m.put id a = m ++ [(id, a)] := by
  induction m with
  | nil => rfl
  | cons e m ih =>
    rw [IdMap.get?, Option.map_eq_none_iff, List.find?_cons] at h
    cases hs : e.1.same id with
    | true => simp [hs] at h
    | false =>
      simp only [hs] at h
      rw [IdMap.put, hs, ih (by rw [IdMap.get?, h]; rfl)]
      rfl

theorem gives_assignColumn {d : Datum} {n : Nat} (hlt : ∀ e ∈ c.columns, e.2 < n) {u : PUnit}
    (h : Gives (p.assignColumn d (.int n)) c u c') :
    ∃ id, p.graph.identityOf d = .ok id ∧ c' = { c with columns := c.columns ++ [(id, (n : Int))] } := by
  simp only [Setting.assignColumn, Setting.identityOf, gives_ofExcept_bind, gives_get_bind] at h
  obtain ⟨id,hid,h⟩ := h
  cases hg : c.columns.get? id with
  | some m =>
    obtain ⟨e,he,rfl⟩ := Option.map_eq_some_iff.mp hg
    have hne := hlt e (List.mem_of_find?_eq_some he)
    have hb : ((n : Int) == e.2) = false := beq_false_of_ne (by omega)
    simp [hg, Datum.equalsInt, Kind.ofConversion, Except.mapError, hb] at h
  | none =>
    simp only [hg, gives_ofExcept_bind, Kind.ofConversion, Datum.toInt, Except.mapError,
      Except.ok.injEq, exists_eq_left', gives_modify, IdMap.put_of_get?_none hg] at h
    exact ⟨id,hid,h⟩

theorem columnsOf_cons {g : Graph} {sizes : SizeTable} {d : Datum} {ds : List Datum} {id : Identity}
    (hid : g.identityOf d = .ok id) (n : Nat) : columnsOf g sizes (d :: ds) n =
      (if 1 < sizes.size id then [(id, (n : Int))] else []) ++ columnsOf g sizes ds (n + 1) := by
  by_cases hn : 1 < sizes.size id
  · simp [columnsOf, hid, hn, Except.toOption]
  · simp [columnsOf, hid, hn, Except.toOption]

theorem fits_columns (hc : c.Fits p σ) (hf : σ.frames = []) (m : IdMap Int) :
    { c with columns := m }.Fits { p with columns := m } σ :=
  { hc with
    columns := rfl
    bindings := fun k => by
      have h := hc.bindings k
      simp only [Sketch.binding, Sketch.index?, hf, List.find?_nil, Option.map_none] at h ⊢
      exact h }

/-- Giving the vector observables columns and registering the others. -/
theorem fits_observables {s : Setting}
    (hs : s.options = { hoist := s.options.hoist, machine := s.options.machine })
    {ds : List Datum} {n : Nat} (hlt : ∀ e ∈ c.columns, 0 ≤ e.2 ∧ e.2 < n)
    (hc : c.Fits ⟨s, c.columns⟩ σ) (hf : σ.frames = []) {u : PUnit}
    (h : Gives ((ds.zipIdx n).forM fun (d, i) => do
      if 1 < s.sizes.size (← s.identityOf d) then s.assignColumn d (.int i)
      else discard (s.register d (s.options.obsName ++ "[" ++ toString i ++ "][0]") false)) c u c') :
    (∀ e ∈ c'.columns, 0 ≤ e.2) ∧
      c'.columns = c.columns ++ columnsOf s.graph s.sizes ds n ∧
      ∃ r, c'.Fits ⟨s, c'.columns⟩ { σ with results := r } ∧ ∀ k e, r k = some e ↔
        σ.results k = some e ∨
          Adds s.graph .first (fun id => s.sizes.size id ≤ 1) ds n k e := by
  induction ds generalizing n c σ with
  | nil =>
    simp only [List.zipIdx_nil, List.forM, gives_pure] at h
    obtain ⟨_,rfl⟩ := h
    exact ⟨fun e he => (hlt e he).1,by simp [columnsOf],σ.results,hc,fun k e => by simp [adds_nil]⟩
  | cons d ds ih =>
    rw [List.zipIdx_cons, List.forM] at h
    obtain ⟨_,c₁,hd,h⟩ := gives_bind.mp h
    simp only [Setting.identityOf, gives_ofExcept_bind] at hd
    obtain ⟨id,hid,hd⟩ := hd
    split at hd
    · rename_i hn
      obtain ⟨id',hid',rfl⟩ := gives_assignColumn (p := ⟨s, c.columns⟩) (fun e he => (hlt e he).2) hd
      rw [hid] at hid'
      cases hid'
      have hlt' : ∀ e ∈ c.columns ++ [(id, (n : Int))], 0 ≤ e.2 ∧ e.2 < ((n + 1 : Nat) : Int) := by
        intro e he
        rcases List.mem_append.mp he with he | he
        · have := hlt e he
          omega
        · cases List.mem_singleton.mp he
          omega
      obtain ⟨hpos,hcols,r,hc',hr⟩ := ih hlt' (fits_columns hc hf _) hf h
      refine ⟨hpos,?_,r,hc',fun k e => ?_⟩
      · rw [hcols, columnsOf_cons hid, if_pos hn, List.append_assoc]
      · rw [hr, adds_cons hid]
        simp [Nat.not_le.mpr hn]
    · rename_i hn
      obtain ⟨t,hd⟩ := gives_discard.mp hd
      have hp : Standard ⟨s, c.columns⟩ := ⟨hs,fun e he => (hlt e he).1⟩
      rw [toString_first hp] at hd
      obtain ⟨id',hid',hnone,_,hc₁⟩ := Setting.gives_register hd
      rw [hid] at hid'
      cases hid'
      have hcols₁ : c₁.columns = c.columns := by rw [hc₁]
      have hfit : c₁.Fits ⟨s, c₁.columns⟩ (σ.register id.serial (.first n)) := by
        rw [hc₁]
        exact hc.register id.serial (.first n)
      have hlt' : ∀ e ∈ c₁.columns, 0 ≤ e.2 ∧ e.2 < ((n + 1 : Nat) : Int) := by
        intro e he
        have := hlt e (hcols₁ ▸ he)
        omega
      obtain ⟨hpos,hcols,r,hc',hr⟩ := ih hlt' hfit hf h
      refine ⟨hpos,?_,r,hc',fun k e => ?_⟩
      · rw [hcols, hcols₁, columnsOf_cons hid, if_neg hn]
        rfl
      · rw [hr, results_register rfl (hc.results_none hnone), adds_cons hid, or_assoc]
        simp [Nat.not_lt.mp hn]

end Plan

namespace Model

variable {m : Model} {s : Setting} {c : Draft}

/-- The plan and the sketch with which the lowering of the root starts. -/
structure Starts (m : Model) (p : Plan) (σ : Sketch) : Prop where
  sketch : σ = { results := σ.results }
  columns : p.columns = Plan.columnsOf p.graph p.sizes m.observables 0
  results : ∀ k e, σ.results k = some e ↔
    Plan.Adds p.graph .parameter (fun _ => true) m.parameters 0 k e ∨
      Plan.Adds p.graph .first (fun id => p.sizes.size id ≤ 1) m.observables 0 k e

theorem fits_start (s : Setting) (n : Nat) : Draft.Fits ⟨s, []⟩ { nextSerial := n } {} where
  columns := rfl
  results := .empty
  arrays := .empty
  bindings := fun k => by simp [Sketch.binding, Sketch.index?]
  stack := .nil
  body := by simp [Frame.lines]
  temps := rfl
  arrayNames := rfl
  indices := rfl
  taken := by simp
  depths := fun _ => rfl
  others := fun _ _ => rfl
  preamble := rfl

theorem fits_bindArguments
    (hs : s.options = { hoist := s.options.hoist, machine := s.options.machine }) {n : Nat} {u : PUnit}
    (h : Gives (m.bindArguments s) { nextSerial := n } u c) :
    ∃ p σ, p.toSetting = s ∧ p.Standard ∧ m.Starts p σ ∧ c.Fits p σ := by
  have hp : Plan.Standard ⟨s, []⟩ := ⟨hs,by simp⟩
  obtain ⟨_,c₁,hparams,hobs⟩ := gives_bind.mp h
  obtain ⟨r,hc₁,hr⟩ := Plan.fits_parameters hp (fits_start s n) hparams
  have hcols : c₁.columns = [] := hc₁.columns
  obtain ⟨hpos,hcols',r',hc,hr'⟩ := Plan.fits_observables hs
    (by simp [hcols]) (by rw [hcols]; exact hc₁) rfl hobs
  refine ⟨⟨s, c.columns⟩,_,rfl,⟨hs,hpos⟩,⟨rfl,?_,fun k e => ?_⟩,hc⟩
  · rw [hcols', hcols]
    rfl
  · rw [hr', hr]
    simp

theorem render_return (indentSize : Int) (expr : String) :
    Line.render indentSize ⟨0, "return " ++ expr⟩ = "return " ++ expr := by
  have hne : ("return " ++ expr == "") = false := by
    refine beq_false_of_ne fun h => ?_
    have := congrArg String.toList h
    simp at this
  simp [Line.render, hne]

theorem renderAll_append (indentSize : Int) (ls : List Line) (l : Line) :
    Line.renderAll indentSize (ls ++ [l]) =
      Line.renderAll indentSize ls ++ l.render indentSize ++ "\n" := by
  simp [Line.renderAll, String.join_append, String.append_assoc]

theorem gives_finish {c' : Draft} (hpre : c.preamble = "") {expr text : String}
    (h : Gives (s.finish expr) c text c') : c'.body = c.body ∧
      text = Line.renderAll s.options.indentSize (c.body ++ [⟨0, "return " ++ expr⟩]) := by
  simp only [Setting.finish, gives_get_bind] at h
  cases hf : c.finished with
  | true => simp [hf] at h
  | false =>
    cases hi : c.innermost? with
    | some l => simp [hf, hi] at h
    | none =>
      simp only [hf, hi, hpre, Bool.false_eq_true, if_false, gives_set_bind,
        gives_ofExcept_bind, gives_pure] at h
      obtain ⟨body,hbody,rfl,rfl⟩ := h
      refine ⟨rfl,?_⟩
      have hprint : body = Line.renderAll s.options.indentSize c.body := by
        rw [Options.printed] at hbody
        split at hbody
        case isFalse => cases hbody
        rw [Listing.print] at hbody
        cases hfault : c.body.indentFault? s.options.indentSize with
        | some f => simp [hfault] at hbody
        | none =>
          rw [hfault] at hbody
          exact (Except.ok.inj hbody).symm
      rw [renderAll_append, render_return, ← hprint]
      simp [String.append_assoc]

/-- The body is the code of the final sketch and a return statement. -/
theorem emitBody_builds
    (hs : s.options = { hoist := s.options.hoist, machine := s.options.machine }) (hg : s.graph.BuiltIn)
    {root : Nat} (hroot : m.root = .object root) (hlt : root < s.graph.size) {n : Nat}
    {body : String} (h : Gives (m.emitBody s) { nextSerial := n } body c) :
    ∃ p σ₀ σ x, p.toSetting = s ∧ p.Standard ∧ m.Starts p σ₀ ∧
      Builds p (.ask .result root x) σ₀ σ ∧ c.body = Item.linesAll 0 σ.current ∧
      body = Line.renderAll 4 (c.body ++ [⟨0, "return " ++ x.text⟩]) := by
  obtain ⟨_,c₁,hbind,h⟩ := gives_bind.mp h
  obtain ⟨t,c₂,hreq,h⟩ := gives_bind.mp h
  obtain ⟨p,σ₀,rfl,hp,hstart,hc₁⟩ := fits_bindArguments hs hbind
  rw [hroot] at hreq
  obtain ⟨x,σ,rfl,hb,hc₂,hstay⟩ := nested_refines hp hg _ hlt hc₁ hreq
  have hframes₀ : σ₀.frames = [] := by rw [hstart.sketch]
  have hframes : σ.frames = [] := by
    have hd := hc₂.depth_eq
    rw [Draft.depth, hstay.stack] at hd
    have hd₁ := hc₁.depth_eq
    rw [Sketch.depth, hframes₀] at hd₁
    exact List.eq_nil_of_length_eq_zero (hd.symm.trans hd₁)
  have hbody : c₂.body = Item.linesAll 0 σ.current := by
    rw [hc₂.body, hframes]
    rfl
  obtain ⟨hc,htext⟩ := gives_finish hc₂.preamble h
  refine ⟨p,σ₀,σ,x,rfl,hp,hstart,hb,by rw [hc, hbody],?_⟩
  rw [htext, hc, hp.names]
  rfl

/-- What a model that generates code went through. -/
structure Generates (m : Model) (hoist : Bool) (machine : Machine) (n : Nat) (gen : Generated) (p : Plan)
    (start final : Sketch) (c : Draft) (root : Nat) (x : Operand) : Prop where
  graph : p.graph = m.graph
  options : p.options = { hoist, machine }
  sizes : p.sizes = gen.sizes
  standard : p.Standard
  starts : m.Starts p start
  builds : Builds p (.ask .result root x) start final
  body : Gives (m.emitBody p.toSetting) { nextSerial := n } gen.body c
  code : c.body = Item.linesAll 0 final.current
  printed : gen.body = Line.renderAll 4 (c.body ++ [⟨0, "return " ++ x.text⟩])
  source : gen.source = header ++ functionSource { hoist, machine } gen.body

theorem gives_generate {o : Options} {source : SizeSource} {n : Nat} {gen : Generated}
    (h : m.generate o source n = .ok gen) : m.sizeTable o.machine.levels source = .ok gen.sizes ∧
      gen.source = header ++ functionSource o gen.body ∧
      ∃ c, Gives (m.emitBody ⟨m.graph, o, gen.sizes⟩) { nextSerial := n } gen.body c := by
  rw [generate] at h
  cases hsizes : m.sizeTable o.machine.levels source with
  | error f => simp [hsizes, bind, Except.bind] at h
  | ok sizes =>
    rcases hrun : (m.emitBody ⟨m.graph, o, sizes⟩).outcome { nextSerial := n } with ⟨r,c⟩
    have hrun' : ((m.emitBody ⟨m.graph, o, sizes⟩).run.run { nextSerial := n }) = (r, c) := hrun
    cases r with
    | error f => simp [hsizes, hrun', bind, Except.bind] at h
    | ok body =>
      cases hlen : o.padFault? with
      | some f => simp [hsizes, hrun', hlen, bind, Except.bind] at h
      | none =>
        cases hps : m.parameters.mapM m.nameOf with
        | error f => simp [hsizes, hrun', hps, hlen, bind, Except.bind] at h
        | ok ps =>
          cases hos : m.observables.mapM m.nameOf with
          | error f => simp [hsizes, hrun', hps, hos, hlen, bind, Except.bind] at h
          | ok os =>
            simp [hsizes, hrun', hps, hos, hlen, bind, Except.bind] at h
            subst h
            exact ⟨rfl,rfl,c,hrun⟩

theorem generate_builds (hg : m.graph.BuiltIn) {root : Nat} (hroot : m.root = .object root)
    (hlt : root < m.graph.size) {hoist : Bool} {machine : Machine} {source : SizeSource} {n : Nat}
    {gen : Generated} (h : m.generate { hoist, machine } source n = .ok gen) :
    m.sizeTable machine.levels source = .ok gen.sizes ∧
      ∃ p start final c x, Generates m hoist machine n gen p start final c root x := by
  obtain ⟨hsizes,hsource,c,hrun⟩ := gives_generate h
  obtain ⟨p,start,final,x,hp,hstd,hstart,hb,hbody,hprint⟩ :=
    emitBody_builds (s := ⟨m.graph, { hoist, machine }, gen.sizes⟩) rfl hg hroot hlt hrun
  refine ⟨hsizes,p,start,final,c,x,?_⟩
  exact
    { graph := by rw [hp]
      options := by rw [hp]
      sizes := by rw [hp]
      standard := hstd
      starts := hstart
      builds := hb
      body := by rw [hp]; exact hrun
      code := hbody
      printed := hprint
      source := hsource }

end Model

end FitCode
