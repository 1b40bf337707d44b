import FitCode.Proofs.Graph.Dependence
import FitCode.Proofs.Lowering.Answered
import FitCode.Proofs.Lowering.LoopSteps

/-! # Lowering builds a sketch

Every successful lowering of a built-in node in a draft that fits a sketch is matched by a derivation
of `Builds`, and the draft it leaves fits the sketch it ends in. Graphs are assumed to hold built-in
nodes and collections of them only, with plain one-line templates that mention no introduced name;
cycles are not excluded.
-/
namespace FitCode

open Text Emit

/-- A template that is plain, of one line and mentions no introduced name. -/
def Text.IsClean (template : String) : Prop :=
  ∃ o, outline? template = some o ∧ .inl '\n' ∉ o ∧ ∀ x : Var, x.text ∉ o.names

namespace Kind

/-- A node of the library, or a collection. -/
def isBuiltIn : Kind → Bool
  | custom .. => false
  | script .. => false
  | identity => false
  | _ => true

end Kind

/-- Built-in nodes and collections with clean templates, and no edge that leads nowhere. -/
structure Graph.BuiltIn (g : Graph) : Prop where
  kinds : ∀ v < g.size, (g.kind v).isBuiltIn = true
  targets : ∀ v < g.size, ∀ w ∈ (g.kind v).targets, w < g.size
  templates : ∀ v template args, g.kind v = .formula template args → IsClean template

/-- A test for templates: none of the names in it looks like an introduced one. -/
def Text.looksClean (template : String) : Bool :=
  (outline? template).any fun o => o.all (·.getLeft? != some '\n') &&
    o.names.all fun n => !n.toList.getLast?.any Char.isDigit

theorem Text.isClean_of_looksClean {template : String} (h : looksClean template = true) :
    IsClean template := by
  cases ho : outline? template with
  | none => simp [looksClean, ho] at h
  | some o =>
    simp only [looksClean, ho, Option.any_some, Bool.and_eq_true, Bool.not_eq_true',
      List.all_eq_true] at h
    exact ⟨o,ho,fun hn => by simpa using h.1 _ hn,fun x hx => x.text_ne (h.2 _ hx) rfl⟩

/-- A test for graphs of built-in nodes. -/
def Graph.isPlain (g : Graph) : Bool :=
  g.vertices.toList.all fun v => v.kind.isBuiltIn && v.kind.targets.all (· < g.size) &&
    match v.kind with
    | .formula template _ => looksClean template
    | _ => true

theorem Graph.builtIn_of_isPlain {g : Graph} (h : g.isPlain = true) : g.BuiltIn := by
  have hv : ∀ v < g.size, ∃ x ∈ g.vertices.toList, g.kind v = x.kind := by
    intro v hv
    have hget : g.vertices[v]? = some (g.vertices[v]) := Array.getElem?_eq_getElem hv
    exact ⟨g.vertices[v],Array.getElem_mem_toList hv,by rw [Graph.kind, Graph.vertex, hget]; rfl⟩
  simp only [isPlain, List.all_eq_true, Bool.and_eq_true, decide_eq_true_eq] at h
  refine ⟨fun v hlt => ?_,fun v hlt w hw => ?_,fun v template args hk => ?_⟩
  · obtain ⟨x,hx,hk⟩ := hv v hlt
    rw [hk]
    exact (h x hx).1.1
  · obtain ⟨x,hx,hk⟩ := hv v hlt
    rw [hk] at hw
    exact (h x hx).1.2 w hw
  · by_cases hlt : v < g.size
    · obtain ⟨x,hx,hkx⟩ := hv v hlt
      have hc := (h x hx).2
      rw [← hkx, hk] at hc
      exact isClean_of_looksClean hc
    · have hnone : g.vertices[v]? = none := by simpa [Graph.size] using hlt
      simp [Graph.kind, Graph.vertex, hnone] at hk

theorem Graph.BuiltIn.datum_eq {g : Graph} (hg : g.BuiltIn) {v : Nat} (hv : v < g.size) :
    g.datum v = .object v := by
  have hk := hg.kinds v hv
  rw [Graph.datum]
  cases h : g.kind v with
  | identity => rw [h] at hk; cases hk
  | _ => rfl

variable {p : Plan} {c c' : Draft} {σ : Sketch}

/-- Asking a lowerer for results is matched by derivations. -/
def Lowerer.Refines (p : Plan) (l : Lowerer) : Prop :=
  ∀ {trail : Trail} {v : Nat} {c c' : Draft} {σ : Sketch} {t : String}, v < p.graph.size →
    c.Fits p σ → Gives (l.resolve trail (.object v)) c t c' →
    ∃ x σ', t = x.text ∧ Builds p (.ask .result v x) σ σ' ∧ c'.Fits p σ' ∧ c.Stays c'

theorem gives_mapM_cons {α β : Type} {f : α → Emit β} {a : α} {as : List α} {r : List β} :
    Gives ((a :: as).mapM f) c r c' ↔
      ∃ b c₁ bs, Gives (f a) c b c₁ ∧ Gives (as.mapM f) c₁ bs c' ∧ r = b :: bs := by
  simp only [List.mapM_cons, gives_bind, gives_pure]
  constructor
  · rintro ⟨b,c₁,hb,bs,c₂,hbs,rfl,rfl⟩
    exact ⟨b,c₁,bs,hb,hbs,rfl⟩
  · rintro ⟨b,c₁,bs,hb,hbs,rfl⟩
    exact ⟨b,c₁,hb,bs,c',hbs,rfl,rfl⟩

theorem refines_all {r : Role} {α : Type} {f : Nat → Emit α} (post : Operand → α) {vs : List Nat}
    (hf : ∀ v ∈ vs, ∀ {c c' : Draft} {σ : Sketch} {a : α}, c.Fits p σ → Gives (f v) c a c' →
      ∃ x σ', a = post x ∧ Builds p (.ask r v x) σ σ' ∧ c'.Fits p σ' ∧ c.Stays c')
    (hc : c.Fits p σ) {as : List α} (h : Gives (vs.mapM f) c as c') :
    ∃ xs σ', as = xs.map post ∧ Builds p (.askAll r vs xs) σ σ' ∧ c'.Fits p σ' ∧ c.Stays c' := by
  induction vs generalizing c σ as with
  | nil =>
    simp only [List.mapM_nil, gives_pure] at h
    obtain ⟨rfl,rfl⟩ := h
    exact ⟨[],σ,rfl,.nil,hc,.refl _⟩
  | cons v vs ih =>
    obtain ⟨a,c₁,bs,ha,hbs,rfl⟩ := gives_mapM_cons.mp h
    obtain ⟨x,σ₁,rfl,hb,hc₁,hs⟩ := hf v (by simp) hc ha
    obtain ⟨xs,σ₂,rfl,hbs,hc₂,hs'⟩ := ih (fun w hw => hf w (by simp [hw])) hc₁ hbs
    exact ⟨x :: xs,σ₂,rfl,.cons hb hbs,hc₂,hs.trans hs'⟩

namespace Draft.Fits

theorem freshArray (h : c.Fits p σ) (hp : p.Standard) :
    (c.freshArray p.options).1 = (Var.array σ.arrayNames).text ∧
      (c.freshArray p.options).2.Fits p { σ with arrayNames := σ.arrayNames + 1 } := by
  have hfree : c.freeNumber p.options.arrayStem c.arrayCount = σ.arrayNames := by
    rw [h.arrayNames, hp.names]
    exact freeNumber_eq h.array_not_taken
  refine ⟨?_,?_⟩
  · simp only [Draft.freshArray, hfree]
    rw [hp.names]
    rfl
  · simp only [Draft.freshArray, hfree]
    exact
      { h with
        arrayNames := rfl
        taken := by
          intro n hn
          obtain ⟨x,rfl,hx⟩ := h.taken n hn
          refine ⟨x,rfl,Nat.lt_of_lt_of_le hx ?_⟩
          cases x with
          | temp k => exact Nat.le_refl _
          | array k => exact Nat.le_succ _
          | index k => exact Nat.le_refl _ }

theorem introduceArray (h : c.Fits p σ) (hp : p.Standard) {id : Identity} {xs : List Operand}
    {t : String} (hg : Gives (p.introduceArray id (xs.map Operand.text) none) c t c') :
    t = (Operand.var (.array σ.arrayNames)).text ∧ c'.Fits p (σ.bindArray p id.serial xs) ∧
      c.Stays c' := by
  have hinit : (if (xs.map Operand.text).isEmpty then "np.empty(0)"
      else "np.array([" ++ String.intercalate ", " (xs.map Operand.text) ++ "])") =
      (Compound.array xs).text := by
    rw [Compound.text, List.isEmpty_map]
  obtain ⟨hname,hfit⟩ := h.freshArray hp
  simp only [Setting.introduceArray, Setting.explicitName, Option.filter_none, gives_get_bind,
    gives_pure_bind, gives_set_bind, gives_pure, hinit] at hg
  obtain ⟨rfl,rfl⟩ := hg
  have hi := hfit.introduce (x := .array σ.arrayNames) (e := .array xs) trivial (Nat.lt_succ_self _)
  rw [← hname] at hi
  refine ⟨hname,?_,?_⟩
  · have hd := hi.depths (.array σ.arrayNames)
    rw [← hname] at hd
    rw [hd]
    have ha := hi.arrays.insert id.serial (.var (.array σ.arrayNames))
      ((Sketch.introduce p { σ with arrayNames := σ.arrayNames + 1 } (.array σ.arrayNames)
        (.array xs)).depths (.array σ.arrayNames))
    exact { hi with arrays := by rw [hname] at ha ⊢; exact ha }
  · have hs : c.Stays (c.freshArray p.options).2 := .of_eq rfl rfl
    exact (hs.trans (.introduce _ p.options (c.freshArray p.options).1
      ((c.freshArray p.options).1 ++ " = " ++ (Compound.array xs).text)
      ((c.freshArray p.options).2.depthOf (Compound.array xs).text))).trans_eq rfl rfl

end Draft.Fits

theorem Graph.BuiltIn.member_lt {g : Graph} (hg : g.BuiltIn) {v : Nat} (hv : v < g.size)
    {ms : List Nat} (hk : (g.kind v).members? = some ms) {w : Nat} (hw : w ∈ ms) : w < g.size :=
  hg.targets v hv w (by simp [Kind.targets, hk, hw])

theorem Graph.BuiltIn.part_lt {g : Graph} (hg : g.BuiltIn) {v : Nat} (hv : v < g.size)
    {ws : List Nat} (hk : (g.kind v).parts? = some ws) {w : Nat} (hw : w ∈ ws) : w < g.size :=
  hg.targets v hv w (by simp [Kind.targets, hk, hw])

section

variable {l : Lowerer}

theorem Lowerer.Refines.results (hl : l.Refines p) (hg : p.graph.BuiltIn) {trail : Trail}
    {vs : List Nat} (hv : ∀ v ∈ vs, v < p.graph.size) (hc : c.Fits p σ) {texts : List String}
    (h : Gives (vs.mapM fun w => l.resolve trail (p.graph.datum w)) c texts c') :
    ∃ xs σ', texts = xs.map Operand.text ∧ Builds p (.askAll .result vs xs) σ σ' ∧ c'.Fits p σ' ∧
      c.Stays c' := by
  refine refines_all _ (fun v hm c c' σ t hc h => ?_) hc h
  rw [hg.datum_eq (hv v hm)] at h
  exact hl (hv v hm) hc h

theorem Lowerer.Refines.wrapped (hl : l.Refines p) (hg : p.graph.BuiltIn) {trail : Trail}
    {vs : List Nat} (hv : ∀ v ∈ vs, v < p.graph.size) (hc : c.Fits p σ) {texts : List String}
    (h : Gives (vs.mapM fun w => do return "(" ++ (← l.resolve trail (p.graph.datum w)) ++ ")")
      c texts c') :
    ∃ xs σ', texts = xs.map (fun x => "(" ++ x.text ++ ")") ∧
      Builds p (.askAll .result vs xs) σ σ' ∧ c'.Fits p σ' ∧ c.Stays c' := by
  refine refines_all _ (fun v hm c c' σ t hc h => ?_) hc h
  simp only [gives_bind, gives_pure] at h
  obtain ⟨t,c₁,h,rfl,rfl⟩ := h
  rw [hg.datum_eq (hv v hm)] at h
  obtain ⟨x,σ',rfl,hb,hc',hs⟩ := hl (hv v hm) hc h
  exact ⟨x,σ',rfl,hb,hc',hs⟩

theorem Lowerer.Refines.arrayOf (hl : l.Refines p) (hp : p.Standard) (hg : p.graph.BuiltIn)
    {trail : Trail} {v : Nat} (hv : v < p.graph.size) {ms : List Nat}
    (hk : (p.graph.kind v).members? = some ms) (hc : c.Fits p σ) {t : String}
    (h : Gives (p.arrayOf l trail (.object v) none) c t c') :
    ∃ x σ', t = x.text ∧ Builds p (.ask .argument v x) σ σ' ∧ c'.Fits p σ' ∧ c.Stays c' := by
  have hm : p.toSetting.members (.object v) = .ok ms := by simp [Setting.members, hk]
  have hlisted : ∀ {c₁ c₂ : Draft} {σ₁ : Sketch}, c₁.Fits p σ₁ →
      Gives (ms.mapM (fun m => l.resolve (trail.deeper 2) (p.graph.datum m)) >>= fun texts =>
        p.introduceArray (p.graph.idOf v) texts none) c₁ t c₂ →
      ∃ xs σ₂, Builds p (.askAll .result ms xs) σ₁ σ₂ ∧
        t = (Operand.var (.array σ₂.arrayNames)).text ∧ c₂.Fits p (σ₂.bindArray p v xs) ∧
        c₁.Stays c₂ := by
    intro c₁ c₂ σ₁ hc₁ h
    obtain ⟨texts,d,hms,hi⟩ := gives_bind.mp h
    obtain ⟨xs,σ₂,rfl,hb,hd,hs⟩ := hl.results hg (fun w hw => hg.member_lt hv hk hw) hc₁ hms
    obtain ⟨ht,hc₂,hs'⟩ := hd.introduceArray hp hi
    exact ⟨xs,σ₂,hb,ht,hc₂,hs.trans hs'⟩
  obtain ⟨id,hid,hlist⟩ := Setting.gives_arrayOf h
  cases hid
  cases hlist with
  | kept ha hn hle =>
    obtain ⟨e,he,rfl⟩ := hc.arrays_some ha
    rw [hc.iterationDepth_eq] at hn
    exact ⟨e.operand,σ,rfl,.kept hk he hn hle,hc,.refl _⟩
  | new ha hms h =>
    cases hm.symm.trans hms
    obtain ⟨xs,σ₂,hb,rfl,hc₂,hs⟩ := hlisted hc h
    exact ⟨_,_,rfl,.listed hk (hc.arrays_none ha) hb,hc₂,hs⟩
  | again ha hn hlt hms h =>
    cases hm.symm.trans hms
    obtain ⟨e,he,rfl⟩ := hc.arrays_some ha
    rw [hc.iterationDepth_eq] at hn
    have hle := Plan.iterationDepth_le hn
    obtain ⟨xs,σ₂,hb,rfl,hc₂,hs⟩ := hlisted (hc.setArrayAside (Nat.zero_lt_of_lt hlt) hle v e) h
    exact ⟨_,_,rfl,.listedAgain hk he hn hlt hb,hc₂,(Draft.Stays.setArrayAside _ _ _ _).trans hs⟩

theorem Graph.toArgument_of_members {g : Graph} {v : Nat} {ms : List Nat}
    (h : (g.kind v).members? = some ms) : g.toArgument (.object v) = .ok (.collection, .object v) := by
  rw [toArgument]
  cases hk : g.kind v with
  | collection ms => rfl
  | _ =>
    rw [hk] at h
    cases h

theorem Graph.toArgument_of_members_none {g : Graph} {v : Nat} (h : (g.kind v).members? = none) :
    g.toArgument (.object v) = .ok (.node, .object v) := by
  rw [toArgument]
  cases hk : g.kind v with
  | collection ms =>
    rw [hk] at h
    cases h
  | _ => rfl

theorem Lowerer.Refines.argument (hl : l.Refines p) (hp : p.Standard) (hg : p.graph.BuiltIn)
    {trail : Trail} {v : Nat} (hv : v < p.graph.size) (hc : c.Fits p σ) {d : Datum}
    (h : Gives (Emit.ofExcept (p.graph.toArgument (.object v)) >>= p.argumentCode l trail) c d c') :
    ∃ x σ', d = .text x.text ∧ Builds p (.ask .argument v x) σ σ' ∧ c'.Fits p σ' ∧ c.Stays c' := by
  rw [gives_ofExcept_bind] at h
  obtain ⟨a,ha,h⟩ := h
  cases hk : (p.graph.kind v).members? with
  | none =>
    cases (Graph.toArgument_of_members_none hk).symm.trans ha
    simp only [Setting.argumentCode, gives_bind, gives_pure] at h
    obtain ⟨t,c₁,h,rfl,rfl⟩ := h
    obtain ⟨x,σ',rfl,hb,hc',hs⟩ := hl hv hc h
    exact ⟨x,σ',rfl,.node hk hb,hc',hs⟩
  | some ms =>
    cases (Graph.toArgument_of_members hk).symm.trans ha
    simp only [Setting.argumentCode, gives_bind, gives_pure] at h
    obtain ⟨t,c₁,h,rfl,rfl⟩ := h
    obtain ⟨x,σ',rfl,hb,hc',hs⟩ := hl.arrayOf hp hg hv hk hc h
    exact ⟨x,σ',rfl,hb,hc',hs⟩

theorem gives_wholes {trail : Trail} {ns : List Int} {ds : List Datum}
    (h : Gives ((ns.map Datum.int).mapM fun d =>
      Emit.ofExcept (p.graph.toArgument d) >>= p.argumentCode l trail) c ds c') :
    ds = ns.map (fun n => .text (Operand.whole n).text) ∧ c' = c := by
  induction ns generalizing c ds with
  | nil =>
    simp only [List.map_nil, List.mapM_nil, gives_pure] at h
    exact h
  | cons n ns ih =>
    obtain ⟨d,c₁,ds,hd,hds,rfl⟩ := gives_mapM_cons.mp h
    simp only [gives_ofExcept_bind, Graph.toArgument, Except.ok.injEq, exists_eq_left',
      Setting.argumentCode, Graph.datumText, Graph.describeDatum, gives_pure] at hd
    obtain ⟨rfl,rfl⟩ := hd
    obtain ⟨rfl,rfl⟩ := ih hds
    exact ⟨rfl,rfl⟩

theorem Lowerer.Refines.callCode (hl : l.Refines p) (hp : p.Standard) (hg : p.graph.BuiltIn)
    {trail : Trail} {f : Routine} {vs : List Nat} (ns : List Int) (hv : ∀ v ∈ vs, v < p.graph.size)
    (hc : c.Fits p σ) {t : String}
    (h : Gives (p.callCode l trail f.name (vs.map p.graph.datum ++ ns.map .int)) c t c') :
    ∃ xs σ', t = (Compound.call f (xs ++ ns.map .whole)).text ∧
      Builds p (.askAll .argument vs xs) σ σ' ∧ c'.Fits p σ' ∧ c.Stays c' := by
  obtain ⟨texts,rfl,hcodes⟩ := Setting.gives_callCode h
  simp only [List.mapM_append, gives_bind, gives_pure] at hcodes
  obtain ⟨ds,c₁,hds,es,c₂,hes,htexts,rfl⟩ := hcodes
  obtain ⟨rfl,rfl⟩ := gives_wholes hes
  rw [List.mapM_map] at hds
  obtain ⟨xs,σ',rfl,hb,hc',hs⟩ := refines_all (r := .argument) (fun x => .text x.text)
    (fun v hm c c' σ d hc h => by
      simp only [Function.comp, hg.datum_eq (hv v hm)] at h
      exact hl.argument hp hg (hv v hm) hc h) hc hds
  have hmap : texts.map Datum.text = ((xs ++ ns.map Operand.whole).map Operand.text).map Datum.text := by
    simpa [Function.comp_def] using htexts
  rw [List.map_injective_iff.mpr (fun _ _ h => Datum.text.inj h) hmap]
  exact ⟨xs,σ',rfl,hb,hc',hs⟩

theorem fits_inlineResult (hc : c.Fits p σ) {v : Nat} {x : Operand} {u : PUnit}
    (h : Gives (p.inlineResult v x.text) c u c') :
    σ.results v = none ∧ c'.Fits p (σ.register v x) ∧ c.Stays c' := by
  obtain ⟨t,h⟩ := gives_discard.mp h
  obtain ⟨id,hid,hr,rfl,rfl⟩ := Setting.gives_register h
  cases hid
  exact ⟨hc.results_none hr,hc.register v x,.of_eq rfl rfl⟩

theorem fits_saveResult (hp : p.Standard) (hc : c.Fits p σ) {v : Nat} {e : Compound} (he : e.Proper)
    {u : PUnit} (h : Gives (p.saveResult v e.text) c u c') :
    σ.results v = none ∧ c'.Fits p (σ.save p v e) ∧ c.Stays c' := by
  obtain ⟨t,h⟩ := gives_discard.mp h
  obtain ⟨id,hid,hr,rfl,rfl⟩ := Setting.gives_register_saved h
  cases hid
  obtain ⟨hname,hfit⟩ := hc.bindFresh hp he
  refine ⟨hc.results_none hr,?_,(Draft.Stays.bindFresh c p.options e.text).trans_eq rfl rfl⟩
  rw [hname]
  exact hfit.register v (.var (.temp σ.temps))

theorem floatCode_zero : Datum.floatCode 0 = "0.0" := by decide +kernel

theorem floatCode_one : Datum.floatCode 1 = "1.0" := by decide +kernel

theorem gives_write {text : String} {u : PUnit} : Gives (p.write text) c u c' ↔
    c' = { c with body := c.body ++ Line.ofSnippet text c.depth } := gives_modify

theorem fits_startSum (hp : p.Standard) (hc : c.Fits p σ) {acc : String} {c₁ c₂ : Draft}
    (ht : p.freshTemp.Gives c acc c₁) (hw : (p.write (acc ++ " = 0.0")).Gives c₁ ⟨⟩ c₂) :
    acc = (Var.temp σ.temps).text ∧ c₂.Fits p σ.startSum ∧ c.Stays c₂ := by
  obtain ⟨hacc,hc₁,hs₁⟩ : acc = (Var.temp σ.temps).text ∧ c₁.Fits p σ.takeTemp ∧ c.Stays c₁ := by
    obtain ⟨hname,hfit⟩ := hc.freshTemp (o := p.options) (by rw [hp.names])
    have ht : (acc, c₁) = c.freshTemp p.options := gives_modifyGet.mp ht
    rw [← ht] at hname hfit
    have hs : c.Stays (c.freshTemp p.options).2 := .of_eq rfl rfl
    rw [← ht] at hs
    exact ⟨hname,hfit,hs⟩
  subst hacc
  have hline : Line.ofSnippet ((Var.temp σ.temps).text ++ " = 0.0") c₁.depth =
      Item.lines σ.takeTemp.depth (.assign (.temp σ.temps) (.single (.literal 0))) := by
    have hl := Item.ofSnippet_assign (.temp σ.temps) (e := .single (.literal 0)) trivial
      σ.takeTemp.depth
    have htext : " = " ++ "0.0" = " = 0.0" := by decide
    rw [Compound.text, Operand.text, floatCode_zero, String.append_assoc, htext] at hl
    rw [hc₁.depth_eq]
    exact hl
  have hw := gives_write.mp hw
  rw [hline] at hw
  exact ⟨rfl,hw ▸ hc₁.write _,hs₁.trans_eq (by rw [hw]) (by rw [hw])⟩

theorem fits_update (hc : c.Fits p σ) {x : Var} {log : Bool} {value : Operand} {u : PUnit}
    (h : Gives (p.write (Item.updateText x log value)) c u c') :
    c'.Fits p (σ.write (.update x log value)) ∧ c.Stays c' := by
  cases gives_write.mp h
  rw [hc.depth_eq, Item.ofSnippet_update]
  exact ⟨hc.write _,.of_eq rfl rfl⟩

theorem Lowerer.Refines.add (hl : l.Refines p) (hg : p.graph.BuiltIn) {trail : Trail} {t : Nat}
    (ht : t < p.graph.size) {x : Var} {log : Bool} {update : String → String → String}
    (hu : ∀ value : Operand, update x.text value.text = Item.updateText x log value)
    (hc : c.Fits p σ) {u : PUnit}
    (h : Gives (l.resolve trail (p.graph.datum t) >>= fun value => p.write (update x.text value))
      c u c') :
    ∃ value σ', Builds p (.ask .result t value) σ σ' ∧
      c'.Fits p (σ'.write (.update x log value)) ∧ c.Stays c' := by
  obtain ⟨text,c₁,hr,hw⟩ := gives_bind.mp h
  rw [hg.datum_eq ht] at hr
  obtain ⟨value,σ',rfl,hb,hc₁,hs⟩ := hl ht hc hr
  rw [hu] at hw
  obtain ⟨hc',hs'⟩ := fits_update hc₁ hw
  exact ⟨value,σ',hb,hc',hs.trans hs'⟩

theorem Lowerer.Refines.addUp (hl : l.Refines p) (hp : p.Standard) (hg : p.graph.BuiltIn)
    {trail : Trail} {v t : Nat} {log : Bool} {update : String → String → String}
    (hk : (p.graph.kind v).reduced? = some (t, log)) (ht : t < p.graph.size)
    (hu : ∀ (x : Var) (value : Operand), update x.text value.text = Item.updateText x log value)
    (hc : c.Fits p σ) {u : PUnit} (h : Gives (p.addUp l trail v t update) c u c') :
    ∃ σ', Builds p (.emitted v) σ σ' ∧ c'.Fits p σ' ∧ c.Stays c' := by
  obtain ⟨acc,_,c₁,c₅,hacc,hzero,h,hr⟩ := Setting.gives_addUp h
  obtain ⟨rfl,hc₁,hs₁⟩ := fits_startSum hp hc hacc hzero
  dsimp only at h
  split at h
  · rename_i hn
    obtain ⟨k,c₂,ho,hin⟩ := gives_bind.mp h
    obtain ⟨inputs,length,hi,hlen,rfl,rfl,hc₂⟩ := Plan.fits_openLoop hp hc₁ ho
    obtain ⟨c₄,hadd,hleave⟩ := gives_insideLoop hin
    obtain ⟨value,σ',hb,hc₄,hs₄⟩ := hl.add hg ht (hu _) hc₂ hadd
    have hstack : c₄.stack.reverse = c₁.loops.length :: c₁.stack.reverse := by
      rw [hs₄.stack]
      simp [Draft.withLoop]
    obtain ⟨f,fs,hf⟩ : ∃ f fs, (σ'.write (.update (.temp σ.temps) log value)).frames = f :: fs := by
      refine List.exists_cons_of_ne_nil fun hnil => ?_
      have hst := hc₄.stack
      rw [hstack, hnil] at hst
      cases hst
    obtain ⟨k,lp,hs,hk',hlp,hfit,_,_,_⟩ := hc₄.exists_innermost hf
    rw [hstack] at hk'
    cases hk'
    have hclose := Draft.Fits.leaveLoop hlp hfit.closed hleave
    obtain ⟨lp',_,hc₅eq,hc₅⟩ := hc₄.closeLoop hf (by simp [Sketch.write]) hstack hclose
    obtain ⟨hnone,hc',hs'⟩ := fits_inlineResult (x := .var _) hc₅ hr
    refine ⟨_,.looped hk hn hi hlen hb hnone,hc',(hs₁.trans ?_).trans hs'⟩
    rw [hc₅eq]
    exact .loop _ _ _ hs₄ _ _
  · rename_i hn
    obtain ⟨value,σ',hb,hc₂,hs₂⟩ := hl.add hg ht (hu _) hc₁ h
    obtain ⟨hnone,hc',hs'⟩ := fits_inlineResult (x := .var _) hc₂ hr
    exact ⟨_,.added hk (Nat.le_of_not_lt hn) hb hnone,hc',(hs₁.trans hs₂).trans hs'⟩

/-- Operands asked for and combined to an expression that is saved. -/
theorem refines_save (hp : p.Standard) {v : Nat} {r : Role} {vs : List Nat}
    (make : List Operand → Compound) (hk : (p.graph.kind v).combined? = some (r, vs, make))
    {c₁ : Draft} {σ' : Sketch} {xs : List Operand} (hb : Builds p (.askAll r vs xs) σ σ')
    (hc₁ : c₁.Fits p σ') (hs : c.Stays c₁) (he : (make xs).Proper) {u : PUnit}
    (h : Gives (p.saveResult v (make xs).text) c₁ u c') :
    ∃ σ', Builds p (.emitted v) σ σ' ∧ c'.Fits p σ' ∧ c.Stays c' := by
  obtain ⟨hnone,hc',hs'⟩ := fits_saveResult hp hc₁ he h
  exact ⟨_,.combined hk hb he hnone,hc',hs.trans hs'⟩

theorem filled_eq {address : Nat → List Char → Nat} {template text : String} (hclean : IsClean template)
    {xs : List Operand} (h : fillTemplate address template (xs.map fun x => "(" ++ x.text ++ ")") = .ok text) :
    ∃ o, outline? template = some o ∧ text = (Compound.filled o xs).text ∧
      (Compound.filled o xs).Proper := by
  obtain ⟨o,ho,hline,hnames⟩ := hclean
  obtain ⟨hholes,htext⟩ := fillTemplate_plain ho h
  have hargs : (xs.map fun x => "(" ++ x.text ++ ")").map String.toList =
      (xs.map fun x => x.text.toList).map Outline.parens := by
    simp [Outline.parens]
  rw [hargs] at htext
  exact ⟨o,ho,String.toList_injective (by rw [htext, Compound.text, String.toList_ofList]),
    hline,by simpa using hholes,hnames⟩

theorem Lowerer.Refines.emitNode (hl : l.Refines p) (hp : p.Standard) (hg : p.graph.BuiltIn)
    {trail : Trail} {v : Nat} (hv : v < p.graph.size) (hc : c.Fits p σ) {u : PUnit}
    (h : Gives (p.emitNode l trail v) c u c') :
    ∃ σ', Builds p (.emitted v) σ σ' ∧ c'.Fits p σ' ∧ c.Stays c' := by
  have hparts : ∀ {ws}, (p.graph.kind v).parts? = some ws → ∀ w ∈ ws, w < p.graph.size :=
    fun hk w hw => hg.part_lt hv hk hw
  have hbuiltin := hg.kinds v hv
  have hliteral : ∀ {a : Float} {t : String}, (p.graph.kind v).value? = some a →
      t = (Operand.literal a).text → Gives (p.inlineResult v t) c u c' →
      ∃ σ', Builds p (.emitted v) σ σ' ∧ c'.Fits p σ' ∧ c.Stays c' := by
    rintro a t hk rfl h
    obtain ⟨hnone,hc',hs⟩ := fits_inlineResult hc h
    exact ⟨_,.literal hk hnone,hc',hs⟩
  have hcall : ∀ (f : Routine) (vs : List Nat) (ns : List Int) (make : List Operand → Compound)
      {name : String} {args : List Datum}, name = f.name →
      args = vs.map p.graph.datum ++ ns.map .int →
      (∀ xs, make xs = .call f (xs ++ ns.map Operand.whole)) →
      (p.graph.kind v).combined? = some (.argument, vs, make) →
      (p.graph.kind v).parts? = some vs →
      Gives (p.callCode l trail name args >>= fun t => p.saveResult v t) c u c' →
      ∃ σ', Builds p (.emitted v) σ σ' ∧ c'.Fits p σ' ∧ c.Stays c' := by
    rintro f vs ns make name args rfl rfl hmake hk hparts' h
    obtain ⟨t,c₁,hcode,h⟩ := gives_bind.mp h
    obtain ⟨xs,σ',rfl,hb,hc₁,hs⟩ := hl.callCode hp hg ns (hparts hparts') hc hcode
    rw [← hmake] at h
    exact refines_save hp make hk hb hc₁ hs (by rw [hmake]; trivial) h
  rw [Setting.emitNode] at h
  cases hk : p.graph.kind v with
  | parameter value isConstant =>
    simp only [hk] at h
    cases isConstant with
    | true => exact hliteral (by rw [hk]; rfl) rfl h
    | false => exact absurd h not_gives_throw
  | observable =>
    simp only [hk, gives_get_bind, hc.columns] at h
    cases hcol : p.columns.get? (p.graph.idOf v) with
    | none => simp [hcol] at h
    | some n =>
      have htext : p.options.obsName ++ "[" ++ toString n ++ "]" =
          (Operand.column (p.column v)).text := by
        have hcolumn := hp.column_eq (p.graph.idOf v)
        rw [hcol, Option.getD_some] at hcolumn
        rw [← hcolumn, hp.names]
        rfl
      have hcol' : p.column? v = some (p.column v) := by simp [Plan.column, Plan.column?, hcol]
      simp only [hcol, htext] at h
      obtain ⟨hnone,hc',hs⟩ := fits_inlineResult hc h
      exact ⟨_,.column hk hcol' hnone,hc',hs⟩
  | constant value =>
    simp only [hk] at h
    exact hliteral (by rw [hk]; rfl) rfl h
  | sum ts =>
    cases ts with
    | nil =>
      simp only [hk] at h
      exact hliteral (by rw [hk]; rfl) floatCode_zero.symm h
    | cons t ts =>
      simp only [hk] at h
      obtain ⟨texts,c₁,hts,h⟩ := gives_bind.mp h
      obtain ⟨xs,σ',rfl,hb,hc₁,hs⟩ := hl.results hg (hparts (by rw [hk]; rfl)) hc hts
      exact refines_save hp .sum (by rw [hk]; rfl) hb hc₁ hs trivial h
  | product fs =>
    cases fs with
    | nil =>
      simp only [hk] at h
      exact hliteral (by rw [hk]; rfl) floatCode_one.symm h
    | cons f fs =>
      simp only [hk] at h
      obtain ⟨texts,c₁,hts,h⟩ := gives_bind.mp h
      obtain ⟨xs,σ',rfl,hb,hc₁,hs⟩ := hl.wrapped hg (hparts (by rw [hk]; rfl)) hc hts
      exact refines_save hp .product (by rw [hk]; rfl) hb hc₁ hs trivial h
  | formula template args =>
    simp only [hk] at h
    obtain ⟨texts,c₁,hts,h⟩ := gives_bind.mp h
    obtain ⟨xs,σ',rfl,hb,hc₁,hs⟩ := hl.wrapped hg (hparts (by rw [hk]; rfl)) hc hts
    rw [gives_ofExcept_bind] at h
    obtain ⟨text,hfill,h⟩ := h
    cases hf : fillTemplate p.options.machine.address template (xs.map fun x => "(" ++ x.text ++ ")") with
    | error e => rw [hf] at hfill; cases hfill
    | ok text' =>
      rw [hf] at hfill
      cases hfill
      obtain ⟨o,ho,rfl,hproper⟩ := filled_eq (hg.templates v template args hk) hf
      exact refines_save hp (.filled o) (by simp [hk, Kind.combined?, ho]) hb hc₁ hs hproper h
  | gaussian x m s =>
    simp only [hk] at h
    exact hcall .gaussian [x, m, s] [] (.call .gaussian) (by rfl) (by rfl) (by simp) (by rw [hk]; rfl) (by rw [hk]; rfl) h
  | exponential x c =>
    simp only [hk] at h
    exact hcall .exponential [x, c] [] (.call .exponential) (by rfl) (by rfl) (by simp) (by rw [hk]; rfl) (by rw [hk]; rfl) h
  | polynomial x cs order =>
    simp only [hk] at h
    exact hcall .polynomial [x, cs] [order] _ (by rfl) (by rfl) (fun _ => rfl) (by rw [hk]; rfl) (by rw [hk]; rfl) h
  | mixture ds cs =>
    simp only [hk] at h
    exact hcall .mixture [ds, cs] [] (.call .mixture) (by rfl) (by rfl) (by simp) (by rw [hk]; rfl) (by rw [hk]; rfl) h
  | entrySum t =>
    simp only [hk] at h
    exact hl.addUp hp hg (by rw [hk]; rfl) (hparts (by rw [hk]; rfl) t (by simp))
      (fun _ _ => rfl) hc h
  | negLogLikelihood t =>
    simp only [hk] at h
    exact hl.addUp hp hg (by rw [hk]; rfl) (hparts (by rw [hk]; rfl) t (by simp))
      (fun _ _ => rfl) hc h
  | custom expr args save => rw [hk] at hbuiltin; cases hbuiltin
  | script steps args reducer => rw [hk] at hbuiltin; cases hbuiltin
  | collection ms =>
    simp only [hk] at h
    exact absurd h not_gives_throw
  | identity => rw [hk] at hbuiltin; cases hbuiltin

end

/-- Lowering nodes where they stand is matched by derivations. -/
def EmitRefines (p : Plan) (emit : Trail → Datum → Emit Unit) : Prop :=
  ∀ {trail : Trail} {v : Nat} {c c' : Draft} {σ : Sketch} {u : Unit}, v < p.graph.size →
    c.Fits p σ → Gives (emit trail (.object v)) c u c' →
    ∃ σ', Builds p (.emitted v) σ σ' ∧ c'.Fits p σ' ∧ c.Stays c'

theorem Lowerer.Refines.emit {l : Lowerer} (hl : l.Refines p) (hp : p.Standard)
    (hg : p.graph.BuiltIn) : EmitRefines p (p.emit l) := by
  intro trail v c c' σ u hv hc h
  rw [Setting.emit] at h
  split at h
  · simp at h
  · exact hl.emitNode hp hg hv hc h

variable {emit : Trail → Datum → Emit Unit}

theorem EmitRefines.entered (he : EmitRefines p emit) {trail : Trail} {v : Nat} {id : Identity}
    (hv : v < p.graph.size) (hc : c.Fits p σ) {inner : Draft}
    (h : (emit trail (.object v)).Gives (c.entered id) ⟨⟩ inner) :
    ∃ σ', Builds p (.emitted v) σ σ' ∧ inner.left.Fits p σ' ∧ c.Stays inner.left := by
  obtain ⟨σ',hb,hc',hs⟩ := he hv (hc.running _) h
  exact ⟨σ',hb,hc'.running _,{ hs with }⟩

theorem EmitRefines.lower (he : EmitRefines p emit) {trail : Trail} {v : Nat}
    (hv : v < p.graph.size) (hc : c.Fits p σ) {t : String}
    (h : Gives (p.lower emit trail (.object v) (p.graph.idOf v)) c t c') :
    ∃ e σ', t = e.operand.text ∧ Builds p (.lowered v) σ σ' ∧ σ'.results v = some e ∧
      c'.Fits p σ' ∧ c.Stays c' := by
  obtain ⟨_,⟨_,hr,rfl⟩,hlowers⟩ := Setting.gives_lower h
  cases hlowers with
  | here hlift hemit =>
    rw [hc.isLiftable_eq] at hlift
    obtain ⟨σ',hb,hc₁,hs⟩ := he.entered hv hc hemit
    obtain ⟨e,hres,rfl⟩ := hc₁.results_some hr
    exact ⟨e,σ',rfl,.here hlift hb,hres,hc₁,hs⟩
  | lifted hlift hemit =>
    rw [hc.isLiftable_eq] at hlift
    obtain ⟨σ',hb,hi,hs⟩ := he.entered hv hc.atTop hemit
    obtain ⟨hc₁,hs₁⟩ := hc.adopt hi hs (Plan.depth_pos_of_isLiftable hlift)
    obtain ⟨e,hres,rfl⟩ := hc₁.results_some hr
    exact ⟨e,_,rfl,.lifted hlift hb,hres,hc₁,hs₁⟩

theorem EmitRefines.resolve (he : EmitRefines p emit) :
    Lowerer.Refines p ⟨p.resolve emit, emit⟩ := by
  intro trail v c c' σ t hv hc h
  obtain ⟨id,hid,hresolved⟩ := Setting.gives_resolve h
  cases hid
  have hunbound : c.bindings[v]? = none → σ.binding p v = none :=
    fun hb => Option.map_eq_none_iff.mp ((hc.bindings v).symm.trans hb)
  cases hresolved with
  | bound hb =>
    obtain ⟨x,hx,rfl⟩ := Option.map_eq_some_iff.mp ((hc.bindings v).symm.trans hb)
    exact ⟨x,σ,rfl,.bound hx,hc,.refl _⟩
  | cached hb hr hn hle =>
    obtain ⟨e,hres,rfl⟩ := hc.results_some hr
    rw [hc.iterationDepth_eq] at hn
    exact ⟨e.operand,σ,rfl,.cached (hunbound hb) hres hn hle,hc,.refl _⟩
  | missing hb hr h =>
    obtain ⟨e,σ',rfl,hbuild,hres,hc',hs⟩ := he.lower hv hc h
    exact ⟨_,σ',rfl,.missing (hunbound hb) (hc.results_none hr) hbuild hres,hc',hs⟩
  | stale hb hr hn hlt h =>
    obtain ⟨e,hres,rfl⟩ := hc.results_some hr
    rw [hc.iterationDepth_eq] at hn
    have hle := Plan.iterationDepth_le hn
    obtain ⟨e',σ',rfl,hbuild,hres',hc',hs⟩ :=
      he.lower hv (hc.setResultAside (Nat.zero_lt_of_lt hlt) hle v e) h
    exact ⟨_,σ',rfl,.stale (hunbound hb) hres hn hlt hbuild hres',hc',
      (Draft.Stays.setResultAside _ _ _ _).trans hs⟩

theorem nested_refines (hp : p.Standard) (hg : p.graph.BuiltIn) (n : Nat) :
    (p.nested n).Refines p := by
  induction n with
  | zero =>
    intro trail v c c' σ t hv hc h
    simp [Setting.nested] at h
  | succ n ih => exact EmitRefines.resolve fun hv hc h => ih.emit hp hg hv hc h

end FitCode
