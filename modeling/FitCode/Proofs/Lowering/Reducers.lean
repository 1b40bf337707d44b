import FitCode.Proofs.Lowering.Settled

/-! # Lowering finishes reducers one by one

Asking for a vertex leaves all the reducers that it uses done, and opens a loop for each of those that
were not. A reducer over the vector observable is lowered where no loop is open: inside of a loop it is
lifted out, since the one loop that can be open iterates all it depends on. A reducer over anything else
opens no loop.
-/
namespace FitCode

open Text Emit

/-- The template gives one line if its arguments are lines. -/
def Text.KeepsLines (address : Nat → List Char → Nat) (template : String) : Prop :=
  ∀ args text, (∀ a ∈ args, IsLine a) → fillTemplate address template args = .ok text → IsLine text

namespace Setting

variable {s : Setting} {c c' : Draft} {v : Nat}

theorem mem_inputs {inputs : List Identity} (h : s.inputs c (.object v) = .ok inputs) (id : Identity) :
    id ∈ inputs ↔ ∃ n, (id, n) ∈ c.columns ∧ s.graph.reaches v id.serial true = .ok true := by
  rw [Setting.inputs] at h
  obtain ⟨es,hes,h⟩ := Except.bind_eq_ok_iff.mp h
  cases h
  obtain ⟨hok,rfl⟩ := List.filterM_eq_ok.mp hes
  simp only [List.mem_map, List.mem_filter, beq_iff_eq]
  constructor
  · rintro ⟨⟨id',n⟩,⟨hmem,hreach⟩,rfl⟩
    obtain ⟨b,hb⟩ := hok _ hmem
    rw [hb] at hreach
    cases hreach
    exact ⟨n,hmem,hb⟩
  · rintro ⟨n,hmem,hreach⟩
    exact ⟨(id, n),⟨hmem,by rw [hreach]; rfl⟩,rfl⟩

/-- A loop is opened over columns that the node depends on, which no open loop iterates. -/
theorem gives_openLoop {k : Nat} (h : Gives (s.openLoop (.object v)) c k c') :
    ∃ vars length, k = c.loops.length ∧ c' = c.withLoop s.options vars length ∧ vars ≠ [] ∧
      (∀ id ∈ vars, c.bindings[id.serial]? = none) ∧
      ∀ id ∈ vars, ∃ n, (id, n) ∈ c.columns ∧ s.graph.reaches v id.serial true = .ok true := by
  simp only [Setting.openLoop, gives_get_bind, gives_ofExcept_bind] at h
  obtain ⟨inputs,hi,h⟩ := h
  split at h
  · simp [gives_bind] at h
  · rename_i length hsizes
    simp only [gives_set_bind, gives_pure] at h
    obtain ⟨rfl,rfl⟩ := h
    refine ⟨_,length,rfl,rfl,fun hnil => ?_,fun id hid => ?_,fun id hid => ?_⟩
    · rw [hnil] at hsizes
      cases hsizes
    · have hfree := (List.mem_filter.mp hid).2
      exact Std.TreeMap.getElem?_eq_none_of_contains_eq_false (by simpa using hfree)
    · exact (mem_inputs hi id).mp (List.mem_filter.mp hid).1
  · simp [gives_bind] at h

theorem gives_introduceArray {id : Identity} {texts : List String} {a : String}
    (h : Gives (s.introduceArray id texts none) c a c') : a = (c.freshArray s.options).1 ∧
      c' = (c.freshArray s.options).2.bindArray s.options id (c.freshArray s.options).1
        (arrayCode texts) := by
  simp only [introduceArray, explicitName, Option.filter_none, gives_get_bind, gives_pure_bind,
    gives_set_bind, gives_pure] at h
  exact h

end Setting

theorem IdMap.isSome_of_mem {α : Type} {m : IdMap α} {id : Identity} {a : α} (h : (id, a) ∈ m) :
    (m.get? id).isSome = true := by
  rw [IdMap.get?, Option.isSome_map, List.find?_isSome]
  exact ⟨(id, a),h,by simp [Identity.same]⟩

theorem Graph.links_of_parts {g : Graph} {v : Nat} {ws : List Nat}
    (hnodes : ∀ w ∈ ws, (g.kind w).isNode = true) (hparts : (g.kind v).parts? = some ws) :
    g.links v = ws := by
  have hexpand : ∀ w ∈ ws, g.expand w = [w] := fun w hw => by
    rw [Graph.expand, Graph.members_of_isNode (hnodes w hw)]
    rfl
  have hlinks : g.links v = ws.flatMap g.expand := by simp [Graph.links, Graph.operands?, hparts]
  rw [hlinks, List.flatMap_congr hexpand, List.flatMap_singleton']

theorem Graph.links_of_members {g : Graph} {v : Nat} {ms : List Nat} (h : (g.kind v).members? = some ms) :
    g.links v = ms := by
  have hp : (g.kind v).parts? = none := by
    cases hk : g.kind v with
    | collection ms' => rfl
    | _ =>
      rw [hk] at h
      cases h
  simp [links, operands?, hp, h]

namespace Survey

variable {p : Survey} {c c' : Draft} {v w t : Nat} {l : Lowerer} {trail : Trail}

/-- What the lowering of a root with one vector observable relies on. -/
structure Fair (p : Survey) : Prop where
  options : p.options.Valid
  sorted : p.graph.Sorted
  observable : p.graph.kind p.vector = .observable
  free : ∀ r, p.Looping r → ¬ p.bound r
  large : ∀ r, p.Looping r → ∀ t ∈ p.graph.links r, 1 < p.sizes.size (p.graph.idOf t)
  templates : ∀ v template args, p.graph.Leads false p.root v →
    p.graph.kind v = .formula template args → KeepsLines p.options.machine.address template

/-- A vertex was asked for, and the answer is a line. -/
structure Answers (p : Survey) (c : Draft) (v : Nat) (a : String) (c' : Draft) : Prop where
  step : p.Step c c'
  isLine : IsLine a
  covered : p.Covered c' v

/-- Asking for nodes below the root is answered. -/
def Resolves (p : Survey) (l : Lowerer) : Prop :=
  ∀ {trail : Trail} {v : Nat} {c c' : Draft} {a : String}, (p.graph.kind v).isNode = true →
    p.graph.Leads false p.root v → p.Ready c → Gives (l.resolve trail (.object v)) c a c' →
    p.Answers c v a c'

/-- The hook of a node finishes it; it takes a loop only where none is open. -/
def Emits (p : Survey) (emit : Trail → Datum → Emit Unit) : Prop :=
  ∀ {trail : Trail} {v : Nat} {c c' : Draft} {u : Unit}, (p.graph.kind v).isNode = true →
    p.graph.Leads false p.root v → p.Ready c → (p.Looping v → c.stack = []) →
    Gives (emit trail (.object v)) c u c' → p.Step c c' ∧ p.Covered c' v

theorem leads_link (h : p.graph.Leads false p.root v) (hw : w ∈ p.graph.links v) :
    p.graph.Leads false p.root w :=
  h.trans (.inr (Graph.isOpen_false _ _)) (.step hw (.inl rfl) (.refl w))

/-- Steps one after the other, each of which settles some vertices. -/
theorem steps_mapM {ι α : Type} {f : ι → Emit α} {Q : α → Prop} {K : ι → Nat → Prop} {is : List ι}
    (hf : ∀ i ∈ is, ∀ {c c' : Draft} {a : α}, p.Ready c → Gives (f i) c a c' →
      p.Step c c' ∧ Q a ∧ ∀ w, K i w → p.Covered c' w)
    (hc : p.Ready c) {as : List α} (h : Gives (is.mapM f) c as c') :
    p.Step c c' ∧ (∀ a ∈ as, Q a) ∧ ∀ i ∈ is, ∀ w, K i w → p.Covered c' w := by
  induction is generalizing c as with
  | nil =>
    simp only [List.mapM_nil, gives_pure] at h
    obtain ⟨rfl,rfl⟩ := h
    exact ⟨.refl hc,by simp,by simp⟩
  | cons i is ih =>
    obtain ⟨a,c₁,as,ha,has,rfl⟩ := gives_mapM_cons.mp h
    obtain ⟨hs,hq,hk⟩ := hf i (by simp) hc ha
    obtain ⟨hs',hqs,hks⟩ := ih (fun j hj => hf j (by simp [hj])) hs.ready has
    refine ⟨hs.trans hs',List.forall_mem_cons.mpr ⟨hq,hqs⟩,List.forall_mem_cons.mpr ⟨?_,hks⟩⟩
    exact fun w hw => hs'.covered (hk w hw)

theorem steps_answers {f : Nat → Emit String} {ws : List Nat}
    (hf : ∀ w ∈ ws, ∀ {c c' : Draft} {a : String}, p.Ready c → Gives (f w) c a c' → p.Answers c w a c')
    (hc : p.Ready c) {texts : List String} (h : Gives (ws.mapM f) c texts c') :
    p.Step c c' ∧ (∀ a ∈ texts, IsLine a) ∧ ∀ w ∈ ws, p.Covered c' w := by
  have hall := steps_mapM (Q := IsLine) (K := Eq) (fun w hw c c' a hc h => ?_) hc h
  · exact ⟨hall.1,hall.2.1,fun w hw => hall.2.2 w hw w rfl⟩
  · have ha := hf w hw hc h
    exact ⟨ha.step,ha.isLine,fun u hu => hu ▸ ha.covered⟩

section

variable (hp : p.Fair) (hl : p.Resolves l)

include hp

theorem step_register (hc : p.Ready c) (hv : ¬ p.Looping v)
    (hcov : ∀ w ∈ p.graph.links v, p.Covered c w) {text : String} (ht : IsLine text) {save : Bool}
    {u : PUnit} (h : Gives (discard (p.register (.object v) text save)) c u c') :
    p.Step c c' ∧ p.Covered c' v := by
  have hself : p.Covered c v := covered_of_links (fun hr => (hv hr).elim) hcov
  obtain ⟨a,h⟩ := gives_discard.mp h
  cases save with
  | false =>
    obtain ⟨id,hid,_,rfl,rfl⟩ := Setting.gives_register h
    cases hid
    have hs := step_insertResult hc hv hself ht (c.depthOf_le a)
    exact ⟨hs,hs.covered hself⟩
  | true =>
    obtain ⟨id,hid,_,rfl,rfl⟩ := Setting.gives_register_saved h
    cases hid
    obtain ⟨hs,hline⟩ := step_bindFresh hp.options hc ht
    have hs' := step_insertResult hs.ready hv (hs.covered hself) hline
      (Draft.depthOf_le _ (c.bindFresh p.options text).1)
    exact ⟨hs.trans hs',hs'.covered (hs.covered hself)⟩

include hl

theorem answers_operand (hv : p.graph.Leads false p.root v) (hw : w ∈ p.graph.links v) {a : String}
    (hc : p.Ready c) (h : Gives (l.resolve trail (p.graph.datum w)) c a c') : p.Answers c w a c' := by
  have hn := hp.sorted.isNode_of_links hw
  rw [Graph.datum_of_isNode hn] at h
  exact hl hn (leads_link hv hw) hc h

theorem answers_wrapped (hv : p.graph.Leads false p.root v) (hw : w ∈ p.graph.links v) {a : String}
    (hc : p.Ready c)
    (h : Gives (do return "(" ++ (← l.resolve trail (p.graph.datum w)) ++ ")") c a c') :
    p.Answers c w a c' := by
  simp only [gives_bind, gives_pure] at h
  obtain ⟨text,c₁,h,rfl,rfl⟩ := h
  have ha := answers_operand hp hl hv hw hc h
  refine ⟨ha.step,?_,ha.covered⟩
  simp only [isLine_append]
  exact ⟨⟨by decide,ha.isLine⟩,by decide⟩

theorem steps_arrayOf (hv : p.graph.Leads false p.root v) {ms : List Nat}
    (hw : (p.graph.kind w).members? = some ms) (hms : ∀ m ∈ ms, m ∈ p.graph.links v) (hc : p.Ready c)
    {a : String} (h : Gives (p.arrayOf l trail (.object w) none) c a c') :
    p.Step c c' ∧ IsLine a ∧ ∀ m ∈ ms, p.Covered c' m := by
  have hlinks := Graph.links_of_members hw
  have hmembers : p.toSetting.members (.object w) = .ok ms := by simp [Setting.members, hw]
  have hlisted : ∀ {c₁ : Draft}, p.Ready c₁ →
      Gives (ms.mapM (fun m => l.resolve (trail.deeper 2) (p.graph.datum m)) >>= fun texts =>
        p.introduceArray (p.graph.idOf w) texts none) c₁ a c' →
      p.Step c₁ c' ∧ IsLine a ∧ ∀ m ∈ ms, p.Covered c' m := by
    intro c₁ hc₁ h
    obtain ⟨texts,c₂,htexts,h⟩ := gives_bind.mp h
    obtain ⟨hs,hlines,hcov⟩ := steps_answers (fun m hm => answers_operand hp hl hv (hms m hm)) hc₁ htexts
    obtain ⟨rfl,rfl⟩ := Setting.gives_introduceArray h
    have hcode : IsLine (Setting.arrayCode texts) := by
      rw [Setting.arrayCode]
      split
      · decide
      · simp only [isLine_append]
        exact ⟨⟨by decide,isLine_intercalate (by decide) hlines⟩,by decide⟩
    have hfresh := step_freshArray (p := p) hs.ready
    have hcovered : ∀ m ∈ ms, p.Covered (c₂.freshArray p.options).2 m := fun m hm =>
      hfresh.covered (hcov m hm)
    have hbind := step_bindArray hp.options hfresh.ready (p.graph.idOf w)
      (fun m hm => hcovered m (hlinks ▸ hm)) (c₂.freeNumber p.options.arrayStem c₂.arrayCount) hcode
    refine ⟨(hs.trans hfresh).trans hbind,?_,fun m hm => hbind.covered (hcovered m hm)⟩
    exact isLine_numbered (isIdentifier_stem hp.options).2.1 _
  obtain ⟨id,hid,hlist⟩ := Setting.gives_arrayOf h
  cases hid
  cases hlist with
  | @kept e n ha hn hle =>
    obtain ⟨hline,hcov⟩ := hc.arrays w e.text (.inl ⟨e.depth,ha⟩)
    exact ⟨.refl hc,hline,fun m hm => hcov m (hlinks ▸ hm)⟩
  | new ha hms' h =>
    cases hmembers.symm.trans hms'
    exact hlisted hc h
  | again ha hn hlt hms' h =>
    cases hmembers.symm.trans hms'
    have haside := step_setArrayAside hc ha hlt
    obtain ⟨hs,hline,hcov⟩ := hlisted haside.ready h
    exact ⟨haside.trans hs,hline,hcov⟩

theorem steps_argument (hv : p.graph.Leads false p.root v) (hw : w ∈ (p.graph.kind v).targets)
    (hc : p.Ready c) {d : Datum}
    (h : Gives (Emit.ofExcept (p.graph.toArgument (p.graph.datum w)) >>= p.argumentCode l trail) c d c') :
    p.Step c c' ∧ (∃ a, d = .text a ∧ IsLine a) ∧ ∀ m ∈ p.graph.expand w, p.Covered c' m := by
  have hlinks : ∀ m ∈ p.graph.expand w, m ∈ p.graph.links v := fun m hm => hp.sorted.mem_links hw hm
  rcases hp.sorted.of_targets hw with hn | ⟨ms,hms⟩
  · have hnone := Graph.members_of_isNode hn
    have hexpand : p.graph.expand w = [w] := by rw [Graph.expand, hnone]; rfl
    rw [Graph.datum_of_isNode hn, Graph.toArgument_of_members_none hnone, gives_ofExcept_bind] at h
    simp only [Except.ok.injEq, exists_eq_left', Setting.argumentCode, gives_bind, gives_pure] at h
    obtain ⟨a,c₁,h,rfl,rfl⟩ := h
    have ha := hl hn (leads_link hv (hlinks w (by simp [hexpand]))) hc h
    refine ⟨ha.step,⟨a,rfl,ha.isLine⟩,fun m hm => ?_⟩
    rw [hexpand, List.mem_singleton] at hm
    exact hm ▸ ha.covered
  · have hexpand : p.graph.expand w = ms := by rw [Graph.expand, hms]; rfl
    rw [Graph.datum_of_members hms, Graph.toArgument_of_members hms, gives_ofExcept_bind] at h
    simp only [Except.ok.injEq, exists_eq_left', Setting.argumentCode, gives_bind, gives_pure] at h
    obtain ⟨a,c₁,h,rfl,rfl⟩ := h
    obtain ⟨hs,hline,hcov⟩ := steps_arrayOf hp hl hv hms (fun m hm => hlinks m (hexpand ▸ hm)) hc h
    exact ⟨hs,⟨a,rfl,hline⟩,fun m hm => hcov m (hexpand ▸ hm)⟩

theorem steps_callCode (hv : p.graph.Leads false p.root v) {name : String} (hname : IsLine name)
    {ws : List Nat} (hws : ∀ w ∈ ws, w ∈ (p.graph.kind v).targets) (ns : List Int) (hc : p.Ready c)
    {a : String}
    (h : Gives (p.callCode l trail name (ws.map p.graph.datum ++ ns.map .int)) c a c') :
    p.Step c c' ∧ IsLine a ∧ ∀ w ∈ ws, ∀ m ∈ p.graph.expand w, p.Covered c' m := by
  obtain ⟨texts,rfl,hcodes⟩ := Setting.gives_callCode h
  simp only [List.mapM_append, gives_bind, gives_pure] at hcodes
  obtain ⟨ds,c₁,hds,es,c₂,hes,htexts,rfl⟩ := hcodes
  rw [List.mapM_map] at hds
  obtain ⟨hs,hlines,hcov⟩ := steps_mapM (Q := fun d => ∃ a, d = .text a ∧ IsLine a)
    (K := fun w m => m ∈ p.graph.expand w) (fun w hw c c' d hc h => steps_argument hp hl hv (hws w hw) hc h) hc hds
  obtain ⟨rfl,rfl⟩ := gives_wholes (p := ⟨p.toSetting, []⟩) hes
  have hall : ∀ a ∈ texts, IsLine a := by
    intro a ha
    have hmem : Datum.text a ∈ texts.map Datum.text := List.mem_map_of_mem ha
    rw [htexts, List.mem_append] at hmem
    rcases hmem with hd | hn
    · obtain ⟨_,⟨⟩,hline⟩ := hlines _ hd
      exact hline
    · obtain ⟨n,_,⟨⟩⟩ := List.mem_map.mp hn
      exact (Operand.whole n).newline_not_mem_text
  refine ⟨hs,?_,hcov⟩
  simp only [isLine_append]
  exact ⟨⟨⟨hname,by decide⟩,isLine_intercalate (by decide) hall⟩,by decide⟩

theorem steps_add (hv : p.graph.Leads false p.root v) (ht : t ∈ p.graph.links v) {update : String → String}
    (hu : ∀ value, IsLine value → Line.IsStatement (update value)) (hc : p.Ready c) {u : PUnit}
    (h : Gives (l.resolve trail (p.graph.datum t) >>= fun value => p.write (update value)) c u c') :
    p.Step c c' ∧ p.Covered c' t := by
  obtain ⟨value,c₁,hr,hw⟩ := gives_bind.mp h
  have ha := answers_operand hp hl hv ht hc hr
  have hs := step_write ha.step.ready (hu value ha.isLine)
  rw [Setting.write, gives_modify] at hw
  subst hw
  exact ⟨ha.step.trans hs,hs.covered ha.covered⟩

end

theorem looping_of_openLoop (hc : p.Ready c) (hv : p.graph.Leads false p.root v)
    (hr : (p.graph.kind v).isReducer = true) {k : Nat} (h : Gives (p.openLoop (.object v)) c k c') :
    p.Looping v := by
  obtain ⟨vars,length,_,_,hne,_,hvars⟩ := Setting.gives_openLoop h
  obtain ⟨id,hid⟩ := List.exists_mem_of_ne_nil vars hne
  obtain ⟨n,hmem,hreach⟩ := hvars id hid
  have hvector : id.serial = p.vector := hc.columns (id, n) hmem
  exact ⟨hv,hr,hvector ▸ hreach⟩

/-- The loop of a reducer: what is done in it stays done, and it is one more loop. -/
theorem steps_loop (hp : p.Fair) (hb : l.Balances p.graph) (hl : p.Resolves l)
    (hv : p.graph.Leads false p.root v) (ht : t ∈ p.graph.links v) {update : String → String}
    (hu : ∀ value, IsLine value → Line.IsStatement (update value)) (hc : p.Ready c)
    (htop : c.stack = []) {u : PUnit}
    (h : Gives (p.openLoop (.object v) >>= fun i => insideLoop i
      (l.resolve trail (p.graph.datum t) >>= fun value => p.write (update value))) c u c') :
    p.Ready c' ∧ c'.stack = [] ∧ c.Writes c' ∧ p.Covered c' t ∧
      (∀ r, p.Looping r → c.Done r → c'.Done r) ∧
      c'.loopCount + (p.finished c).card = c.loopCount + 1 + (p.finished c').card := by
  obtain ⟨i,c₁,hopen,h⟩ := gives_bind.mp h
  obtain ⟨vars,length,rfl,rfl,hne,hfree,hvars⟩ := Setting.gives_openLoop hopen
  have hreg : ∀ id ∈ vars, (c.columns.get? id).isSome = true := fun id hid =>
    (hvars id hid).elim fun n hn => IdMap.isSome_of_mem hn.1
  have hready := hc.withLoop hp.options htop hne hfree hreg length
  obtain ⟨c₂,hadd,hleave⟩ := gives_insideLoop h
  obtain ⟨hs,hcov⟩ := steps_add hp hl hv ht hu hready hadd
  -- The loop that was opened is the one to be left.
  have hbalanced : (l.resolve trail (p.graph.datum t) >>= fun value => p.write (update value) :
      Emit Unit).Balances (p.graph.touched (p.graph.datum t)) :=
    .bind (hb trail _) fun value => p.balances_write _
  have hmoves := hbalanced _ hready.sound
  rw [hadd] at hmoves
  obtain ⟨m,hlast,hm,_⟩ := Draft.Moves.loop hc.sound hfree hmoves
  have hstack : c₂.stack = [c.loops.length] := by
    rw [hmoves.balanced.stack]
    change c.stack ++ [c.loops.length] = _
    rw [htop, List.nil_append]
  have hclosed := leaveLoop_outcome hs.ready.sound hlast hm
  obtain rfl : c' = { c₂ with body := Draft.closedBody c₂.body m }.withoutLoop c.loops.length m :=
    (Prod.mk.inj (hleave.symm.trans hclosed)).2
  obtain ⟨hready',hdone⟩ := hs.ready.withoutLoop hp.free hstack hm
  have hnew : p.finished (c.withLoop p.options vars length) = p.finished c :=
    finished_congr fun r _ => Iff.rfl
  refine ⟨hready',?_,?_,hcov.mono fun r hr => (hdone r hr).mpr,fun r hr hd => ?_,?_⟩
  · change c₂.stack.dropLast = []
    rw [hstack]
    rfl
  · exact ((Draft.Writes.withLoop hp.options htop vars length).trans hs.advances.writes).trans
      (.withoutLoop hs.ready.sound hstack hm)
  · exact (hdone r hr).mpr (hs.advances.done r hr hd)
  · have hcount := hs.advances.count
    rw [hnew] at hcount
    rw [finished_congr hdone]
    exact hcount

/-- A reducer that takes a loop becomes done when its sum is registered. -/
theorem finished_insert (hv : p.Looping v) (hnone : c.results[v]? = none) (text : String) {d : Nat}
    (hd : d = 0) : (p.finished { c with results := c.results.insert v ⟨text, d⟩ }).card =
      (p.finished c).card + 1 := by
  classical
  have hnot : v ∉ p.finished c := by
    intro hm
    obtain ⟨e',he',_⟩ := (mem_finished.mp hm).2
    rw [hnone] at he'
    cases he'
  have hinsert : p.finished { c with results := c.results.insert v ⟨text, d⟩ } =
      insert v (p.finished c) := by
    ext r
    rw [mem_finished, Finset.mem_insert, mem_finished, Draft.Done, Draft.Done, Cache.getElem?_insert]
    by_cases hr : v = r
    · subst hr
      simp [hv, hd]
    · simp [hr, Ne.symm hr]
  rw [hinsert, Finset.card_insert_of_notMem hnot]

theorem ready_finish (hc : p.Ready c) (hnone : c.results[v]? = none)
    (hcov : ∀ w ∈ p.graph.links v, p.Covered c w) {text : String} (ht : IsLine text) {d : Nat}
    (hd : d = 0) : p.Ready { c with results := c.results.insert v ⟨text, d⟩ } ∧
      p.Covered { c with results := c.results.insert v ⟨text, d⟩ } v ∧
      ∀ r, p.Looping r → c.Done r → { c with results := c.results.insert v ⟨text, d⟩ }.Done r := by
  have hkeep : ∀ r, p.Looping r → c.Done r →
      { c with results := c.results.insert v ⟨text, d⟩ }.Done r := by
    rintro r _ ⟨e,he,hed⟩
    have hne : ¬ v = r := by
      rintro rfl
      rw [hnone] at he
      cases he
    exact ⟨e,by rw [Cache.getElem?_insert, if_neg hne]; exact he,hed⟩
  have hself : p.Covered { c with results := c.results.insert v ⟨text, d⟩ } v := by
    refine covered_of_links (fun _ => ⟨⟨text, d⟩,?_,hd⟩) fun w hw => (hcov w hw).mono hkeep
    rw [Cache.getElem?_insert, if_pos rfl]
  exact ⟨hc.insertResult ht (hd ▸ Nat.zero_le _) hkeep hself,hself,hkeep⟩

theorem steps_startSum (hp : p.Fair) (hc : p.Ready c) {acc : String} {c₁ c₂ : Draft}
    (hacc : p.freshTemp.Gives c acc c₁) (hw : (p.write (acc ++ " = 0.0")).Gives c₁ ⟨⟩ c₂) :
    ∃ k, acc = numbered p.options.tempStem k ∧ p.Step c c₂ ∧ c₂.stack = c.stack := by
  have hstem := (isIdentifier_stem hp.options).1
  have hacc : (acc, c₁) = c.freshTemp p.options := gives_modifyGet.mp hacc
  cases hacc
  have hfresh := step_freshTemp (p := p) hc
  have hzero : Line.IsStatement (numbered p.options.tempStem
      (c.freeNumber p.options.tempStem c.tempCount) ++ " = 0.0") := by
    have happend : " = 0.0" = " = " ++ "0.0" := by decide
    rw [happend, ← String.append_assoc]
    exact Line.isStatement_assign hstem _ (by decide)
  have hwrite := step_write hfresh.ready hzero
  rw [Setting.write, gives_modify] at hw
  subst hw
  exact ⟨_,rfl,hfresh.trans hwrite,rfl⟩

theorem steps_addUp (hp : p.Fair) (hb : l.Balances p.graph) (hl : p.Resolves l)
    (hv : p.graph.Leads false p.root v) (hr : (p.graph.kind v).isReducer = true)
    (hlinks : p.graph.links v = [t]) {update : String → String → String}
    (hu : ∀ k value, IsLine value →
      Line.IsStatement (update (numbered p.options.tempStem k) value))
    (hc : p.Ready c) (htop : p.Looping v → c.stack = []) {u : PUnit}
    (h : Gives (p.addUp l trail v t update) c u c') : p.Step c c' ∧ p.Covered c' v := by
  have hmem : t ∈ p.graph.links v := by simp [hlinks]
  have hall : ∀ {c : Draft}, p.Covered c t → ∀ w ∈ p.graph.links v, p.Covered c w := by
    intro c hcov w hw
    rw [hlinks, List.mem_singleton] at hw
    exact hw ▸ hcov
  obtain ⟨acc,_,c₁,c₂,hacc,hzero,h,hreg⟩ := Setting.gives_addUp h
  obtain ⟨k,rfl,hstart,hstack⟩ := steps_startSum hp hc hacc hzero
  have hline := isLine_numbered (isIdentifier_stem hp.options).1 k
  dsimp only at h
  split at h
  · obtain ⟨i,c₃,hopen,_⟩ := gives_bind.mp h
    have hv' := looping_of_openLoop hstart.ready hv hr hopen
    obtain ⟨hready,hend,hwrites,hcov,hkeep,hcount⟩ :=
      steps_loop hp hb hl hv hmem (hu k) hstart.ready (hstack.trans (htop hv')) h
    obtain ⟨a,hreg⟩ := gives_discard.mp hreg
    obtain ⟨id,hid,hnone,rfl,rfl⟩ := Setting.gives_register hreg
    cases hid
    have hdepth : c₂.depthOf (numbered p.options.tempStem k) = 0 := by
      have hle := c₂.depthOf_le (numbered p.options.tempStem k)
      rw [Draft.depth, hend] at hle
      exact Nat.le_zero.mp hle
    obtain ⟨hready',hself,hkeep'⟩ := ready_finish hready hnone (hall hcov) hline hdepth
    have hstep := hstart.advances
    refine ⟨⟨hready',(hstep.writes.trans hwrites).trans (.of_eq rfl rfl rfl rfl),?_,?_⟩,hself⟩
    · exact fun r hr hd => hkeep' r hr (hkeep r hr (hstep.done r hr hd))
    · have hnew := finished_insert hv' hnone (numbered p.options.tempStem k) hdepth
      have hbefore := hstep.count
      have htotal : c₂.loopCount + (p.finished c).card = c.loopCount + ((p.finished c₂).card + 1) := by
        omega
      exact htotal.trans (congrArg (c.loopCount + ·) hnew.symm)
  · rename_i hsmall
    have hv' : ¬ p.Looping v := fun hv' => hsmall (hp.large v hv' t hmem)
    obtain ⟨hs,hcov⟩ := steps_add hp hl hv hmem (hu k) hstart.ready h
    obtain ⟨hs',hself⟩ := step_register hp hs.ready hv' (hall hcov) hline hreg
    exact ⟨(hstart.trans hs).trans hs',hself⟩

theorem not_looping_of_kind (hr : (p.graph.kind v).isReducer = false) : ¬ p.Looping v := by
  intro hv
  have hred := hv.reducer
  rw [hr] at hred
  cases hred

section

variable (hp : p.Fair) (hl : p.Resolves l) (hv : p.graph.Leads false p.root v)
  (hr : (p.graph.kind v).isReducer = false) (hc : p.Ready c) {u : PUnit}

include hp hr hc

theorem steps_leaf (hparts : (p.graph.kind v).parts? = some []) {text : String} (ht : IsLine text)
    {save : Bool} (h : Gives (discard (p.register (.object v) text save)) c u c') :
    p.Step c c' ∧ p.Covered c' v := by
  refine step_register hp hc (not_looping_of_kind hr) (fun w hw => ?_) ht h
  rw [Graph.links_of_parts (by simp) hparts] at hw
  cases hw

theorem steps_save {ws : List Nat} (hnodes : ∀ w ∈ ws, (p.graph.kind w).isNode = true)
    (hparts : (p.graph.kind v).parts? = some ws) {f : Nat → Emit String} {k : List String → Emit String}
    (hf : ∀ w ∈ ws, w ∈ p.graph.links v → ∀ {c c' : Draft} {a : String}, p.Ready c →
      Gives (f w) c a c' → p.Answers c w a c')
    (hcode : ∀ {texts : List String} {c c' : Draft} {a : String}, (∀ a ∈ texts, IsLine a) →
      Gives (k texts) c a c' → c' = c ∧ IsLine a)
    (h : Gives (ws.mapM f >>= fun texts => k texts >>= fun t => p.saveResult v t) c u c') :
    p.Step c c' ∧ p.Covered c' v := by
  have hlinks := Graph.links_of_parts hnodes hparts
  obtain ⟨texts,c₁,htexts,hrest⟩ := gives_bind.mp h
  obtain ⟨text,c₂,htext,hreg⟩ := gives_bind.mp hrest
  obtain ⟨hs,hlines,hcov⟩ := steps_answers (fun w hw => hf w hw (hlinks ▸ hw)) hc htexts
  obtain ⟨rfl,hline⟩ := hcode hlines htext
  obtain ⟨hs',hself⟩ := step_register hp hs.ready (not_looping_of_kind hr) (hlinks ▸ hcov) hline hreg
  exact ⟨hs.trans hs',hself⟩

include hl hv

/-- A node that calls a function on its operands and on whole numbers. -/
theorem steps_call (ws : List Nat) (ns : List Int) (hparts : (p.graph.kind v).parts? = some ws)
    {name : String} (hname : IsLine name)
    (h : Gives (p.callCode l trail name (ws.map p.graph.datum ++ ns.map .int) >>= fun t =>
      p.saveResult v t) c u c') : p.Step c c' ∧ p.Covered c' v := by
  obtain ⟨text,c₁,hcode,h⟩ := gives_bind.mp h
  obtain ⟨hs,hline,hcov⟩ := steps_callCode hp hl hv hname
    (fun w hw => Setting.mem_targets_of_parts hparts hw) ns hc hcode
  have hlinks : ∀ w ∈ p.graph.links v, p.Covered c₁ w := by
    intro w hw
    rw [Graph.links, Graph.operands?, hparts, Option.map_some, Option.getD_some, List.mem_flatMap] at hw
    obtain ⟨w',hw',hmem⟩ := hw
    exact hcov w' hw' w hmem
  obtain ⟨hs',hself⟩ := step_register hp hs.ready (not_looping_of_kind hr) hlinks hline h
  exact ⟨hs.trans hs',hself⟩

end

theorem steps_emitNode (hp : p.Fair) (hb : l.Balances p.graph) (hl : p.Resolves l)
    (hv : p.graph.Leads false p.root v) (hnode : (p.graph.kind v).isNode = true) (hc : p.Ready c)
    (htop : p.Looping v → c.stack = []) {u : PUnit} (h : Gives (p.emitNode l trail v) c u c') :
    p.Step c c' ∧ p.Covered c' v := by
  obtain ⟨htemp,_,_,hobs,_⟩ := isIdentifier_stem hp.options
  have hbuiltin := hp.sorted.isBuiltIn (Graph.ne_identity_of_isNode hnode)
  have hnodes := hp.sorted.nodes v
  rw [Setting.emitNode] at h
  cases hk : p.graph.kind v with
  | parameter value isConstant =>
    simp only [hk] at h
    cases isConstant with
    | true => exact steps_leaf hp (by rw [hk]; rfl) hc (by rw [hk]; rfl) (isLine_floatCode _) h
    | false => exact absurd h not_gives_throw
  | observable =>
    simp only [hk, gives_get_bind] at h
    split at h
    · refine steps_leaf hp (by rw [hk]; rfl) hc (by rw [hk]; rfl) ?_ h
      simp only [isLine_append]
      exact ⟨⟨⟨newline_not_mem_of_isIdentifier hobs,by decide⟩,isLine_toString_int _⟩,by decide⟩
    · exact absurd h not_gives_throw
  | constant value =>
    simp only [hk] at h
    exact steps_leaf hp (by rw [hk]; rfl) hc (by rw [hk]; rfl) (isLine_floatCode _) h
  | sum ts =>
    rw [hk] at hnodes
    cases ts with
    | nil =>
      simp only [hk] at h
      exact steps_leaf hp (by rw [hk]; rfl) hc (by rw [hk]; rfl) (by decide) h
    | cons t ts =>
      simp only [hk] at h
      refine steps_save hp (by rw [hk]; rfl) hc hnodes (by rw [hk]; rfl)
        (k := fun texts => pure (String.intercalate " + " texts))
        (fun w _ hw => answers_operand hp hl hv hw) (fun hlines h => ?_) h
      obtain ⟨rfl,rfl⟩ := gives_pure.mp h
      exact ⟨rfl,isLine_intercalate (by decide) hlines⟩
  | product fs =>
    rw [hk] at hnodes
    cases fs with
    | nil =>
      simp only [hk] at h
      exact steps_leaf hp (by rw [hk]; rfl) hc (by rw [hk]; rfl) (by decide) h
    | cons f fs =>
      simp only [hk] at h
      refine steps_save hp (by rw [hk]; rfl) hc hnodes (by rw [hk]; rfl)
        (k := fun texts => pure (String.intercalate " * " texts))
        (fun w _ hw => answers_wrapped hp hl hv hw) (fun hlines h => ?_) h
      obtain ⟨rfl,rfl⟩ := gives_pure.mp h
      exact ⟨rfl,isLine_intercalate (by decide) hlines⟩
  | formula template args =>
    rw [hk] at hnodes
    simp only [hk] at h
    refine steps_save hp (by rw [hk]; rfl) hc hnodes (by rw [hk]; rfl)
      (fun w _ hw => answers_wrapped hp hl hv hw) (fun {texts} _ _ a hlines h => ?_) h
    obtain ⟨hfill,rfl⟩ := gives_ofExcept.mp h
    refine ⟨rfl,hp.templates v template args hv hk texts a hlines ?_⟩
    cases hf : fillTemplate p.options.machine.address template texts with
    | error e =>
      rw [hf] at hfill
      cases hfill
    | ok text =>
      rw [hf] at hfill
      cases hfill
      rfl
  | gaussian x mean sigma =>
    simp only [hk] at h
    exact steps_call hp hl hv (by rw [hk]; rfl) hc [x, mean, sigma] [] (by rw [hk]; rfl) (by decide) h
  | exponential x decay =>
    simp only [hk] at h
    exact steps_call hp hl hv (by rw [hk]; rfl) hc [x, decay] [] (by rw [hk]; rfl) (by decide) h
  | polynomial x cs order =>
    simp only [hk] at h
    exact steps_call hp hl hv (by rw [hk]; rfl) hc [x, cs] [order] (by rw [hk]; rfl) (by decide) h
  | mixture ds cs =>
    simp only [hk] at h
    exact steps_call hp hl hv (by rw [hk]; rfl) hc [ds, cs] [] (by rw [hk]; rfl) (by decide) h
  | entrySum t =>
    rw [hk] at hnodes
    simp only [hk] at h
    refine steps_addUp hp hb hl hv (by rw [hk]; rfl)
      (Graph.links_of_parts hnodes (by rw [hk]; rfl)) (fun k value hvalue => ?_) hc htop h
    have htext : (numbered p.options.tempStem k ++ " += " ++ value).toList =
        (numbered p.options.tempStem k).toList ++ ' ' :: '+' :: '=' :: ' ' :: value.toList := by simp
    refine Line.isStatement_of htemp k htext (by decide) ?_
    simp only [isLine_append]
    exact ⟨⟨isLine_numbered htemp k,by decide⟩,hvalue⟩
  | negLogLikelihood t =>
    rw [hk] at hnodes
    simp only [hk] at h
    refine steps_addUp hp hb hl hv (by rw [hk]; rfl)
      (Graph.links_of_parts hnodes (by rw [hk]; rfl)) (fun k value hvalue => ?_) hc htop h
    have htext : (numbered p.options.tempStem k ++ " -= np.log(" ++ value ++ ")").toList =
        (numbered p.options.tempStem k).toList ++
          ' ' :: '-' :: ("= np.log(".toList ++ value.toList ++ [')']) := by simp
    refine Line.isStatement_of htemp k htext (by decide) ?_
    simp only [isLine_append]
    exact ⟨⟨⟨isLine_numbered htemp k,by decide⟩,hvalue⟩,by decide⟩
  | custom expr args save =>
    rw [hk] at hbuiltin
    cases hbuiltin
  | script steps args reducer =>
    rw [hk] at hbuiltin
    cases hbuiltin
  | collection ms =>
    rw [hk] at hnode
    cases hnode
  | identity =>
    rw [hk] at hnode
    cases hnode

theorem emits_emit (hp : p.Fair) (hb : l.Balances p.graph) (hl : p.Resolves l) : p.Emits (p.emit l) := by
  intro trail v c c' u hnode hv hc htop h
  rw [Setting.emit] at h
  split at h
  · simp at h
  · exact steps_emitNode hp hb hl hv hnode hc htop h

/-- What can be lifted out of the open loop is what takes a loop itself. -/
theorem isLiftable_iff (hc : p.Ready c) (hv : p.graph.Leads false p.root v) {b : Bool}
    (h : p.isLiftable c (.object v) = .ok b) : b = true ↔ c.stack ≠ [] ∧ p.Looping v := by
  rw [Setting.isLiftable] at h
  split at h
  · rename_i hnot
    cases h
    simp only [Bool.false_eq_true, false_iff, not_and]
    intro hstack hl
    simp [hstack, Setting.isReducer, hl.reducer] at hnot
  · rename_i hcond
    simp only [Setting.isReducer, Bool.or_eq_true, Bool.not_eq_true', List.isEmpty_iff, not_or,
      Bool.not_eq_false] at hcond
    obtain ⟨inputs,hi,h⟩ := Except.bind_eq_ok_iff.mp h
    cases h
    have hserial : ∀ id ∈ inputs, id.serial = p.vector := fun id hid =>
      ((Setting.mem_inputs hi id).mp hid).elim fun n hn => hc.columns _ hn.1
    simp only [Bool.and_eq_true, Bool.not_eq_true', List.isEmpty_eq_false_iff, List.all_eq_true]
    constructor
    · rintro ⟨hne,_⟩
      obtain ⟨id,hid⟩ := List.exists_mem_of_ne_nil inputs hne
      obtain ⟨n,_,hreach⟩ := (Setting.mem_inputs hi id).mp hid
      exact ⟨hcond.1,hv,hcond.2,hserial id hid ▸ hreach⟩
    · rintro ⟨hstack,hl⟩
      have hbound := (hc.single.resolve_left hstack).2
      refine ⟨?_,fun id hid => ?_⟩
      · obtain ⟨k,l,hopen,hmem⟩ := (hc.sound.bindings p.vector).mp hbound
        obtain ⟨id,hid,_⟩ := List.mem_map.mp hmem
        obtain ⟨e,he,_⟩ := IdMap.exists_mem_of_isSome (hc.sound.registered k l hopen id hid)
        have hin : e.1 ∈ inputs :=
          (Setting.mem_inputs hi e.1).mpr ⟨e.2,he,hc.columns e he ▸ hl.reaches⟩
        exact List.ne_nil_of_mem hin
      · rw [Std.TreeMap.contains_eq_isSome_getElem?, hserial id hid]
        exact hbound

theorem iterationDepth_eq_zero (hc : p.Ready c) (hv : p.Looping v) {d : Nat}
    (h : p.iterationDepth c (.object v) = .ok d) : d = 0 := by
  rw [Setting.iterationDepth] at h
  split at h
  · cases h
    rfl
  · rename_i hstack
    obtain ⟨b,hb,h⟩ := Except.bind_eq_ok_iff.mp h
    rw [(isLiftable_iff hc hv.reached hb).mpr ⟨by simpa using hstack,hv⟩, if_pos rfl] at h
    cases h
    rfl

section

variable {emit : Trail → Datum → Emit Unit} {T : Nat → Prop} (hp : p.Fair) (he : p.Emits emit)
  (hb : ∀ trail, (emit trail (.object v)).Balances T) (hnode : (p.graph.kind v).isNode = true)
  (hv : p.graph.Leads false p.root v) {a : String}

/-- A node that was lowered answers with the result it registered. -/
theorem answers_of_registered {c₁ : Draft} (hs : p.Step c c₁) (hcov : p.Covered c₁ v) {e : Entry}
    (hr : c₁.results[v]? = some e) : p.Answers c v e.text c₁ :=
  ⟨hs,(hs.ready.results v e.text (.inl ⟨e.depth,hr⟩)).1,hcov⟩

include he hnode hv in
theorem step_entered {id : Identity} (hc : p.Ready c) (htop : p.Looping v → c.stack = []) {inner : Draft}
    (h : (emit trail (.object v)).Gives (c.entered id) ⟨⟩ inner) :
    p.Step c inner.left ∧ p.Covered inner.left v := by
  obtain ⟨hs,hcov⟩ := he (c := c.entered id) hnode hv (hc.running _) htop h
  exact ⟨hs.running,hcov⟩

include hp he hb hnode hv

theorem answers_lower (hc : p.Ready c)
    (h : Gives (p.lower emit trail (.object v) (p.graph.idOf v)) c a c') : p.Answers c v a c' := by
  obtain ⟨_,⟨e,hr,rfl⟩,hlowers⟩ := Setting.gives_lower h
  cases hlowers with
  | here hlift hemit =>
    have htop : p.Looping v → c.stack = [] := fun hl => by
      by_contra hne
      exact absurd ((isLiftable_iff hc hv hlift).mpr ⟨hne,hl⟩) (by decide)
    obtain ⟨hs,hcov⟩ := step_entered @he hnode hv hc htop hemit
    exact answers_of_registered hs hcov hr
  | lifted hlift hemit =>
    obtain ⟨i,hi⟩ := (hc.single.resolve_left ((isLiftable_iff hc hv hlift).mp rfl).1).1
    obtain ⟨hs,hcov⟩ := step_entered @he hnode hv hc.atTop (fun _ => rfl) hemit
    have hmoves := hb (trail.enter (p.graph.idOf v)) (c.atTop.entered (p.graph.idOf v))
      (hc.atTop.sound.running _)
    rw [hemit] at hmoves
    obtain ⟨hs',hdone⟩ := Step.adopt hp.free hc hi (.left hmoves) hs
    exact answers_of_registered hs' (hcov.mono hdone) hr

theorem answers_resolve (hc : p.Ready c) (h : Gives (p.resolve emit trail (.object v)) c a c') :
    p.Answers c v a c' := by
  obtain ⟨id,hid,hresolved⟩ := Setting.gives_resolve h
  cases hid
  cases hresolved with
  | bound hbound =>
    obtain ⟨hvector,hline⟩ := hc.bindings v _ hbound
    have hk : p.graph.kind v = .observable := by
      have hvector : v = p.vector := hvector
      rw [hvector, hp.observable]
    refine ⟨.refl hc,hline,covered_of_links (fun hl => ?_) fun w hw => ?_⟩
    · exact absurd hl (not_looping_of_kind (by rw [hk]; rfl))
    · simp [Graph.links, Graph.operands?, hk, Kind.parts?] at hw
  | @cached e n _ hr _ _ =>
    obtain ⟨hline,hcov⟩ := hc.results v e.text (.inl ⟨e.depth,hr⟩)
    exact ⟨.refl hc,hline,hcov⟩
  | missing _ _ h => exact answers_lower hp he hb hnode hv hc h
  | stale _ hr hn hlt h =>
    have hnot : ¬ p.Looping v := fun hl => by
      rw [iterationDepth_eq_zero hc hl hn] at hlt
      exact absurd hlt (Nat.not_lt_zero _)
    have hs := step_setResultAside hc hnot hr hlt
    have ha := answers_lower hp he hb hnode hv hs.ready h
    exact ⟨hs.trans ha.step,ha.isLine,ha.covered⟩

end

/-- However deep nodes nest, asking for them finishes the reducers that they use, each with a loop. -/
theorem nested_resolves (hp : p.Fair) (n : Nat) : p.Resolves (p.nested n) := by
  have hscript : p.graph.Scriptless := hp.sorted.scriptless
  induction n with
  | zero =>
    intro trail v c c' a _ _ _ h
    exact absurd h not_gives_throw
  | succ n ih =>
    intro trail v c c' a hnode hv hc h
    have hb := (Setting.nested_balances hp.options hscript n).1
    exact answers_resolve hp (emits_emit hp hb ih)
      (fun trail => Setting.balances_emit hp.options hscript hb trail _) hnode hv hc h

end Survey

end FitCode
