import FitCode.Proofs.Lowering.Body
import FitCode.Proofs.Lowering.Reducers

/-! # One loop for each reducer

The function generated for a model with one vector observable holds one `for` line for each reducer
over it, none besides, and no loop inside of another one.
-/
namespace FitCode

open Text Emit

namespace Text

/-- The lines of a text that open a loop, however they are indented. -/
def forLines (text : String) : List (List Char) :=
  (lines text.toList).filter fun l => "for ".toList.isPrefixOf (l.dropWhile isPad)

/-- A plain template without a line break gives a line for lines. -/
theorem keepsLines_of_outline {template : String} {o : Outline} (ho : outline? template = some o)
    (hn : .inl '\n' ∉ o) (address : Nat → List Char → Nat) : KeepsLines address template := by
  intro args text hargs h hm
  rw [(fillTemplate_plain ho h).2] at hm
  rcases Outline.mem_fill hm with hm | ⟨a,ha,hm⟩
  · exact hn hm
  · obtain ⟨arg,harg,rfl⟩ := List.mem_map.mp ha
    exact hargs arg harg hm

end Text

namespace Line

variable {l : Line} {ls : List Line}

theorem Tidy.newline_not_mem_render (h : l.Tidy) (i : Int) : '\n' ∉ (l.render i).toList := by
  rw [render]
  split
  · decide
  · rw [String.toList_append, String.toList_ofList, List.mem_append, not_or]
    refine ⟨fun hm => ?_,h.isLine⟩
    exact absurd (List.eq_of_mem_replicate hm) (by decide)

theorem Tidy.dropWhile_render (h : l.Tidy) (i : Int) :
    (l.render i).toList.dropWhile isPad = l.text.toList := by
  rw [render]
  split
  · rename_i hempty
    rw [eq_of_beq hempty]
    rfl
  · have hpad : ∀ c ∈ List.replicate (l.depth * i).toNat ' ', isPad c = true := fun c hc => by
      rw [List.eq_of_mem_replicate hc]
      decide
    rw [String.toList_append, String.toList_ofList, List.dropWhile_append_of_pos hpad, h.unpadded]

theorem lines_renderAll (h : ∀ l ∈ ls, l.Tidy) (i : Int) :
    lines (renderAll i ls).toList = ls.map (fun l => (l.render i).toList) ++ [[]] := by
  induction ls with
  | nil => rfl
  | cons l ls ih =>
    have hcons : (renderAll i (l :: ls)).toList = (l.render i).toList ++ '\n' :: (renderAll i ls).toList := by
      simp [renderAll]
    rw [hcons, lines_append_newline ((h l (by simp)).newline_not_mem_render i),
      ih fun l' hl' => h l' (by simp [hl'])]
    rfl

/-- The lines that open a loop in a printed text are those that do so in the listing. -/
theorem forLines_renderAll (h : ∀ l ∈ ls, l.Tidy) (i : Int) :
    forLines (renderAll i ls) = (ls.filter isFor).map fun l => (l.render i).toList := by
  rw [forLines, lines_renderAll h, List.filter_append, List.filter_map]
  have hend : [([] : List Char)].filter (fun l => "for ".toList.isPrefixOf (l.dropWhile isPad)) = [] := by
    decide
  rw [hend, List.append_nil]
  congr 1
  refine List.filter_congr fun l hl => ?_
  rw [Function.comp_apply, (h l hl).dropWhile_render i]
  rfl

theorem for_prefix_of_mem_forLines (h : ∀ l ∈ ls, l.Plain) (i : Int) {cs : List Char}
    (hm : cs ∈ forLines (renderAll i ls)) : "for ".toList <+: cs := by
  rw [forLines_renderAll fun l hl => (h l hl).toTidy] at hm
  obtain ⟨l,hl,rfl⟩ := List.mem_map.mp hm
  obtain ⟨hl,hfor⟩ := List.mem_filter.mp hl
  have hrender : l.render i = l.text := by
    rw [render, (h l hl).outermost hfor]
    split
    · rename_i hempty
      exact (eq_of_beq hempty).symm
    · simp
  rw [hrender]
  exact List.isPrefixOf_iff_prefix.mp hfor

end Line

theorem IdMap.mem_put {α : Type} {m : IdMap α} {id : Identity} {a : α} {e : Identity × α}
    (h : e ∈ m.put id a) : e ∈ m ∨ e.1.serial = id.serial := by
  induction m with
  | nil =>
    rw [put, List.mem_singleton] at h
    exact .inr (by rw [h])
  | cons f m ih =>
    rw [put] at h
    split at h
    · rename_i hsame
      rcases List.mem_cons.mp h with rfl | h
      · exact .inr (by simpa [Identity.same] using hsame)
      · exact .inl (by simp [h])
    · rcases List.mem_cons.mp h with rfl | h
      · exact .inl (by simp)
      · exact (ih h).imp_left fun h => by simp [h]

theorem Graph.Sorted.links_of_reducer {g : Graph} (hg : g.Sorted) {r : Nat}
    (hr : (g.kind r).isReducer = true) : ∃ t, g.links r = [t] := by
  have hnodes := hg.nodes r
  have hbuiltin := hg.isBuiltIn (v := r)
  cases hk : g.kind r with
  | entrySum t =>
    rw [hk] at hnodes
    exact ⟨t,Graph.links_of_parts hnodes (by rw [hk]; rfl)⟩
  | negLogLikelihood t =>
    rw [hk] at hnodes
    exact ⟨t,Graph.links_of_parts hnodes (by rw [hk]; rfl)⟩
  | script steps args reducer =>
    rw [hk] at hbuiltin
    cases hbuiltin Kind.noConfusion
  | _ =>
    rw [hk] at hr
    cases hr

namespace Survey

variable {p : Survey} {c c' c'' : Draft} {d : Datum} {u : PUnit}

/-- An argument is bound, in front of all code. -/
structure Binds (p : Survey) (c c' : Draft) : Prop where
  step : p.Step c c'
  stack : c'.stack = c.stack
  preamble : c'.preamble = c.preamble

theorem Binds.trans (h : p.Binds c c') (h' : p.Binds c' c'') : p.Binds c c'' :=
  ⟨h.step.trans h'.step,h'.stack.trans h.stack,h'.preamble.trans h.preamble⟩

theorem binds_forM {ι : Type} {f : ι → Emit PUnit} {is : List ι}
    (hf : ∀ i ∈ is, ∀ {c c' : Draft} {u : PUnit}, p.Ready c → Gives (f i) c u c' → p.Binds c c')
    (hc : p.Ready c) (h : Gives (is.forM f) c u c') : p.Binds c c' := by
  induction is generalizing c with
  | nil =>
    obtain ⟨rfl,rfl⟩ := gives_pure.mp h
    exact ⟨.refl hc,rfl,rfl⟩
  | cons i is ih =>
    obtain ⟨_,c₁,hi,his⟩ := gives_bind.mp h
    have hb := hf i (by simp) hc hi
    exact hb.trans (ih (fun j hj => hf j (by simp [hj])) hb.step.ready his)

theorem binds_register (hc : p.Ready c) {text : String} (ht : IsLine text)
    (hd : ∀ id, p.graph.identityOf d = .ok id → ¬ p.Looping id.serial ∧ p.Covered c id.serial)
    (h : Gives (discard (p.register d text false)) c u c') : p.Binds c c' := by
  obtain ⟨a,h⟩ := gives_discard.mp h
  obtain ⟨id,hid,_,rfl,rfl⟩ := Setting.gives_register h
  obtain ⟨hl,hcov⟩ := hd id hid
  exact ⟨step_insertResult hc hl hcov ht (c.depthOf_le a),rfl,rfl⟩

theorem binds_assignColumn (hc : p.Ready c) {n : Int}
    (hd : ∀ id, p.graph.identityOf d = .ok id → id.serial = p.vector)
    (h : Gives (p.assignColumn d (.int n)) c u c') : p.Binds c c' := by
  obtain ⟨id,k,hid,rfl⟩ : ∃ id k, p.graph.identityOf d = .ok id ∧
      c' = { c with columns := c.columns.put id k } := by
    simp only [Setting.assignColumn, Setting.identityOf, gives_ofExcept_bind, gives_get_bind] at h
    obtain ⟨id,hid,h⟩ := h
    refine ⟨id,n,hid,?_⟩
    cases hg : c.columns.get? id with
    | none =>
      simp only [hg, gives_ofExcept_bind, Kind.ofConversion, Datum.toInt, Except.mapError,
        Except.ok.injEq, exists_eq_left', gives_modify] at h
      exact h
    | some m =>
      simp only [hg, gives_ofExcept_bind] at h
      obtain ⟨b,_,h⟩ := h
      cases b with
      | false => simp at h
      | true =>
        simp only [Bool.not_true, Bool.false_eq_true, if_false, gives_ofExcept_bind, Kind.ofConversion,
          Datum.toInt, Except.mapError, Except.ok.injEq, exists_eq_left', gives_modify] at h
        exact h
  have hready : p.Ready { c with columns := c.columns.put id k } :=
    { hc with
      sound := hc.sound.assign id k
      columns := fun e he => (IdMap.mem_put he).elim (hc.columns e) fun h => h.trans (hd id hid) }
  exact ⟨⟨hready,.of_eq rfl rfl rfl rfl,fun r _ h => h,rfl⟩,rfl,rfl⟩

variable {m : Model}

/-- Parameters are bound, and so are observables; a vector observable gets a column. -/
theorem binds_bindArguments (hp : p.Fair) (hc : p.Ready c)
    (hparams : ∀ d ∈ m.parameters, ∀ id, p.graph.identityOf d = .ok id → p.bound id.serial)
    (hobs : ∀ d ∈ m.observables, ∀ id, p.graph.identityOf d = .ok id →
      p.graph.kind id.serial = .observable ∧ (1 < p.sizes.size id → id.serial = p.vector))
    (h : Gives (m.bindArguments p.toSetting) c u c') : p.Binds c c' := by
  obtain ⟨_,_,_,hobsName,hparamsName⟩ := isIdentifier_stem hp.options
  obtain ⟨_,c₁,hps,hos⟩ := gives_bind.mp h
  have hfirst : p.Binds c c₁ := by
    refine binds_forM (fun e he c c' u hc h => binds_register hc ?_ (fun id hid => ?_) h) hc hps
    · simp only [isLine_append]
      exact ⟨⟨⟨newline_not_mem_of_isIdentifier hparamsName,by decide⟩,isLine_toString_nat _⟩,by decide⟩
    · have hbound := hparams e.1 (List.fst_mem_of_mem_zipIdx he) id hid
      refine ⟨fun hl => hp.free _ hl hbound,fun r hr _ => ?_⟩
      cases hr with
      | refl hv => exact absurd hbound hv
      | step hv => exact absurd hbound hv
  refine hfirst.trans (binds_forM (fun e he c c' u hc h => ?_) hfirst.step.ready hos)
  have hmem := List.fst_mem_of_mem_zipIdx he
  simp only [Setting.identityOf, gives_ofExcept_bind] at h
  obtain ⟨id,hid,h⟩ := h
  have hsame : ∀ id', p.graph.identityOf e.1 = .ok id' → id' = id := fun id' hid' =>
    Except.ok.inj (hid'.symm.trans hid)
  obtain ⟨hk,hv⟩ := hobs e.1 hmem id hid
  split at h
  · rename_i hlt
    exact binds_assignColumn hc (fun id' hid' => by rw [hsame id' hid', hv hlt]) h
  · refine binds_register hc ?_ (fun id' hid' => ?_) h
    · simp only [isLine_append]
      exact ⟨⟨⟨newline_not_mem_of_isIdentifier hobsName,by decide⟩,isLine_toString_nat _⟩,by decide⟩
    · rw [hsame id' hid']
      have hnot : ¬ p.Looping id.serial := not_looping_of_kind (by rw [hk]; rfl)
      refine ⟨hnot,covered_of_links (fun hl => absurd hl hnot) fun w hw => ?_⟩
      simp [Graph.links, Graph.operands?, hk, Kind.parts?] at hw

theorem ready_start (n : Nat) : p.Ready { nextSerial := n } := by
  have hnone : ∀ {k l}, ¬ Draft.Opens { nextSerial := n } k l := by
    rintro k l ⟨i,hi,_⟩
    cases hi
  refine ⟨Draft.sound_start n,.inl rfl,by simp,by simp,?_,?_⟩
  · rintro v t (⟨d,hd⟩ | ⟨k,l,_,hl,_⟩)
    · simp at hd
    · exact (hnone hl).elim
  · rintro v t (⟨d,hd⟩ | ⟨k,l,_,hl,_⟩)
    · simp at hd
    · exact (hnone hl).elim

theorem finished_start (n : Nat) : p.finished { nextSerial := n } = ∅ := by
  refine Finset.eq_empty_of_forall_notMem fun r hr => ?_
  obtain ⟨e,he,_⟩ := (mem_finished.mp hr).2
  simp at he

/-- The printed body has one line that opens a loop for each reducer. -/
theorem emitBody_lines (hp : p.Fair) (hroot : m.root = .object p.root)
    (hnode : (p.graph.kind p.root).isNode = true)
    (hparams : ∀ d ∈ m.parameters, ∀ id, p.graph.identityOf d = .ok id → p.bound id.serial)
    (hobs : ∀ d ∈ m.observables, ∀ id, p.graph.identityOf d = .ok id →
      p.graph.kind id.serial = .observable ∧ (1 < p.sizes.size id → id.serial = p.vector))
    (hused : ∀ r, p.Looping r → p.graph.LeadsFree p.bound p.root r) {n : Nat} {body : String}
    (h : Gives (m.emitBody p.toSetting) { nextSerial := n } body c) :
    ∃ (ls : List Line) (rs : Finset Nat), body = Line.renderAll p.options.indentSize ls ∧
      (∀ l ∈ ls, l.Plain) ∧ ls.countP Line.isFor = rs.card ∧ ∀ r, r ∈ rs ↔ p.Looping r := by
  obtain ⟨_,c₁,hbind,h⟩ := gives_bind.mp h
  obtain ⟨expr,c₂,hreq,h⟩ := gives_bind.mp h
  have hb := binds_bindArguments hp (ready_start n) hparams hobs hbind
  rw [hroot] at hreq
  have ha := nested_resolves hp _ hnode (.refl p.root) hb.step.ready hreq
  have hmoves := (Setting.nested_balances hp.options hp.sorted.scriptless (p.options.machine.calls + 1)).1 {}
    (.object p.root) c₁ hb.step.ready.sound
  have hrun : ((p.nested (p.options.machine.calls + 1)).resolve {} (.object p.root)).outcome c₁ =
      (.ok expr, c₂) := hreq
  rw [hrun] at hmoves
  have hbalanced := hmoves.balanced
  have hstack : c₂.stack = [] := hbalanced.stack.trans hb.stack
  obtain ⟨hbody,htext⟩ := Model.gives_finish (hbalanced.preamble.trans hb.preamble) h
  have hsteps := hb.step.trans ha.step
  obtain ⟨new,hperm,hplain,hcount⟩ := hsteps.advances.writes
  have hlines : c₂.lines = c₂.body := by
    rw [Draft.lines, Draft.waiting_of_top hstack, List.append_nil]
  have hnew : c₂.body.Perm new := hlines ▸ hperm
  have hlist : ("return " ++ expr).toList = 'r' :: ("eturn ".toList ++ expr.toList) := by simp
  have hfor : Line.isFor ⟨0, "return " ++ expr⟩ = false := by
    rw [Line.isFor, hlist]
    rfl
  have hreturn : Line.Plain ⟨0, "return " ++ expr⟩ :=
    ⟨.of_cons (isLine_append.mpr ⟨by decide,ha.isLine⟩) hlist (by decide),fun _ => rfl⟩
  refine ⟨_,p.finished c₂,htext,fun l hl => ?_,?_,fun r => ?_⟩
  · rcases List.mem_append.mp hl with hl | hl
    · exact hplain l (hnew.mem_iff.mp hl)
    · exact List.mem_singleton.mp hl ▸ hreturn
  · have htotal := hsteps.advances.count
    rw [finished_start, Finset.card_empty] at htotal
    rw [List.countP_append, hnew.countP_eq, List.countP_singleton, if_neg (by simp [hfor])]
    omega
  · rw [mem_finished]
    exact ⟨fun h => h.1,fun h => ⟨h,ha.covered r (hused r h) h⟩⟩

end Survey

/-- The size that is given for an observable makes it a vector. -/
def Sizing.IsVector (g : Graph) (s : Sizing) (y : Nat) : Prop :=
  ∃ known n, Sizes.known g s = .ok known ∧ known.get? (g.idOf y) = some n ∧ 1 < n

namespace Model

/-- An acyclic graph of built-in nodes with the vector observable `x` and no other one. -/
structure OneVector (m : Model) (root x : Nat) (sizing : Sizing) : Prop where
  sorted : m.graph.Sorted
  acyclic : m.graph.Acyclic
  rooted : m.root = .object root
  isNode : (m.graph.kind root).isNode = true
  observables : ∀ d ∈ m.observables, ∀ id, m.graph.identityOf d = .ok id →
    m.graph.kind id.serial = .observable
  sized : ∀ e ∈ sizing, ∃ y, e.1 = .object y ∧ m.graph.kind y = .observable
  vector : ∀ y, sizing.IsVector m.graph y ↔ y = x

/-- The vertex is bound to an entry of the parameters. -/
def IsBound (m : Model) (v : Nat) : Prop :=
  ∃ d ∈ m.parameters, ∃ id, m.graph.identityOf d = .ok id ∧ id.serial = v

variable {m : Model} {root x : Nat} {sizing : Sizing} {sizes : SizeTable} {o : Options}

/-- The lowering of the root of a model with one vector observable. -/
def survey (m : Model) (root x : Nat) (o : Options) (sizes : SizeTable) : Survey :=
  { graph := m.graph, options := o, sizes, root, vector := x, bound := m.IsBound }

namespace OneVector

variable (hm : m.OneVector root x sizing) {levels : Nat}
  (hs : m.sizeTable levels (.inferred sizing) = .ok sizes)

include hm

theorem datum_link : ∀ v, ∀ w ∈ m.graph.links v, m.graph.datum w = .object w := fun _ _ hw =>
  Graph.datum_of_isNode (hm.sorted.isNode_of_links hw)

theorem kind_vector : m.graph.kind x = .observable := by
  obtain ⟨known,n,hk,hn,_⟩ := (hm.vector x).mpr rfl
  exact (Sizes.observable_of_known hm.sized hk hn).2

include hs

/-- A listed observable with many entries is the vector observable. -/
theorem eq_of_size {y : Nat} (hy : m.graph.kind y = .observable)
    (hlt : 1 < sizes.size (m.graph.idOf y)) : y = x := by
  obtain ⟨rank,hrank⟩ := hm.acyclic
  rw [sizeTable, hm.rooted] at hs
  exact (hm.vector y).mp (Sizes.known_of_size hrank hm.datum_link hs hy hlt)

/-- The term of a reducer over the vector observable has many entries. -/
theorem one_lt_size_link {r t : Nat} (hr : m.graph.Sums root x r) (ht : t ∈ m.graph.links r) :
    1 < sizes.size (m.graph.idOf t) := by
  obtain ⟨u,hu⟩ := hm.sorted.links_of_reducer hr.reducer
  obtain rfl : t = u := by simpa [hu] using ht
  obtain ⟨rank,hrank⟩ := hm.acyclic
  rw [sizeTable, hm.rooted] at hs
  obtain ⟨known,n,hk,hn,hlt⟩ := (hm.vector x).mpr rfl
  have hkx := hm.kind_vector
  have hmembers : (m.graph.kind x).members? = none := by rw [hkx]; rfl
  have hrx : (m.graph.kind x).isReducer = false := by rw [hkx]; rfl
  have hleads : m.graph.Leads true r x := (Graph.reaches_eq hmembers hr.reaches).mp rfl
  have hreached : m.graph.Leads false root x := hr.reached.trans (.inr (Graph.isOpen_false _ _)) hleads.mono
  have hsize : 1 < sizes.size (m.graph.idOf x) := by
    rw [Sizes.size_of_known hrank hm.datum_link hm.sized hs hk hn hreached]
    omega
  have hinferred := Sizes.infer_inferred hrank hm.datum_link hm.sized hs
  cases hleads with
  | refl =>
    rw [hr.reducer] at hrx
    cases hrx
  | @step _ w _ hw ho h =>
    obtain rfl : w = t := by simpa [hu] using hw
    have hrw : (m.graph.kind w).isReducer = false := by
      rcases ho with rfl | ho
      · exact hrx
      · exact Bool.eq_false_iff.mpr fun hred => ho ⟨rfl,hred⟩
    exact hinferred.one_lt_size h hrx hsize
      (hr.reached.trans (.inr (Graph.isOpen_false _ _)) (.step hw (.inl rfl) (.refl w))) hrw

theorem fair (ho : o.Valid)
    (htemplates : ∀ v template args, m.graph.Leads false root v →
      m.graph.kind v = .formula template args → KeepsLines o.machine.address template)
    (hfree : ∀ r, m.graph.Sums root x r → ¬ m.IsBound r) : (m.survey root x o sizes).Fair where
  options := ho
  sorted := hm.sorted
  observable := hm.kind_vector
  free := hfree
  large := fun _ hr _ ht => hm.one_lt_size_link hs hr ht
  templates := htemplates

end OneVector

/-- If a function is generated for a model with one vector observable, its body has as many lines that
open a loop as there are reducers over the observable, and none of them is indented. Templates are assumed
to give lines for lines, and every reducer to be reached by a path that no parameter cuts off. -/
theorem generate_oneLoop {given : List (String × Datum)} {machine : Machine} (hm : m.OneVector root x sizing)
    (ho : Options.ofFields given machine = .ok o)
    (htemplates : ∀ v template args, m.graph.Leads false root v →
      m.graph.kind v = .formula template args → KeepsLines o.machine.address template)
    (hused : ∀ r, m.graph.Sums root x r → m.graph.LeadsFree m.IsBound root r) {n : Nat} {gen : Generated}
    (h : m.generate o (.inferred sizing) n = .ok gen) :
    ∃ rs : List Nat, rs.Nodup ∧ (∀ r, r ∈ rs ↔ m.graph.Sums root x r) ∧
      (forLines gen.body).length = rs.length ∧ ∀ l ∈ forLines gen.body, "for ".toList <+: l := by
  obtain ⟨hsizes,_,c,hbody⟩ := gives_generate h
  have hfair := hm.fair hsizes (Options.valid_of_ofFields ho) htemplates fun r hr => (hused r hr).not_bound
  have hlisted : ∀ d ∈ m.observables, ∀ id, m.graph.identityOf d = .ok id →
      m.graph.kind id.serial = .observable ∧ (1 < gen.sizes.size id → id.serial = x) := by
    intro d hd id hid
    have hk := hm.observables d hd id hid
    exact ⟨hk,hm.eq_of_size hsizes hk⟩
  obtain ⟨ls,rs,hprint,hplain,hcount,hrs⟩ := Survey.emitBody_lines hfair hm.rooted hm.isNode
    (fun d hd id hid => ⟨d,hd,id,hid,rfl⟩) hlisted hused hbody
  refine ⟨rs.toList,rs.nodup_toList,fun r => ?_,?_,fun l hl => ?_⟩
  · rw [Finset.mem_toList, hrs]
    rfl
  · rw [hprint, Line.forLines_renderAll fun l hl => (hplain l hl).toTidy, List.length_map,
      ← List.countP_eq_length_filter, hcount, Finset.length_toList]
  · rw [hprint] at hl
    exact Line.for_prefix_of_mem_forLines hplain _ hl

/-- A model whose nodes refer to earlier ones, with the size of one observable given. -/
theorem oneVector_of_ordered (os : List Nat) (hg : m.graph.isTyped = true)
    (hlinks : ∀ v < m.graph.size, ∀ w ∈ m.graph.links v, w < v) (hroot : m.root = .object root)
    (hnode : (m.graph.kind root).isNode = true) (hos : m.observables = os.map .object)
    (hkinds : ∀ v ∈ os, m.graph.kind v = .observable) (hx : m.graph.kind x = .observable) {n : Int}
    (hn : 1 < n) : m.OneVector root x [(.object x, .int n)] where
  sorted := (Graph.typed_of_isTyped hg).sorted
  acyclic := Graph.acyclic_of_ordered hlinks
  rooted := hroot
  isNode := hnode
  observables := fun d hd id hid => by
    rw [hos] at hd
    obtain ⟨v,hv,rfl⟩ := List.mem_map.mp hd
    cases hid
    exact hkinds v hv
  sized := fun e he => ⟨x,by rw [List.mem_singleton.mp he],hx⟩
  vector := fun y => by
    have hknown : Sizes.known m.graph [(.object x, .int n)] = .ok [(m.graph.idOf x, n)] := rfl
    constructor
    · rintro ⟨known,k,hk,hget,_⟩
      obtain rfl := Except.ok.inj (hknown.symm.trans hk)
      obtain ⟨e,he,_⟩ := Option.map_eq_some_iff.mp hget
      have hsame := List.find?_some he
      rw [List.mem_singleton.mp (List.mem_of_find?_eq_some he)] at hsame
      exact (beq_iff_eq.mp hsame).symm
    · rintro rfl
      exact ⟨_,n,hknown,by simp [IdMap.get?, Identity.same],hn⟩

theorem exists_of_toOption {α β : Type} {r : Except Fault α} {f : α → β} {b : β}
    (h : r.toOption.map f = some b) : ∃ a, r = .ok a ∧ f a = b := by
  cases r with
  | error e => cases h
  | ok a => exact ⟨a,rfl,Option.some.inj h⟩

/-- A likelihood whose term is divided by a sum of its own, which is added to it once more. -/
def likelihood : Model where
  graph := ⟨#[⟨"x", .observable⟩, ⟨"y", .observable⟩, ⟨"p", .parameter 1 false⟩, ⟨"total", .entrySum 0⟩,
    ⟨"ratio", .formula "{0} / {1}" [0, 3]⟩, ⟨"nll", .negLogLikelihood 4⟩,
    ⟨"root", .sum [5, 3, 2, 1]⟩]⟩
  root := .object 6
  parameters := [.object 2]
  observables := [.object 0, .object 1]

theorem oneVector_likelihood : likelihood.OneVector 6 0 [(.object 0, .int 2)] :=
  oneVector_of_ordered [0, 1] (by decide +kernel) (by decide +kernel) rfl (by decide +kernel) rfl
    (by simp [likelihood, Graph.kind, Graph.vertex]) rfl (by decide)

theorem generate_oneLoop_likelihood :
    ∃ gen, likelihood.generate {} (.inferred [(.object 0, .int 2)]) 7 = .ok gen ∧
      (forLines gen.body).length = 2 ∧ ∃ rs : List Nat, rs.Nodup ∧ (∀ r, r ∈ rs ↔ likelihood.graph.Sums 6 0 r) ∧
        (forLines gen.body).length = rs.length ∧ ∀ l ∈ forLines gen.body, "for ".toList <+: l := by
  have htemplates : ∀ v template args, likelihood.graph.Leads false 6 v →
      likelihood.graph.kind v = .formula template args →
        KeepsLines ({} : Options).machine.address template := by
    intro v template args _ hk
    obtain ⟨o,hout,hline,_⟩ :=
      (Graph.builtIn_of_isPlain (by decide +kernel)).templates v template args hk
    exact keepsLines_of_outline hout hline _
  have hused : ∀ r, likelihood.graph.Sums 6 0 r → likelihood.graph.LeadsFree likelihood.IsBound 6 r := by
    refine fun r hr => hr.reached.leadsFree ?_ hr.reducer
    rintro v ⟨d,hd,id,hid,rfl⟩
    cases List.mem_singleton.mp hd
    cases hid
    exact ⟨rfl,rfl⟩
  obtain ⟨gen,h,hlen⟩ : ∃ gen, likelihood.generate {} (.inferred [(.object 0, .int 2)]) 7 = .ok gen ∧
      (forLines gen.body).length = 2 := exists_of_toOption (by decide +kernel)
  exact ⟨gen,h,hlen,generate_oneLoop oneVector_likelihood (rfl : Options.ofFields [] = .ok {})
    htemplates hused h⟩

/-- A template of two lines, the second of which opens a loop. -/
def twoLines : Model where
  graph := ⟨#[⟨"x", .observable⟩, ⟨"f", .formula "{0}\nfor k in range(2): pass" [0]⟩]⟩
  root := .object 1
  parameters := []
  observables := [.object 0]

/-- A sum over the observable that is bound as a parameter. -/
def boundSum : Model where
  graph := ⟨#[⟨"x", .observable⟩, ⟨"s", .entrySum 0⟩]⟩
  root := .object 1
  parameters := [.object 1]
  observables := [.object 0]

/-- A template can bring a loop of its own, and a parameter can stand in for a reducer. -/
theorem generate_loops_ne_reducers :
    (twoLines.OneVector 1 0 [(.object 0, .int 2)] ∧ (∀ r, ¬ twoLines.graph.Sums 1 0 r) ∧
      ∃ gen, twoLines.generate {} (.inferred [(.object 0, .int 2)]) 2 = .ok gen ∧
        (forLines gen.body).length = 1) ∧
    (boundSum.OneVector 1 0 [(.object 0, .int 2)] ∧ boundSum.graph.Sums 1 0 1 ∧
      ∃ gen, boundSum.generate {} (.inferred [(.object 0, .int 2)]) 2 = .ok gen ∧
        forLines gen.body = []) := by
  refine ⟨⟨?_,fun r hr => ?_,?_⟩,?_,⟨.refl 1,rfl,rfl⟩,?_⟩
  · exact oneVector_of_ordered [0] (by decide +kernel) (by decide +kernel) rfl (by decide +kernel)
      rfl (by simp [twoLines, Graph.kind, Graph.vertex]) rfl (by decide)
  · have hnone : ∀ r < 2, ¬ (twoLines.graph.kind r).isReducer = true := by decide +kernel
    exact hnone r hr.lt_size hr.reducer
  · exact exists_of_toOption (by decide +kernel)
  · exact oneVector_of_ordered [0] (by decide +kernel) (by decide +kernel) rfl (by decide +kernel)
      rfl (by simp [boundSum, Graph.kind, Graph.vertex]) rfl (by decide)
  · exact exists_of_toOption (by decide +kernel)

end Model

end FitCode
