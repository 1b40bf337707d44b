import FitCode.Proofs.Lowering.Hooks

/-! # Requests are balanced

Whatever a request does, it leaves the loops that were open as it found them, and closes those it
opened. This needs no assumption on the graph beyond the absence of scripts: it may have cycles, and
the request may fail at any point.
-/
namespace FitCode

open Text

theorem Except.bind_eq_ok_iff {ε α β : Type} {x : Except ε α} {f : α → Except ε β} {b : β} :
    x >>= f = .ok b ↔ ∃ a, x = .ok a ∧ f a = .ok b := by
  cases x with
  | error e =>
    refine ⟨fun h => ?_,fun ⟨a,h,_⟩ => ?_⟩ <;> cases h
  | ok a =>
    refine ⟨fun h => ⟨a,rfl,h⟩,?_⟩
    rintro ⟨a',h,hf⟩
    cases h
    exact hf

/-- A filter that may fail gives what the test holds of, if the test never fails. -/
theorem List.filterM_eq_ok {ε α : Type} {p : α → Except ε Bool} {as bs : List α} :
    as.filterM p = .ok bs ↔
      (∀ a ∈ as, ∃ b, p a = .ok b) ∧ bs = as.filter fun a => (p a).toOption == some true := by
  have haux : ∀ acc bs : List α, as.filterAuxM p acc = .ok bs ↔ (∀ a ∈ as, ∃ b, p a = .ok b) ∧
      bs = (as.filter fun a => (p a).toOption == some true).reverse ++ acc := by
    induction as with
    | nil => simp [List.filterAuxM, pure, Except.pure, eq_comm]
    | cons a as ih =>
      intro acc bs
      rw [List.filterAuxM, Except.bind_eq_ok_iff]
      cases hp : p a with
      | error e => simp [hp]
      | ok b => cases b <;> simp [hp, ih, cond, Except.toOption]
  rw [List.filterM, Except.bind_eq_ok_iff]
  constructor
  · rintro ⟨bs',h,hbs⟩
    obtain ⟨hp,rfl⟩ := (haux [] bs').mp h
    cases hbs
    exact ⟨hp,by simp⟩
  · rintro ⟨hp,rfl⟩
    exact ⟨_,(haux [] _).mpr ⟨hp,rfl⟩,by simp [pure, Except.pure]⟩

namespace Emit

variable {α β : Type} {T T' : Nat → Prop} {x : Emit α} {f : α → Emit β}

/-- Whether it succeeds or fails, the step is balanced from every sound draft. -/
def Balances (T : Nat → Prop) (x : Emit α) : Prop :=
  ∀ c : Draft, c.Sound → c.Moves T (x.outcome c).2

namespace Balances

theorem mono (h : x.Balances T) (hT : ∀ k, T k → T' k) : x.Balances T' :=
  fun c hc => (h c hc).mono hT

theorem pure (a : α) : (pure a : Emit α).Balances T := fun _ hc => .refl hc

theorem throw (e : Fault) : (throw e : Emit α).Balances T := fun _ hc => .refl hc

theorem bind (hx : x.Balances T) (hf : ∀ a, (f a).Balances T) : (x >>= f).Balances T := by
  intro c hc
  rw [outcome_bind]
  have hxc := hx c hc
  rcases hr : x.outcome c with ⟨r,c'⟩
  rw [hr] at hxc
  cases r with
  | error e => exact hxc
  | ok a => exact hxc.trans (hf a c' hxc.sound)

theorem composes (T : Nat → Prop) : Composes (Balances T) where
  pure := pure
  throw := throw
  bind := bind
  get_bind hf c hc := by
    rw [outcome_get_bind]
    exact hf c c hc

theorem ofExcept (r : Except Fault α) : (ofExcept r).Balances T := (composes T).ofExcept r

theorem throw_bind (e : Fault) (f : α → Emit β) : (MonadExcept.throw e >>= f).Balances T :=
  (composes T).throw_bind e f

theorem ofExcept_bind {r : Except Fault α} (hf : ∀ a, r = .ok a → (f a).Balances T) :
    (Emit.ofExcept r >>= f).Balances T := (composes T).ofExcept_bind hf

theorem modify {g : Draft → Draft} (hg : ∀ c : Draft, c.Sound → c.Moves T (g c)) :
    (modify g : Emit PUnit).Balances T := hg

theorem mapM {as : List α} (hf : ∀ a ∈ as, (f a).Balances T) : (as.mapM f).Balances T :=
  (composes T).mapM hf

theorem ite {p : Prop} [Decidable p] {y : Emit α} (hx : x.Balances T) (hy : y.Balances T) :
    (if p then x else y).Balances T := iteInduction (fun _ => hx) fun _ => hy

end Balances

end Emit

open Emit

namespace Draft

/-- The state after an array has been bound to an expression and cached for a collection. -/
def bindArray (c : Draft) (o : Options) (id : Identity) (name init : String) : Draft :=
  let c := c.introduce o name (name ++ " = " ++ init) (c.depthOf init)
  { c with arrays := c.arrays.insert id.serial ⟨name, c.bindingDepth name⟩ }

theorem bindingDepth_introduce (c : Draft) (o : Options) (name statement : String) (d : Nat) :
    (c.introduce o name statement d).bindingDepth name = if o.hoist then d else c.depth := by
  have hdepths : (c.introduce o name statement d).bindingDepths =
      (name, if o.hoist then d else c.depth) :: c.bindingDepths := by
    simp only [introduce, queueAt]
    generalize (if o.hoist = true then d else c.depth) = d
    split
    · rfl
    · split <;> rfl
  simp [bindingDepth, hdepths]

theorem Moves.bindArray {T : Nat → Prop} {c : Draft} (h : c.Sound) (id : Identity) (hT : T id.serial)
    (o : Options) (name init : String) : c.Moves T (c.bindArray o id name init) := by
  have hm : c.Moves T (c.introduce o name (name ++ " = " ++ init) (c.depthOf init)) :=
    .introduce h _ _ _ _
  rw [Draft.bindArray]
  generalize hc' : c.introduce o name (name ++ " = " ++ init) (c.depthOf init) = c' at hm
  refine hm.trans (.insertArray hm.sound hT ?_)
  rw [← hc', bindingDepth_introduce, hc', hm.balanced.depth_eq]
  split
  · exact c.depthOf_le init
  · exact Nat.le_refl _

end Draft

namespace Graph

theorem touched_of_identityOf {g : Graph} {d : Datum} {id : Identity} (h : g.identityOf d = .ok id) :
    g.touched d id.serial := by
  cases d with
  | object v =>
    cases h
    exact .refl v
  | identity i =>
    cases h
    rfl
  | _ => cases h

theorem touches_of_touched_datum {g : Graph} {w u : Nat} (h : g.touched (g.datum w) u) :
    g.Touches w u := by
  rw [datum] at h
  split at h
  · cases h
    exact .refl w
  · exact h

end Graph

section

variable {s : Setting} {T : Nat → Prop} {α : Type}

theorem balances_atTopLevel {x : Emit Unit} (hx : x.Balances T) : (atTopLevel x).Balances T := by
  intro c hc
  have hin := hx c.atTop (Draft.sound_atTop c)
  simp only [atTopLevel, outcome_get_bind, outcome_set_bind, outcome_attempt_bind]
  generalize x.outcome c.atTop = r at hin
  rcases r with ⟨r,inner⟩
  cases r with
  | error e => exact .backTo hc hin
  | ok a => exact .adopt hc hin

theorem outcome_whileLowering (id : Identity) (x : Emit Unit) (c : Draft) :
    (whileLowering id x).outcome c = ((x.outcome (c.entered id)).1, (x.outcome (c.entered id)).2.left) := by
  simp only [whileLowering, outcome_modify_bind, outcome_attempt_bind, outcome_ofExcept]

theorem balances_whileLowering {x : Emit Unit} (id : Identity) (hx : x.Balances T) :
    (whileLowering id x).Balances T := by
  intro c hc
  rw [outcome_whileLowering]
  exact .left (hx _ (hc.running _))

namespace Setting

theorem balances_identityOf (s : Setting) (d : Datum) : (s.identityOf d).Balances T := .ofExcept _

theorem balances_write (s : Setting) (text : String) : (s.write text).Balances T :=
  .modify fun _ hc => .write hc _

theorem balances_freshTemp (s : Setting) : s.freshTemp.Balances T := fun _ hc => .freshTemp hc _

theorem balances_bindTemp (s : Setting) (node : Datum) (expr : String) (name : Option String) :
    (s.bindTemp node expr name).Balances T := by
  intro c hc
  rw [bindTemp, outcome_get_bind]
  cases explicitName name with
  | some name =>
    by_cases htaken : c.taken.contains name = true
    · simp only [htaken, if_true]
      exact Balances.bind (s.balances_identityOf node) (fun id => .throw_bind _ _) c hc
    · simp only [htaken]
      exact .introduce hc _ _ _ _
  | none =>
    simp only [outcome_set_bind, outcome_pure]
    exact .bindFresh hc _ _

theorem balances_register {node : Datum} (hT : ∀ id, s.graph.identityOf node = .ok id → T id.serial)
    (expr : String) (save : Bool) : (s.register node expr save).Balances T := by
  refine .ofExcept_bind fun id hid => ?_
  have hinsert : ∀ text, (do
      modify fun c => { c with results := c.results.insert id.serial ⟨text, c.depthOf text⟩ }
      return text : Emit String).Balances T := fun text =>
    .bind (.modify fun c hc => .insertResult hc (hT id hid) (c.depthOf_le text)) fun _ => .pure text
  intro c hc
  simp only [outcome_get_bind]
  cases c.results[id.serial]? with
  | some e => exact .refl hc
  | none =>
    cases save with
    | true => exact Balances.bind (s.balances_bindTemp node expr none) hinsert c hc
    | false => exact hinsert expr c hc

/-- The code of an array with the given entries. -/
def arrayCode (texts : List String) : String :=
  if texts.isEmpty then "np.empty(0)" else "np.array([" ++ String.intercalate ", " texts ++ "])"

/-- An array is bound to a name, fresh or given, unless the given one is taken. -/
theorem introduceArray_cases (s : Setting) (id : Identity) (texts : List String)
    (name : Option String) (c : Draft) :
    (∃ e, (s.introduceArray id texts name).outcome c = (.error e, c)) ∨
      ∃ c₀ name', (c₀ = c ∨ c₀ = (c.freshArray s.options).2) ∧
        (s.introduceArray id texts name).outcome c =
          (.ok name', c₀.bindArray s.options id name' (arrayCode texts)) := by
  unfold introduceArray
  rw [outcome_get_bind]
  cases explicitName name with
  | some name =>
    by_cases htaken : c.taken.contains name = true
    · simp only [htaken, if_true]
      exact .inl ⟨_,rfl⟩
    · simp only [htaken]
      exact .inr ⟨c,name,.inl rfl,rfl⟩
  | none => exact .inr ⟨_,_,.inr rfl,rfl⟩

theorem balances_introduceArray {id : Identity} (hT : T id.serial) (texts : List String)
    (name : Option String) : (s.introduceArray id texts name).Balances T := by
  intro c hc
  rcases s.introduceArray_cases id texts name c with ⟨e,he⟩ | ⟨c₀,name',hc₀,he⟩
  · rw [he]
    exact .refl hc
  · rw [he]
    have hm : c.Moves T c₀ := by
      rcases hc₀ with rfl | rfl
      · exact .refl hc
      · exact .freshArray hc _
    exact hm.trans (.bindArray hm.sound id hT _ _ _)

theorem mem_columns_of_inputs {c : Draft} {node : Datum} {inputs : List Identity}
    (h : s.inputs c node = .ok inputs) {id : Identity} (hid : id ∈ inputs) :
    (c.columns.get? id).isSome := by
  have hmem : ∃ n, (id, n) ∈ c.columns := by
    cases node with
    | object v =>
      rw [Setting.inputs] at h
      obtain ⟨es,hes,h⟩ := Except.bind_eq_ok_iff.mp h
      cases h
      obtain ⟨⟨_,n⟩,he,rfl⟩ := List.mem_map.mp hid
      rw [(List.filterM_eq_ok.mp hes).2] at he
      exact ⟨n,List.mem_of_mem_filter he⟩
    | _ =>
      cases h
      cases hid
  obtain ⟨n,hn⟩ := hmem
  rw [IdMap.get?, Option.isSome_map, List.find?_isSome]
  exact ⟨_,hn,by simp [Identity.same]⟩

theorem openLoop_cases (s : Setting) (node : Datum) (c : Draft) :
    (∃ e, (s.openLoop node).outcome c = (.error e, c)) ∨
      ∃ vars length, (s.openLoop node).outcome c =
          (.ok c.loops.length, c.withLoop s.options vars length) ∧
        (∀ id ∈ vars, c.bindings[id.serial]? = none) ∧ ∀ id ∈ vars, (c.columns.get? id).isSome := by
  -- A node without an identity fails with that instead of the message that would name it.
  have hfail : ∀ f : Identity → Fault, ∃ e,
      (s.identityOf node >>= fun id => throw (f id) : Emit Nat).outcome c = (.error e, c) := by
    intro f
    rw [identityOf]
    cases s.graph.identityOf node with
    | error e => exact ⟨e,rfl⟩
    | ok id => exact ⟨_,rfl⟩
  rw [openLoop, outcome_get_bind, outcome_bind, outcome_ofExcept]
  cases hi : s.inputs c node with
  | error e => exact .inl ⟨e,rfl⟩
  | ok inputs =>
    simp only
    split
    · exact .inl (hfail _)
    · refine .inr ⟨_,_,rfl,fun id hid => ?_,fun id hid => ?_⟩
      · have hfree := (List.mem_filter.mp hid).2
        exact Std.TreeMap.getElem?_eq_none_of_contains_eq_false (by simpa using hfree)
      · exact mem_columns_of_inputs hi (List.mem_filter.mp hid).1
    · exact .inl (hfail _)

theorem balances_openLoop_bind (ho : s.options.Valid) (node : Datum) {x : Emit α} (hx : x.Balances T) :
    (s.openLoop node >>= fun h => insideLoop h x).Balances T := by
  intro c hc
  rw [outcome_bind]
  rcases s.openLoop_cases node c with ⟨e,he⟩ | ⟨vars,length,hopen,hfree,hreg⟩
  · rw [he]
    exact .refl hc
  · rw [hopen]
    have hin := hx _ (hc.withLoop ho hfree hreg length)
    simp only [insideLoop, outcome_attempt_bind]
    generalize x.outcome (c.withLoop s.options vars length) = r at hin
    obtain ⟨l,hlast,hl,hm⟩ := Draft.Moves.loop hc hfree hin
    rw [outcome_bind, leaveLoop_outcome hin.sound hlast hl]
    simp only [outcome_ofExcept]
    exact hm

theorem balances_lower {emit : Trail → Datum → Emit Unit} {trail : Trail} {node : Datum}
    (he : ∀ trail, (emit trail node).Balances T) (id : Identity) :
    (s.lower emit trail node id).Balances T := by
  unfold lower
  refine .ite (.throw_bind _ _) (.ite (.throw_bind _ _) fun c hc => ?_)
  rw [outcome_get_bind]
  refine Balances.ofExcept_bind (fun lift _ => .ite ?_ ?_) c hc
  · refine .bind (balances_atTopLevel (balances_whileLowering id (he _))) fun _ c hc => ?_
    rw [outcome_get_bind]
    split <;> exact .refl hc
  · refine .bind (balances_whileLowering id (he _)) fun _ c hc => ?_
    rw [outcome_get_bind]
    split <;> exact .refl hc

theorem balances_resolve {emit : Trail → Datum → Emit Unit} {trail : Trail} {node : Datum}
    (he : ∀ trail, (emit trail node).Balances T)
    (hT : ∀ id, s.graph.identityOf node = .ok id → T id.serial) :
    (s.resolve emit trail node).Balances T := by
  unfold resolve
  refine .ite (.throw_bind _ _) (.ofExcept_bind fun id hid => ?_)
  intro c hc
  rw [outcome_get_bind]
  cases c.bindings[id.serial]? with
  | some text => exact .refl hc
  | none =>
    cases hr : c.results[id.serial]? with
    | none => exact balances_lower he id c hc
    | some e =>
      simp only [outcome_bind, outcome_ofExcept]
      cases s.iterationDepth c node with
      | error e => exact .refl hc
      | ok depth =>
        by_cases hle : depth ≤ e.depth
        · simp only [hle, if_true]
          exact .refl hc
        · simp only [hle, if_false]
          have haside : c.Moves T (c.setResultAside id.serial e depth) :=
            .setResultAside hc (hT id hid) (Nat.lt_of_not_le hle)
          exact haside.trans (balances_lower he id _ haside.sound)

theorem balances_arrayOf {l : Lowerer} {trail : Trail} {collection : Datum}
    (hl : ∀ ms, s.members collection = .ok ms → ∀ m ∈ ms, ∀ trail,
      (l.resolve trail (s.graph.datum m)).Balances T)
    (hT : ∀ id, s.graph.identityOf collection = .ok id → T id.serial) (name : Option String) :
    (s.arrayOf l trail collection name).Balances T := by
  refine .ofExcept_bind fun id hid => ?_
  have hbuild : (do
      let ms ← Emit.ofExcept (s.members collection)
      let texts ← ms.mapM fun m => l.resolve (trail.deeper 2) (s.graph.datum m)
      s.introduceArray id texts name : Emit String).Balances T := by
    refine .ofExcept_bind fun ms hms => ?_
    exact .bind (.mapM fun m hm => hl ms hms m hm _) fun texts => balances_introduceArray (hT id hid) texts name
  intro c hc
  rw [outcome_get_bind]
  cases hr : c.arrays[id.serial]? with
  | none => exact hbuild c hc
  | some e =>
    simp only [outcome_bind (Emit.ofExcept (s.iterationDepth c collection)), outcome_ofExcept]
    cases s.iterationDepth c collection with
    | error e => exact .refl hc
    | ok depth =>
      by_cases hle : depth ≤ e.depth
      · simp only [hle, if_true]
        exact .refl hc
      · simp only [hle, if_false]
        have haside : c.Moves T (c.setArrayAside id.serial e depth) :=
          .setArrayAside hc (hT id hid) (Nat.lt_of_not_le hle)
        exact haside.trans (hbuild _ haside.sound)

end Setting

/-- Asking a lowerer for results is balanced. -/
def Lowerer.Balances (g : Graph) (l : Lowerer) : Prop :=
  ∀ trail d, (l.resolve trail d).Balances (g.touched d)

namespace Setting

variable {l : Lowerer}

theorem balances_operand (hl : l.Balances s.graph) {v w : Nat} (hw : w ∈ (s.graph.kind v).targets)
    (trail : Trail) : (l.resolve trail (s.graph.datum w)).Balances (s.graph.Touches v) :=
  (hl trail _).mono fun _ hu => .step hw (Graph.touches_of_touched_datum hu)

theorem balances_array (hl : l.Balances s.graph) (trail : Trail) (collection : Datum)
    (name : Option String) : (s.arrayOf l trail collection name).Balances (s.graph.touched collection) := by
  refine balances_arrayOf (fun ms hms m hm trail => ?_) (fun _ => Graph.touched_of_identityOf) name
  cases collection with
  | object v =>
    refine balances_operand hl ?_ trail
    rw [members] at hms
    cases hk : (s.graph.kind v).members? with
    | none => simp [hk] at hms
    | some ms' =>
      simp only [hk, Option.elim_some, Except.ok.injEq] at hms
      subst hms
      simp [Kind.targets, hk, hm]
  | _ => cases hms

theorem balances_argumentCode (hl : l.Balances s.graph) (trail : Trail) (k : ArgumentKind)
    (d : Datum) : (s.argumentCode l trail (k, d)).Balances (s.graph.touched d) :=
  argumentCode_composes (Balances.composes _) (fun trail => hl trail d)
    (fun trail => balances_array hl trail d none) trail k

theorem touched_of_toArgument {g : Graph} {d d' : Datum} {k : ArgumentKind}
    (h : g.toArgument d = .ok (k, d')) : ∀ u, g.touched d' u → g.touched d u := by
  intro u hu
  cases d with
  | object v =>
    simp only [Graph.toArgument] at h
    split at h <;> cases h <;> exact hu
  | _ => cases h <;> exact hu

theorem balances_argument (hl : l.Balances s.graph) {args : List Datum} (d : Datum) (hd : d ∈ args)
    (k : ArgumentKind) (d' : Datum) (hk : s.graph.toArgument d = .ok (k, d')) (trail : Trail) :
    (s.argumentCode l trail (k, d')).Balances fun u => ∃ d ∈ args, s.graph.touched d u :=
  (balances_argumentCode hl trail k d').mono fun u hu => ⟨d,hd,touched_of_toArgument hk u hu⟩

theorem balances_argumentsCode (hl : l.Balances s.graph) (trail : Trail) (args : List Datum) :
    (s.argumentsCode l trail args).Balances fun u => ∃ d ∈ args, s.graph.touched d u :=
  argumentsCode_composes (Balances.composes _) (balances_argument hl) trail

theorem balances_callCode (hl : l.Balances s.graph) (trail : Trail) (function : String)
    (args : List Datum) :
    (s.callCode l trail function args).Balances fun u => ∃ d ∈ args, s.graph.touched d u :=
  callCode_composes (Balances.composes _) (balances_argument hl) trail function

theorem touches_of_mem_operands {g : Graph} {v w u : Nat} (hw : w ∈ g.operands v)
    (hu : g.Touches w u) : g.Touches v u := by
  cases hk : (g.kind v).parts? with
  | none => simp [Graph.operands, Graph.operands?, hk] at hw
  | some ws =>
    simp only [Graph.operands, Graph.operands?, hk, Option.map_some, Option.getD_some,
      List.mem_flatMap, Graph.mem_expand] at hw
    obtain ⟨w',hw',⟨_,rfl⟩ | ⟨ms,hm,hmem⟩⟩ := hw
    · exact .step (mem_targets_of_parts hk hw') hu
    · exact .step (mem_targets_of_parts hk hw') (.step (by simp [Kind.targets, hm, hmem]) hu)

theorem hooks_balances (ho : s.options.Valid) (v : Nat) : s.Hooks v (Balances (s.graph.Touches v)) where
  toComposes := Balances.composes _
  count := .modify fun _ hc => .of_eq hc rfl rfl rfl rfl rfl rfl rfl rfl rfl rfl rfl
  freshTemp := s.balances_freshTemp
  write := s.balances_write
  register := balances_register fun _ h => Graph.touched_of_identityOf (d := .object v) h
  loop := balances_openLoop_bind ho _

theorem balances_emitNode (ho : s.options.Valid) (hg : s.graph.Scriptless) (hl : l.Balances s.graph)
    (trail : Trail) (v : Nat) : (s.emitNode l trail v).Balances (s.graph.Touches v) := by
  refine (hooks_balances ho v).emitNode hg (fun w hw trail => ?_) (fun w hw trail => ?_) trail
  · rcases hw with hw | hw
    · exact balances_operand hl hw trail
    · exact (hl trail _).mono fun u hu =>
        touches_of_mem_operands hw (Graph.touches_of_touched_datum hu)
  · exact (balances_array hl trail _ none).mono fun u hu =>
      .step hw (Graph.touches_of_touched_datum hu)

theorem balances_emit (ho : s.options.Valid) (hg : s.graph.Scriptless) (hl : l.Balances s.graph)
    (trail : Trail) (d : Datum) : (s.emit l trail d).Balances (s.graph.touched d) := by
  refine .ite (.throw_bind _ _) ?_
  cases d with
  | object v => exact balances_emitNode ho hg hl trail v
  | _ => exact .throw _

/-- However deep nodes nest, requests and lowerings are balanced. -/
theorem nested_balances (ho : s.options.Valid) (hg : s.graph.Scriptless) (n : Nat) :
    (s.nested n).Balances s.graph ∧
      ∀ trail d, ((s.nested n).emit trail d).Balances (s.graph.touched d) := by
  induction n with
  | zero => exact ⟨fun _ _ => .throw _,fun _ _ => .throw _⟩
  | succ n ih =>
    have hemit := fun trail d => balances_emit ho hg ih.1 trail d
    exact ⟨fun trail d => balances_resolve (fun trail => hemit trail d) fun _ =>
      Graph.touched_of_identityOf,hemit⟩

end Setting

end

end FitCode
