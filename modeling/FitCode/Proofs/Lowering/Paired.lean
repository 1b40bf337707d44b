import FitCode.Proofs.Lowering.Mirror
import FitCode.Proofs.Lowering.Requests

/-! # Steps that keep two drafts in step

A pair of steps is run on two drafts that mirror each other. Both give corresponding values, or both
fail alike, and the drafts they leave mirror each other again.
-/
namespace FitCode

variable {e : Nat ≃ Nat}

namespace Emit

variable {α β γ δ : Type} {R : α → β → Prop} {S : γ → δ → Prop} {x : Emit α} {y : Emit β}

def Paired (e : Nat ≃ Nat) (R : α → β → Prop) (x : Emit α) (y : Emit β) : Prop :=
  ∀ ⦃c c' : Draft⦄, c.Mirrors e c' →
    Agree R (x.outcome c).1 (y.outcome c').1 ∧ (x.outcome c).2.Mirrors e (y.outcome c').2

namespace Paired

theorem pure {a : α} {b : β} (h : R a b) : Paired e R (pure a) (pure b) := fun _ _ hc => ⟨.ok h,hc⟩

theorem throw {f k : Fault} (h : f.unlabelled = k.unlabelled) : Paired e R (throw f) (throw k) :=
  fun _ _ hc => ⟨.error h,hc⟩

theorem ofExcept {r : Except Fault α} {t : Except Fault β} (h : Agree R r t) :
    Paired e R (ofExcept r) (ofExcept t) := by
  intro c c' hc
  rw [outcome_ofExcept, outcome_ofExcept]
  exact ⟨h,hc⟩

theorem bind {f : α → Emit γ} {k : β → Emit δ} (h : Paired e R x y)
    (hf : ∀ a b, R a b → Paired e S (f a) (k b)) : Paired e S (x >>= f) (y >>= k) := by
  intro c c' hc
  obtain ⟨hr,hm⟩ := h hc
  rw [outcome_bind, outcome_bind]
  generalize x.outcome c = p at hr hm ⊢
  generalize y.outcome c' = q at hr hm ⊢
  rcases p with ⟨r,d⟩
  rcases q with ⟨r',d'⟩
  dsimp only at hr hm
  cases hr with
  | ok hab => exact hf _ _ hab hm
  | error hf => exact ⟨.error hf,hm⟩

theorem throw_bind {f k : Fault} (h : f.unlabelled = k.unlabelled) {m : α → Emit γ} {n : β → Emit δ} :
    Paired e S (MonadExcept.throw f >>= m) (MonadExcept.throw k >>= n) := fun _ _ hc => ⟨.error h,hc⟩

theorem get : Paired e (Draft.Mirrors e) get get := fun _ _ hc => ⟨.ok hc,hc⟩

theorem set {c c' : Draft} (h : c.Mirrors e c') : Paired e Eq (set c : Emit PUnit) (set c') :=
  fun _ _ _ => ⟨.ok rfl,h⟩

theorem modify {f k : Draft → Draft} (h : ∀ c c', c.Mirrors e c' → (f c).Mirrors e (k c')) :
    Paired e Eq (modify f : Emit PUnit) (modify k) := fun _ _ hc => ⟨.ok rfl,h _ _ hc⟩

theorem ite {b : Prop} [Decidable b] {x' : Emit α} {y' : Emit β} (h : Paired e R x y)
    (h' : Paired e R x' y') : Paired e R (if b then x else x') (if b then y else y') := by
  split
  · exact h
  · exact h'

theorem attempt (h : Paired e R x y) : Paired e (Agree R) (attempt x) (attempt y) :=
  fun _ _ hc => ⟨.ok (h hc).1,(h hc).2⟩

theorem discard (h : Paired e R x y) : Paired e Eq (discard x) (discard y) := by
  have hmap : ∀ {ζ : Type} (z : Emit ζ), Functor.discard z = z >>= fun _ => Pure.pure PUnit.unit :=
    fun z => (map_eq_pure_bind _ z).trans rfl
  rw [hmap, hmap]
  exact h.bind fun _ _ _ => pure rfl

theorem mapM {f : α → Emit γ} {k : β → Emit δ} {as : List α} {bs : List β} (h : List.Forall₂ R as bs)
    (hf : ∀ a b, R a b → Paired e S (f a) (k b)) :
    Paired e (List.Forall₂ S) (as.mapM f) (bs.mapM k) := by
  induction h with
  | nil => exact pure .nil
  | cons hab _ ih =>
    rw [List.mapM_cons, List.mapM_cons]
    exact (hf _ _ hab).bind fun c d hcd => ih.bind fun cs ds hcds => pure (.cons hcd hcds)

theorem forM {f : α → Emit PUnit} {k : β → Emit PUnit} {as : List α} {bs : List β}
    (h : List.Forall₂ R as bs) (hf : ∀ a b, R a b → Paired e Eq (f a) (k b)) :
    Paired e Eq (as.forM f) (bs.forM k) := by
  induction h with
  | nil => exact pure rfl
  | cons hab _ ih => exact (hf _ _ hab).bind fun _ _ _ => ih

theorem mapM_eq {f : α → Emit γ} {k : β → Emit γ} {as : List α} {bs : List β} (h : List.Forall₂ R as bs)
    (hf : ∀ a b, R a b → Paired e Eq (f a) (k b)) : Paired e Eq (as.mapM f) (bs.mapM k) := by
  have hm := mapM h hf
  rwa [List.forall₂_eq_eq_eq] at hm

end Paired

end Emit

open Emit

/-- Two machines have the same limits. They may keep texts at other addresses, as far as the templates of
the graph do not show it. -/
structure Machine.Alike (g : Graph) (machine machine' : Machine) : Prop where
  calls : machine'.calls = machine.calls
  levels : machine'.levels = machine.levels
  templates : ∀ v template args, g.kind v = .formula template args → ∀ texts,
    Text.fillTemplate machine'.address template texts = Text.fillTemplate machine.address template texts

@[refl] theorem Machine.Alike.refl (g : Graph) (machine : Machine) : machine.Alike g machine :=
  ⟨rfl,rfl,fun _ _ _ _ _ => rfl⟩

/-- Two settings for isomorphic graphs: the same options, on machines that are alike, and corresponding
sizes. -/
structure Setting.Mirrors (e : Nat ≃ Nat) (s s' : Setting) : Prop where
  graph : s.graph.Iso s'.graph e
  options : s'.options = { s.options with machine := s'.options.machine }
  machine : s.options.machine.Alike s.graph s'.options.machine
  sizes : s.sizes.Renames e s'.sizes

structure Trail.Mirrors (e : Nat ≃ Nat) (t t' : Trail) : Prop where
  nodes : List.Forall₂ (Identity.Renames e) t.nodes t'.nodes
  calls : t'.calls = t.calls

theorem Trail.Mirrors.deeper {t t' : Trail} (h : t.Mirrors e t') (n : Nat) :
    (t.deeper n).Mirrors e (t'.deeper n) :=
  { h with calls := congrArg (· + n) h.calls }

theorem Trail.Mirrors.enter {t t' : Trail} (h : t.Mirrors e t') {a b : Identity}
    (hab : Identity.Renames e a b) : (t.enter a).Mirrors e (t'.enter b) :=
  ⟨List.rel_append h.nodes (.cons hab .nil),congrArg (· + 1) h.calls⟩

theorem Trail.Mirrors.cycleLabels {t t' : Trail} (h : t.Mirrors e t') {a b : Identity}
    (hab : Identity.Renames e a b) : (FitCode.cycleLabels t'.nodes b).map (fun _ => "") =
      (FitCode.cycleLabels t.nodes a).map fun _ => "" := by
  have hnodes := forall₂_dropWhile h.nodes fun i j hij => congrArg (!·) (hij.same hab)
  have hlabels : List.Forall₂ (fun _ _ => True) (FitCode.cycleLabels t.nodes a)
      (FitCode.cycleLabels t'.nodes b) :=
    List.rel_append (List.rel_map (fun _ _ _ => trivial) hnodes) (.cons trivial .nil)
  exact forall₂_map_eq hlabels fun _ _ _ => rfl

/-- Two ways to treat an object, which do the same on corresponding objects. -/
def SameOnObjects {α : Type} (e : Nat ≃ Nat) (f f' : Trail → Datum → Emit α) : Prop :=
  ∀ ⦃t t' : Trail⦄ ⦃d d' : Datum⦄, t.Mirrors e t' → d.Renames e d' → Paired e Eq (f t d) (f' t' d')

structure Lowerer.Mirrors (e : Nat ≃ Nat) (l l' : Lowerer) : Prop where
  resolve : SameOnObjects e l.resolve l'.resolve
  emit : SameOnObjects e l.emit l'.emit

theorem paired_closeLoop (i : Nat) : Paired e Eq (closeLoop i) (closeLoop i) := by
  refine Paired.get.bind fun c c' hc => ?_
  have hl := hc.loop? i
  generalize c.loop? i = l at hl ⊢
  generalize c'.loop? i = l' at hl ⊢
  cases hl with
  | none => exact .throw rfl
  | @some l l' hl =>
    have hend : Paired e Eq (modify fun c => c.withoutLoop i l : Emit PUnit)
        (modify fun c => c.withoutLoop i l') := .modify fun c c' hc => hc.withoutLoop i hl
    dsimp only
    -- Every condition reads what both loops have in common, so that the same branches are taken.
    rw [hl.closed, hl.index, hl.start, hl.queued, hl.depth, hc.stack, hc.body,
      hc.innermost_index]
    refine .ite (.throw_bind rfl) (.ite (.throw_bind rfl) ?_)
    have hqueued : Paired e Eq
        (if !l.queued.isEmpty then do
          let body ← Emit.ofExcept ((← get).body.insert l.start l.queued)
          modify fun c => { c with body }
          modify fun c => c.withoutLoop i l
        else modify fun c => c.withoutLoop i l : Emit Unit)
        (if !l.queued.isEmpty then do
          let body ← Emit.ofExcept ((← get).body.insert l.start l.queued)
          modify fun c => { c with body }
          modify fun c => c.withoutLoop i l'
        else modify fun c => c.withoutLoop i l') := by
      refine .ite (Paired.get.bind fun c c' hc => ?_) hend
      rw [hc.body]
      refine (Paired.ofExcept (.refl _)).bind fun body _ hbody => ?_
      refine (Paired.modify fun c c' hc => ?_).bind fun _ _ _ => hend
      exact { hc with body := hbody.symm }
    -- An empty loop gets a statement first.
    refine .ite ((Paired.modify fun c c' hc => ?_).bind fun _ _ _ => hqueued) hqueued
    exact { hc with body := by rw [hc.body] }

theorem paired_leaveLoop (i : Nat) : Paired e Eq (leaveLoop i) (leaveLoop i) := by
  refine Paired.get.bind fun c c' hc => ?_
  have hl := hc.loop? i
  generalize c.loop? i = l at hl ⊢
  generalize c'.loop? i = l' at hl ⊢
  cases hl with
  | none => exact .throw rfl
  | some hl =>
    dsimp only
    rw [hl.closed]
    exact .ite (paired_closeLoop i) (.pure rfl)

theorem paired_insideLoop {α : Type} {x y : Emit α} (h : Paired e Eq x y) (i : Nat) :
    Paired e Eq (insideLoop i x) (insideLoop i y) :=
  h.attempt.bind fun _ _ hr => (paired_leaveLoop i).bind fun _ _ _ => .ofExcept hr

theorem paired_atTopLevel {x y : Emit Unit} (h : Paired e Eq x y) :
    Paired e Eq (atTopLevel x) (atTopLevel y) := by
  refine Paired.get.bind fun outer outer' ho => (Paired.set ho.atTop).bind fun _ _ _ => ?_
  refine h.attempt.bind fun r r' hr => Paired.get.bind fun inner inner' hi => ?_
  refine (Paired.set (hi.backTo ho)).bind fun _ _ _ => (Paired.ofExcept hr).bind fun _ _ _ => ?_
  exact .modify fun c c' hc => hc.adopt hi

theorem paired_whileLowering {x y : Emit Unit} (h : Paired e Eq x y) (a b : Identity) :
    Paired e Eq (whileLowering a x) (whileLowering b y) := by
  refine Paired.bind (R := Eq) (.modify fun c c' hc => { hc with }) fun _ _ _ => ?_
  refine h.attempt.bind fun r r' hr => ?_
  exact Paired.bind (R := Eq) (.modify fun c c' hc => { hc with }) fun _ _ _ => .ofExcept hr

theorem Datum.Renames.paired_identityOf {d d' : Datum} (hd : d.Renames e d') (s s' : Setting) :
    Paired e (Identity.Renames e) (s.identityOf d) (s'.identityOf d') := .ofExcept hd.identityOf

theorem paired_write (s s' : Setting) (text : String) : Paired e Eq (s.write text) (s'.write text) := by
  refine .modify fun c c' hc => ?_
  rw [hc.depth]
  exact { hc with body := by rw [hc.body] }

theorem Datum.Renames.paired_assignColumn {d d' : Datum} (hd : d.Renames e d') (s s' : Setting) (n : Int) :
    Paired e Eq (s.assignColumn d (.int n)) (s'.assignColumn d' (.int n)) := by
  refine (hd.paired_identityOf s s').bind fun a b hab => Paired.get.bind fun c c' hc => ?_
  have hput : Paired e Eq
      (do
        let k ← Emit.ofExcept (Kind.ofConversion (Datum.int n).toInt)
        modify fun c => { c with columns := c.columns.put a k } : Emit Unit)
      (do
        let k ← Emit.ofExcept (Kind.ofConversion (Datum.int n).toInt)
        modify fun c => { c with columns := c.columns.put b k }) := by
    refine (Paired.ofExcept (.refl _)).bind fun k _ hk => hk ▸ .modify fun c c' hc => ?_
    exact { hc with columns := hc.columns.put hab k }
  rw [hc.columns.get? hab]
  cases c.columns.get? a with
  | none => exact hput
  | some k =>
    refine (Paired.ofExcept (.refl _)).bind fun same _ h => h ▸ .ite ?_ hput
    apply Paired.throw_bind
    rfl

theorem paired_registered {a b : Identity} (hab : Identity.Renames e a b) : Paired e Eq
    (do
      match (← get).results[a.serial]? with
      | some x => return x.text
      | none => throw (.noRegistration a.shown) : Emit String)
    (do
      match (← get).results[b.serial]? with
      | some x => return x.text
      | none => throw (.noRegistration b.shown)) := by
  refine Paired.get.bind fun c c' hc => ?_
  rw [hc.results.get hab]
  cases c.results[a.serial]? with
  | some x => exact .pure rfl
  | none =>
    apply Paired.throw
    rfl

namespace Setting.Mirrors

variable {s s' : Setting} (hs : s.Mirrors e s') {d d' : Datum} {c c' : Draft}

include hs

theorem exists_machine : ∃ machine, s'.options = { s.options with machine } := ⟨_,hs.options⟩

theorem size {a b : Identity} (hab : Identity.Renames e a b) : s'.sizes.size b = s.sizes.size a := by
  rw [SizeTable.size, SizeTable.size, hs.sizes.get? hab]

theorem bindTemp (expr : String) :
    Paired e Eq (s.bindTemp d expr none) (s'.bindTemp d' expr none) := by
  refine Paired.get.bind fun c c' hc => ?_
  obtain ⟨hname,hm⟩ := hc.bindFresh s.options expr
  obtain ⟨machine,ho⟩ := hs.exists_machine
  simp only [explicitName, Option.filter_none, ho]
  exact (Paired.set hm).bind fun _ _ _ => .pure hname.symm

theorem register (hd : d.Renames e d') (expr : String) (save : Bool) :
    Paired e Eq (s.register d expr save) (s'.register d' expr save) := by
  refine (hd.paired_identityOf s s').bind fun a b hab => Paired.get.bind fun c c' hc => ?_
  have hput : ∀ text text' : String, text = text' → Paired e Eq
      (do
        modify fun c => { c with results := c.results.insert a.serial ⟨text, c.depthOf text⟩ }
        return text : Emit String)
      (do
        modify fun c => { c with results := c.results.insert b.serial ⟨text', c.depthOf text'⟩ }
        return text') := by
    rintro text _ rfl
    refine (Paired.modify fun c c' hc => ?_).bind fun _ _ _ => .pure rfl
    rw [hc.depthOf]
    exact hc.insertResult hab _
  rw [hc.results.get hab]
  cases c.results[a.serial]? with
  | some x =>
    apply Paired.throw_bind
    rfl
  | none => exact .ite ((hs.bindTemp expr).bind hput) (hput expr expr rfl)

theorem freshTemp : Paired e Eq s.freshTemp s'.freshTemp := by
  intro c c' hc
  obtain ⟨hname,hm⟩ := hc.freshTemp s.options
  rw [Setting.freshTemp, Setting.freshTemp, hs.options]
  exact ⟨.ok hname.symm,hm⟩

theorem isReducer (hd : d.Renames e d') : s'.isReducer d' = s.isReducer d := by
  cases hd with
  | identity => rfl
  | object v => rw [Setting.isReducer, Setting.isReducer, (hs.graph v).isReducer]

theorem canLower (hd : d.Renames e d') : s'.canLower d' = s.canLower d := by
  cases hd with
  | identity => rfl
  | object v => rw [Setting.canLower, Setting.canLower, (hs.graph v).isNode]

theorem inputs (hd : d.Renames e d') (hc : c.Mirrors e c') :
    Agree (List.Forall₂ (Identity.Renames e)) (s.inputs c d) (s'.inputs c' d') := by
  cases hd with
  | identity => exact .ok .nil
  | object v =>
    refine (Agree.filterM hc.columns fun a b hab => ?_).bind fun es es' hes => .ok ?_
    · rw [hab.1, hs.graph.reaches]
    · exact List.rel_map (fun a b hab => hab.1) hes

theorem isLiftable (hd : d.Renames e d') (hc : c.Mirrors e c') :
    Agree Eq (s.isLiftable c d) (s'.isLiftable c' d') := by
  rw [Setting.isLiftable, Setting.isLiftable, hc.stack, hs.isReducer hd]
  split
  · exact .ok rfl
  · refine (hs.inputs hd hc).bind fun vs vs' hv => .ok ?_
    have hempty : vs'.isEmpty = vs.isEmpty := by cases hv <;> rfl
    rw [hempty, forall₂_all hv fun a b hab => (congrArg _ hab).trans (hc.bindings.contains a.serial)]

theorem iterationDepth (hd : d.Renames e d') (hc : c.Mirrors e c') :
    Agree Eq (s.iterationDepth c d) (s'.iterationDepth c' d') := by
  rw [Setting.iterationDepth, Setting.iterationDepth, hc.stack]
  split
  · exact .ok rfl
  · refine (hs.isLiftable hd hc).bind fun b _ hb => hb ▸ ?_
    split
    · exact .ok rfl
    · refine (hs.inputs hd hc).bind fun vs vs' hv => .ok ?_
      have hfind : Option.Rel (Loop.Mirrors e)
          (c.openLoops.reverse.find? fun l => l.vars.any fun v => vs.any fun i => i.same v)
          (c'.openLoops.reverse.find? fun l => l.vars.any fun v => vs'.any fun i => i.same v) := by
        refine forall₂_find? (List.rel_reverse hc.openLoops) fun l l' hl => ?_
        exact forall₂_any hl.vars fun a b hab => forall₂_any hv fun i j hij => hij.same hab
      generalize c.openLoops.reverse.find? _ = l at hfind ⊢
      generalize c'.openLoops.reverse.find? _ = l' at hfind ⊢
      cases hfind with
      | none => rfl
      | some hl => exact hl.depth.symm

theorem openLoop (hd : d.Renames e d') : Paired e Eq (s.openLoop d) (s'.openLoop d') := by
  refine Paired.get.bind fun c c' hc => (Paired.ofExcept (hs.inputs hd hc)).bind fun vs vs' hv => ?_
  have hfree : List.Forall₂ (Identity.Renames e) (vs.filter fun id => !c.bindings.contains id.serial)
      (vs'.filter fun id => !c'.bindings.contains id.serial) := by
    refine List.rel_filter (fun a b hab => ?_) hv
    dsimp only
    rw [hab, hc.bindings.contains]
  have hsizes : (vs'.filter fun id => !c'.bindings.contains id.serial).map s'.sizes.size =
      (vs.filter fun id => !c.bindings.contains id.serial).map s.sizes.size :=
    forall₂_map_eq hfree fun a b hab => hs.size hab
  dsimp only
  rw [hsizes, hs.options, ← hc.loops.length_eq]
  generalize (List.map s.sizes.size _).eraseDups = sizes
  match sizes with
  | [] =>
    refine (hd.paired_identityOf s s').bind fun _ _ _ => ?_
    apply Paired.throw
    rfl
  | [length] => exact (Paired.set (hc.withLoop s.options hfree length)).bind fun _ _ _ => .pure rfl
  | _ :: _ :: _ =>
    refine (hd.paired_identityOf s s').bind fun _ _ _ => ?_
    apply Paired.throw
    rfl

variable {t t' : Trail} {f f' : Trail → Datum → Emit Unit}

theorem lower (hf : SameOnObjects e f f') (ht : t.Mirrors e t') (hd : d.Renames e d') {a b : Identity}
    (hab : Identity.Renames e a b) : Paired e Eq (s.lower f t d a) (s'.lower f' t' d' b) := by
  have hstep := paired_whileLowering (hf (ht.enter hab) hd) a b
  have hrunning : (t'.nodes.any fun r => r.same b) = t.nodes.any fun r => r.same a :=
    forall₂_any ht.nodes fun i j hij => hij.same hab
  have hresult := paired_registered hab
  unfold Setting.lower
  rw [hs.canLower hd, hrunning]
  refine .ite ?_ (.ite ?_ ?_)
  · apply Paired.throw_bind
    rfl
  · apply Paired.throw_bind
    exact congrArg (Fault.cyclic "") (ht.cycleLabels hab).symm
  · refine Paired.get.bind fun c c' hc => ?_
    refine (Paired.ofExcept (hs.isLiftable hd hc)).bind fun b _ hb => hb ▸ ?_
    exact .ite ((paired_atTopLevel hstep).bind fun _ _ _ => hresult) (hstep.bind fun _ _ _ => hresult)

theorem resolve (hf : SameOnObjects e f f') : SameOnObjects e (s.resolve f) (s'.resolve f') := by
  intro t t' d d' ht hd
  unfold Setting.resolve
  rw [ht.calls, hs.machine.calls]
  refine .ite (.throw_bind rfl) ?_
  refine (hd.paired_identityOf s s').bind fun a b hab => Paired.get.bind fun c c' hc => ?_
  rw [hc.bindings.get hab, hc.results.get hab]
  cases c.bindings[a.serial]? with
  | some text => exact .pure rfl
  | none =>
    cases c.results[a.serial]? with
    | none => exact hs.lower hf ht hd hab
    | some x =>
      refine (Paired.ofExcept (hs.iterationDepth hd hc)).bind fun k _ hk => hk ▸ .ite (.pure rfl) ?_
      exact (Paired.set (hc.setResultAside hab x k)).bind fun _ _ _ => hs.lower hf ht hd hab

theorem introduceArray {a b : Identity} (hab : Identity.Renames e a b) (texts : List String) :
    Paired e Eq (s.introduceArray a texts none) (s'.introduceArray b texts none) := by
  refine Paired.get.bind fun c c' hc => ?_
  obtain ⟨hname,hm⟩ := hc.freshArray s.options
  obtain ⟨machine,ho⟩ := hs.exists_machine
  have hfresh : ∀ c : Draft, c.freshArray { s.options with machine } = c.freshArray s.options := fun _ => rfl
  have hintroduce : ∀ (c : Draft) (name statement : String) (d : Nat),
      c.introduce { s.options with machine } name statement d = c.introduce s.options name statement d :=
    fun _ _ _ _ => rfl
  simp only [explicitName, Option.filter_none, ho, pure_bind, hfresh, hintroduce, hname, hm.depthOf]
  generalize (if texts.isEmpty then "np.empty(0)" else _) = init
  have hi := hm.introduce s.options (c.freshArray s.options).1
    ((c.freshArray s.options).1 ++ " = " ++ init) ((c.freshArray s.options).2.depthOf init)
  rw [hi.bindingDepth]
  exact (Paired.set (hi.insertArray hab _)).bind fun _ _ _ => .pure rfl

theorem members (hd : d.Renames e d') :
    Agree (List.Forall₂ fun v w => w = e v) (s.members d) (s'.members d') := by
  cases hd with
  | identity => exact .error rfl
  | object v =>
    rw [Setting.members, Setting.members, (hs.graph v).members?]
    cases (s.graph.kind v).members? with
    | none => exact .error rfl
    | some ms => exact .ok (List.forall₂_map_right_iff.mpr (List.forall₂_same.mpr fun _ _ => rfl))

variable {l l' : Lowerer}

theorem arrayOf (hl : l.Mirrors e l') (ht : t.Mirrors e t') (hd : d.Renames e d') :
    Paired e Eq (s.arrayOf l t d none) (s'.arrayOf l' t' d' none) := by
  refine (hd.paired_identityOf s s').bind fun a b hab => Paired.get.bind fun c c' hc => ?_
  have hbuild : Paired e Eq
      (do
        let ms ← Emit.ofExcept (s.members d)
        let texts ← ms.mapM fun m => l.resolve (t.deeper 2) (s.graph.datum m)
        s.introduceArray a texts none)
      (do
        let ms ← Emit.ofExcept (s'.members d')
        let texts ← ms.mapM fun m => l'.resolve (t'.deeper 2) (s'.graph.datum m)
        s'.introduceArray b texts none) := by
    refine (Paired.ofExcept (hs.members hd)).bind fun ms ms' hms => ?_
    refine (Paired.mapM_eq hms fun v w hw => ?_).bind fun texts _ htexts => ?_
    · exact hw ▸ hl.resolve (ht.deeper 2) (hs.graph.datum v)
    · exact htexts ▸ hs.introduceArray hab texts
  rw [hc.arrays.get hab]
  cases c.arrays[a.serial]? with
  | none => exact hbuild
  | some x =>
    refine (Paired.ofExcept (hs.iterationDepth hd hc)).bind fun k _ hk => hk ▸ .ite (.pure rfl) ?_
    exact (Paired.set (hc.setArrayAside hab x k)).bind fun _ _ _ => hbuild

/-- Arguments of calls: corresponding objects, or the same number. -/
def SameArgument (e : Nat ≃ Nat) (d d' : Datum) : Prop := d.Renames e d' ∨ ∃ n, d = .int n ∧ d' = .int n

theorem argumentCode (hl : l.Mirrors e l') (ht : t.Mirrors e t') (hd : SameArgument e d d') :
    Paired e Eq (do s.argumentCode l t (← Emit.ofExcept (s.graph.toArgument d)))
      (do s'.argumentCode l' t' (← Emit.ofExcept (s'.graph.toArgument d'))) := by
  rcases hd with hd | ⟨n,rfl,rfl⟩
  · cases hd with
    | identity => exact .throw_bind rfl
    | object v =>
      have hnode : Paired e Eq (do return .text (← l.resolve (t.deeper 1) (.object v)) : Emit Datum)
          (do return .text (← l'.resolve (t'.deeper 1) (.object (e v)))) :=
        (hl.resolve (ht.deeper 1) (.object v)).bind fun _ _ h => .pure (congrArg _ h)
      simp only [Graph.toArgument]
      rcases hs.graph.kind_eq v with hk | ⟨x,y,hk,hk'⟩
      · rw [hk]
        cases s.graph.kind v with
        | collection ms =>
          exact (hs.arrayOf hl (ht.deeper 1) (.object v)).bind fun _ _ h => .pure (congrArg _ h)
        | _ => exact hnode
      · rw [hk, hk']
        exact hnode
  · have htext : Agree Eq (s.graph.datumText (.int n)) (s'.graph.datumText (.int n)) := .refl _
    have hint : Paired e Eq (do return .text (← Emit.ofExcept (s.graph.datumText (.int n))) : Emit Datum)
        (do return .text (← Emit.ofExcept (s'.graph.datumText (.int n)))) :=
      (Paired.ofExcept htext).bind fun _ _ h => .pure (congrArg _ h)
    exact hint

theorem argumentsCode (hl : l.Mirrors e l') (ht : t.Mirrors e t') {args args' : List Datum}
    (hargs : List.Forall₂ (SameArgument e) args args') :
    Paired e Eq (s.argumentsCode l t args) (s'.argumentsCode l' t' args') := by
  refine (Paired.mapM_eq hargs fun d d' hd => hs.argumentCode hl (ht.deeper 3) hd).bind fun codes _ hcodes => ?_
  rw [← hcodes]
  cases codes.mapM Datum.text? with
  | some texts => exact .pure rfl
  | none => exact .throw rfl

theorem callCode (hl : l.Mirrors e l') (ht : t.Mirrors e t') (function : String) {args args' : List Datum}
    (hargs : List.Forall₂ (SameArgument e) args args') :
    Paired e Eq (s.callCode l t function args) (s'.callCode l' t' function args') :=
  (hs.argumentsCode hl (ht.deeper 2) hargs).bind fun _ _ h => .pure (by rw [h])

theorem addUp (hl : l.Mirrors e l') (ht : t.Mirrors e t') (v term : Nat) (update : String → String → String) :
    Paired e Eq (s.addUp l t v term update) (s'.addUp l' t' (e v) (e term) update) := by
  refine hs.freshTemp.bind fun acc _ hacc => hacc ▸ (paired_write s s' _).bind fun _ _ _ => ?_
  have hadd : Paired e Eq
      (do s.write (update acc (← l.resolve (t.deeper 2) (s.graph.datum term))))
      (do s'.write (update acc (← l'.resolve (t'.deeper 2) (s'.graph.datum (e term))))) :=
    (hl.resolve (ht.deeper 2) (hs.graph.datum term)).bind fun text _ htext => htext ▸ paired_write s s' _
  have hend := (hs.register (.object v) acc false).discard
  have hsize : s'.sizes.size (s'.graph.idOf (e term)) = s.sizes.size (s.graph.idOf term) := hs.size rfl
  rw [hsize]
  refine .ite ?_ (hadd.bind fun _ _ _ => hend)
  refine (hs.openLoop (.object v)).bind fun i _ hi => ?_
  exact hi ▸ (paired_insideLoop hadd i).bind fun _ _ _ => hend

theorem emitNode (hg : s.graph.Scriptless) (hl : l.Mirrors e l') (ht : t.Mirrors e t') (v : Nat) :
    Paired e Eq (s.emitNode l t v) (s'.emitNode l' t' (e v)) := by
  have hop : ∀ w, Paired e Eq (l.resolve (t.deeper 2) (s.graph.datum w))
      (l'.resolve (t'.deeper 2) (s'.graph.datum (e w))) := fun w => hl.resolve (ht.deeper 2) (hs.graph.datum w)
  have hsame : ∀ ws : List Nat, List.Forall₂ (fun v w => w = e v) ws (ws.map e) := fun ws =>
    List.forall₂_map_right_iff.mpr (List.forall₂_same.mpr fun _ _ => rfl)
  have hops : ∀ ws : List Nat, Paired e Eq (ws.mapM fun w => l.resolve (t.deeper 2) (s.graph.datum w))
      ((ws.map e).mapM fun w => l'.resolve (t'.deeper 2) (s'.graph.datum w)) :=
    fun ws => .mapM_eq (hsame ws) fun w _ hw => hw ▸ hop w
  have hwrapped : ∀ ws : List Nat, Paired e Eq
      (ws.mapM fun w => do return "(" ++ (← l.resolve (t.deeper 2) (s.graph.datum w)) ++ ")")
      ((ws.map e).mapM fun w => do return "(" ++ (← l'.resolve (t'.deeper 2) (s'.graph.datum w)) ++ ")") :=
    fun ws => .mapM_eq (hsame ws) fun w _ hw => hw ▸ (hop w).bind fun _ _ h => .pure (by rw [h])
  have hcall : ∀ (f : String) (ws : List Nat), Paired e Eq (s.callCode l t f (ws.map s.graph.datum))
      (s'.callCode l' t' f ((ws.map e).map s'.graph.datum)) := by
    intro f ws
    refine hs.callCode hl ht f (List.rel_map (fun w _ hw => ?_) (hsame ws))
    exact .inl (hw ▸ hs.graph.datum w)
  have hsave : ∀ save expr expr', expr = expr' → Paired e Eq (discard (s.register (.object v) expr save))
      (discard (s'.register (.object (e v)) expr' save)) :=
    fun save expr _ h => h ▸ (hs.register (.object v) expr save).discard
  unfold Setting.emitNode
  dsimp only
  rcases hs.graph.kind_eq v with hrename | ⟨x,y,hk,hk'⟩
  case inr =>
    rw [hk, hk']
    apply Paired.throw
    rfl
  rw [hrename]
  cases hk : s.graph.kind v with
  | parameter value isConstant =>
    refine .ite (hsave _ _ _ rfl) ?_
    apply Paired.throw
    rfl
  | observable =>
    refine Paired.get.bind fun c c' hc => ?_
    have hcolumn : c'.columns.get? (s'.graph.idOf (e v)) = c.columns.get? (s.graph.idOf v) :=
      hc.columns.get? rfl
    rw [hcolumn, hs.options]
    cases c.columns.get? (s.graph.idOf v) with
    | some column => exact hsave _ _ _ rfl
    | none =>
      apply Paired.throw
      rfl
  | constant value => exact hsave _ _ _ rfl
  | sum ts =>
    cases ts with
    | nil => exact hsave _ _ _ rfl
    | cons w ws => exact (hops (w :: ws)).bind fun _ _ h => hsave _ _ _ (h ▸ rfl)
  | product fs =>
    cases fs with
    | nil => exact hsave _ _ _ rfl
    | cons w ws => exact (hwrapped (w :: ws)).bind fun _ _ h => hsave _ _ _ (h ▸ rfl)
  | formula template args =>
    refine (hwrapped args).bind fun texts _ h => h ▸ ?_
    rw [hs.machine.templates v template args hk]
    exact (Paired.ofExcept (.refl _)).bind fun _ _ h => hsave _ _ _ h
  | gaussian x mean sigma => exact (hcall _ [x, mean, sigma]).bind fun _ _ h => hsave _ _ _ h
  | exponential x c => exact (hcall _ [x, c]).bind fun _ _ h => hsave _ _ _ h
  | polynomial x cs order =>
    have hargs : List.Forall₂ (SameArgument e) [s.graph.datum x, s.graph.datum cs, .int order]
        [s'.graph.datum (e x), s'.graph.datum (e cs), .int order] :=
      .cons (.inl (hs.graph.datum x)) (.cons (.inl (hs.graph.datum cs)) (.cons (.inr ⟨order,rfl,rfl⟩) .nil))
    exact (hs.callCode hl ht _ hargs).bind fun _ _ h => hsave _ _ _ h
  | mixture ds cs => exact (hcall _ [ds, cs]).bind fun _ _ h => hsave _ _ _ h
  | entrySum w => exact hs.addUp hl ht v w _
  | negLogLikelihood w => exact hs.addUp hl ht v w _
  | custom expr args save =>
    have hargs : s'.graph.operands (e v) = (s.graph.operands v).map e := by
      rw [Graph.operands, Graph.operands, hs.graph.operands?]
      cases s.graph.operands? v with
      | none => rfl
      | some ws => rfl
    dsimp only [Kind.rename]
    rw [hargs]
    refine (Paired.modify fun c c' hc => ?_).bind fun _ _ _ => ?_
    · exact { hc with }
    · exact (hops (s.graph.operands v)).bind fun _ _ h => hsave _ _ _ (h ▸ rfl)
  | script steps args reducer => exact absurd hk (hg v steps args reducer)
  | collection ms => exact .throw rfl
  | identity => exact .throw rfl

theorem emit (hg : s.graph.Scriptless) (hl : l.Mirrors e l') : SameOnObjects e (s.emit l) (s'.emit l') := by
  intro t t' d d' ht hd
  unfold Setting.emit
  rw [ht.calls, hs.machine.calls]
  refine .ite (.throw_bind rfl) ?_
  cases hd with
  | identity => exact .throw rfl
  | object v => exact hs.emitNode hg hl ht v

/-- Lowering does the same in both graphs, by induction on how deep nodes may nest. -/
theorem nested (hg : s.graph.Scriptless) (n : Nat) : (s.nested n).Mirrors e (s'.nested n) := by
  induction n with
  | zero => exact ⟨fun _ _ _ _ _ _ => .throw rfl,fun _ _ _ _ _ _ => .throw rfl⟩
  | succ n ih => exact ⟨hs.resolve (hs.emit hg ih),hs.emit hg ih⟩

theorem request (hg : s.graph.Scriptless) (hd : d.Renames e d') :
    Paired e Eq (s.request d) (s'.request d') := by
  have hlowerer : s'.lowerer = s'.nested (s.options.machine.calls + 1) := by
    rw [Setting.lowerer, hs.machine.calls]
  rw [Setting.request, Setting.request, hlowerer]
  exact (hs.nested hg _).resolve ⟨.nil,rfl⟩ hd

theorem finish (expr : String) : Paired e Eq (s.finish expr) (s'.finish expr) := by
  refine Paired.get.bind fun c c' hc => ?_
  rw [hc.finished, hc.preamble, hc.body, hs.options]
  refine .ite (.throw_bind rfl) ?_
  have hi := hc.innermost?
  generalize c.innermost? = l at hi ⊢
  generalize c'.innermost? = l' at hi ⊢
  cases hi with
  | none =>
    have hm : Draft.Mirrors e { c with finished := true }
        { c' with preamble := c.preamble, body := c.body, finished := true } :=
      { hc with preamble := rfl, body := rfl, finished := rfl }
    refine (Paired.set hm).bind fun _ _ _ => ?_
    exact (Paired.ofExcept (.refl _)).bind fun _ _ h => .pure (by rw [h])
  | some hl =>
    apply Paired.throw_bind
    rw [hl.index]

end Setting.Mirrors

end FitCode
