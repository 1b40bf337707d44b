import FitCode.Proofs.Lowering.Answered
import FitCode.Proofs.Lowering.History

/-! # Lowering in front of all loops

A reducer whose observables are all iterated by open loops is lowered at top level. That either succeeds
as a whole, and then its lines wait in front of the outermost loop and its results are bound outside of
all loops, or it leaves nothing behind but the names it took.
-/
namespace FitCode

open Emit

namespace Cache

/-- Entries are as before, or they are new and bound outside of all loops. -/
def Gains (m m' : Cache) : Prop :=
  ∀ k : Nat, m'[k]? = m[k]? ∨ m[k]? = none ∧ ∃ text, m'[k]? = some ⟨text, 0⟩

theorem Gains.refl (m : Cache) : m.Gains m := fun _ => .inl rfl

theorem gains_orElse {mine theirs : Cache}
    (h : ∀ (k : Nat) (e : Entry), theirs[k]? = some e → e.depth = 0) : mine.Gains (mine.orElse theirs) := by
  intro k
  rw [getElem?_orElse]
  cases mine[k]? with
  | some e => exact .inl rfl
  | none =>
    cases ht : theirs[k]? with
    | none => exact .inl rfl
    | some e => exact .inr ⟨rfl,e.text,by rw [← h k e ht]; rfl⟩

end Cache

namespace Draft

variable {c inner : Draft} {T : Nat → Prop}

/-- What is left of a lowering at top level. The open loops and the accesses they bind, the code, and what
is cached and set aside stay. Lines are queued in front of the outermost loop only, and every new entry is
bound outside of all loops. -/
structure Lifts (c : Draft) (lines : List Line) (c' : Draft) : Prop where
  stack : c'.stack = c.stack
  bindings : c'.bindings = c.bindings
  body : c'.body = c.body
  columns : c'.columns = c.columns
  preamble : c'.preamble = c.preamble
  finished : c'.finished = c.finished
  opened : c'.opened = c.opened
  loops : ∀ (i : Nat) (l : Loop), c.loops[i]? = some l → c'.loops[i]? =
    some (if c.stack.head? = some i then { l with queued := l.queued ++ lines } else l)
  new : ∀ (i : Nat) (l : Loop), c.loops.length ≤ i → c'.loops[i]? = some l → l.closed = true
  results : c.results.Gains c'.results
  arrays : c.arrays.Gains c'.arrays

theorem Lifts.refl (c : Draft) : c.Lifts [] c where
  stack := rfl
  bindings := rfl
  body := rfl
  columns := rfl
  preamble := rfl
  finished := rfl
  opened := rfl
  loops := fun i l hl => by simp [hl]
  new := fun i l hle hl => by
    rw [List.getElem?_eq_none hle] at hl
    cases hl
  results := .refl _
  arrays := .refl _

theorem Lifts.backTo (hb : c.atTop.Balanced T inner) : c.Lifts [] (inner.backTo c) where
  stack := rfl
  bindings := rfl
  body := rfl
  columns := hb.columns
  preamble := hb.preamble
  finished := hb.finished
  opened := hb.opened
  loops := fun i l hl => by simp [getElem?_backTo hb hl]
  new := hb.new
  results := .refl _
  arrays := .refl _

theorem Lifts.adopt (hm : c.atTop.Moves T inner) :
    c.Lifts inner.body ((inner.backTo c).adopt inner) := by
  have hback := Lifts.backTo hm.balanced
  have htop : inner.depth = 0 := hm.balanced.depth_eq
  have hresults : c.results.Gains (c.results.orElse inner.results) :=
    Cache.gains_orElse fun k e he => Nat.le_zero.mp (htop ▸ hm.sound.results k e he)
  have harrays : c.arrays.Gains (c.arrays.orElse inner.arrays) :=
    Cache.gains_orElse fun k e he => Nat.le_zero.mp (htop ▸ hm.sound.arrays k e he)
  have hhead : (inner.backTo c).stack[0]? = c.stack.head? := List.head?_eq_getElem?.symm
  simp only [Draft.adopt, Draft.queueAt, hhead]
  cases hs : c.stack.head? with
  | none =>
    exact
      { hback with
        loops := fun i l hl => by simp [hs, getElem?_backTo hm.balanced hl]
        results := hresults
        arrays := harrays }
  | some h =>
    have hget : ∀ i, ((inner.backTo c).modifyLoop h fun l =>
        { l with queued := l.queued ++ inner.body }).loops[i]? = ((inner.backTo c).loops[i]?).map
          fun l => if h = i then { l with queued := l.queued ++ inner.body } else l := by
      intro i
      rw [Draft.modifyLoop, List.getElem?_modify]
      rfl
    exact
      { hback with
        loops := fun i l hl => by
          refine (hget i).trans ?_
          rw [getElem?_backTo hm.balanced hl, hs]
          simp
        new := fun i l hle hl => by
          obtain ⟨l',hl',rfl⟩ := Option.map_eq_some_iff.mp ((hget i).symm.trans hl)
          have hclosed := hback.new i l' hle hl'
          split
          · exact hclosed
          · exact hclosed
        results := hresults
        arrays := harrays }

end Draft

namespace Setting

variable {s : Setting} {c c' : Draft}

theorem cached_of_emit (hg : s.graph.Scriptless) {l : Lowerer} {trail : Trail} {v : Nat}
    (hv : (s.graph.kind v).isReducer = true) (h : (s.emit l trail (.object v)).Gives c ⟨⟩ c') :
    ∃ e, c'.results[v]? = some e := by
  have haddUp : ∀ t update, (s.addUp l trail v t update).Gives c ⟨⟩ c' →
      ∃ e, c'.results[v]? = some e := by
    intro t update h
    obtain ⟨_,_,_,_,_,_,_,h⟩ := gives_addUp h
    obtain ⟨text,h⟩ := gives_discard.mp h
    obtain ⟨id,hid,_,_,rfl⟩ := gives_register h
    cases hid
    exact ⟨_,Cache.getElem?_insert_self _ _ _⟩
  rw [emit] at h
  split at h
  · exact absurd h not_gives_throw
  · dsimp only at h
    unfold emitNode at h
    cases hk : s.graph.kind v with
    | entrySum t =>
      simp only [hk] at h
      exact haddUp t _ h
    | negLogLikelihood t =>
      simp only [hk] at h
      exact haddUp t _ h
    | script steps args reducer => exact absurd hk (hg v steps args reducer)
    | _ =>
      rw [hk] at hv
      cases hv

/-- A reducer without a result is lowered at top level if open loops iterate all it depends on. -/
theorem isLiftable_of_bound {v : Nat} {ids : List Identity} (hv : (s.graph.kind v).isReducer = true)
    (hc : c.Sound) (hids : s.inputs c (.object v) = .ok ids) (hne : ids ≠ [])
    (hbound : ∀ id ∈ ids, c.bindings.contains id.serial = true) : s.isLiftable c (.object v) = .ok true := by
  have hstack : c.stack.isEmpty = false := by
    obtain ⟨id,hid⟩ := List.exists_mem_of_ne_nil ids hne
    have hsome : c.bindings[id.serial]?.isSome = true := by
      rw [Std.TreeMap.isSome_getElem?_eq_contains]
      exact hbound id hid
    obtain ⟨k,l,⟨i,hi,_⟩,_⟩ := (hc.bindings id.serial).mp hsome
    exact List.isEmpty_eq_false_iff.mpr (List.ne_nil_of_mem (List.mem_of_getElem? hi))
  have hall : ids.all (fun id => c.bindings.contains id.serial) = true := List.all_eq_true.mpr hbound
  simp only [isLiftable, hstack, isReducer, hv, hids, bind, Except.bind, pure, Except.pure, hall,
    Bool.not_true, Bool.or_self, Bool.false_eq_true, if_false, Bool.and_true, List.isEmpty_eq_false_iff.mpr hne,
    Bool.not_false]

/-- A vertex without a result is lowered, unless calls nest too deep. -/
theorem resolve_outcome_new (emit : Trail → Datum → Emit Unit) (trail : Trail) {v : Nat}
    (hnew : c.isResolved v = false) : (s.resolve emit trail (.object v)).outcome c =
      if s.options.machine.calls < trail.calls then (.error .tooDeep, c)
      else (s.lower emit trail (.object v) (s.graph.idOf v)).outcome c := by
  obtain ⟨hb,hr⟩ := Bool.or_eq_false_iff.mp hnew
  have hb : c.bindings[(s.graph.idOf v).serial]? = none :=
    Std.TreeMap.getElem?_eq_none_of_contains_eq_false hb
  have hr : c.results[(s.graph.idOf v).serial]? = none := Cache.getElem?_eq_none hr
  rw [resolve]
  split
  · rfl
  · simp only [identityOf, Graph.identityOf, Emit.ofExcept, pure_bind, outcome_get_bind, hb, hr]

/-- A vertex that is lifted is lowered at top level, unless it is being lowered already. -/
theorem lower_cases (emit : Trail → Datum → Emit Unit) (trail : Trail) {v : Nat}
    (hv : (s.graph.kind v).isNode = true) (hlift : s.isLiftable c (.object v) = .ok true) :
    (∃ e, (s.lower emit trail (.object v) (s.graph.idOf v)).outcome c = (.error e, c)) ∨
      (s.lower emit trail (.object v) (s.graph.idOf v)).outcome c =
        (atTopLevel (whileLowering (s.graph.idOf v) (emit (trail.enter (s.graph.idOf v)) (.object v))) >>=
          fun _ => do
          match (← get).results[v]? with
          | some e => return e.text
          | none => throw (.noRegistration (s.graph.idOf v).shown) : Emit String).outcome c := by
  rw [lower]
  simp only [canLower, hv, Bool.not_true, Bool.false_eq_true, if_false]
  split
  · exact .inl ⟨_,rfl⟩
  · refine .inr ?_
    rw [outcome_get_bind, hlift]
    rfl

theorem resolve_cases {emit : Trail → Datum → Emit Unit} {trail : Trail} {v : Nat} {T : Nat → Prop}
    (hv : (s.graph.kind v).isNode = true) (hnew : c.isResolved v = false)
    (hlift : s.isLiftable c (.object v) = .ok true)
    (hstep : (emit (trail.enter (s.graph.idOf v)) (.object v)).Balances T)
    (hcached : ∀ c₀ inner, (emit (trail.enter (s.graph.idOf v)) (.object v)).Gives c₀ ⟨⟩ inner →
      ∃ e, inner.results[v]? = some e) :
    (∃ inner text c', (emit (trail.enter (s.graph.idOf v)) (.object v)).Gives
          (c.atTop.entered (s.graph.idOf v)) ⟨⟩ inner ∧
        (s.resolve emit trail (.object v)).Gives c text c' ∧ c'.results[v]? = some ⟨text, 0⟩ ∧
        c.Lifts inner.body c') ∨
      ∃ e c', (s.resolve emit trail (.object v)).outcome c = (.error e, c') ∧ c.Lifts [] c' ∧
        c'.results = c.results ∧ c'.arrays = c.arrays := by
  have hm := balances_whileLowering (s.graph.idOf v) hstep c.atTop (Draft.sound_atTop c)
  have hresolve := resolve_outcome_new (s := s) emit trail hnew
  split at hresolve
  · exact .inr ⟨_,c,hresolve,.refl c,rfl,rfl⟩
  rcases lower_cases emit trail hv hlift with ⟨e,he⟩ | hlower
  · exact .inr ⟨e,c,hresolve.trans he,.refl c,rfl,rfl⟩
  rw [hlower, outcome_bind] at hresolve
  have hwhile := outcome_whileLowering (s.graph.idOf v) (emit (trail.enter (s.graph.idOf v)) (.object v)) c.atTop
  rcases hrun : (emit (trail.enter (s.graph.idOf v)) (.object v)).outcome (c.atTop.entered (s.graph.idOf v))
    with ⟨r,inner⟩
  rw [hrun] at hwhile
  rw [hwhile] at hm
  cases r with
  | error e =>
    rw [outcome_atTopLevel_error hwhile] at hresolve
    exact .inr ⟨e,inner.left.backTo c,hresolve,.backTo hm.balanced,rfl,rfl⟩
  | ok u =>
    have hlifts := Draft.Lifts.adopt hm
    rw [outcome_atTopLevel_ok hwhile] at hresolve
    dsimp only at hresolve
    rw [outcome_get_bind] at hresolve
    -- The result was not cached outside, so it is the one from top level.
    obtain ⟨e,he⟩ := hcached _ inner hrun
    have hnone : c.results[v]? = none :=
      Cache.getElem?_eq_none (Bool.or_eq_false_iff.mp hnew).2
    have hget : ((inner.left.backTo c).adopt inner.left).results[v]? = some e := by
      refine (Cache.getElem?_orElse c.results inner.results v).trans ?_
      rw [hnone, he]
      rfl
    obtain ⟨text,htext⟩ : ∃ text, ((inner.left.backTo c).adopt inner.left).results[v]? = some ⟨text, 0⟩ := by
      rcases hlifts.results v with hsame | ⟨_,h⟩
      · rw [hget, hnone] at hsame
        cases hsame
      · exact h
    rw [htext] at hresolve
    exact .inl ⟨inner,text,_,hrun,hresolve,htext,hlifts⟩

theorem isNode_of_isReducer {k : Kind} (h : k.isReducer = true) : k.isNode = true := by
  cases k with
  | entrySum _ => rfl
  | negLogLikelihood _ => rfl
  | script _ _ _ => rfl
  | _ => cases h

theorem resolve_bound (emit : Trail → Datum → Emit Unit) (trail : Trail) {v : Nat} {text : String}
    (hv : c.bindings[v]? = some text) : (s.resolve emit trail (.object v)).outcome c =
      if s.options.machine.calls < trail.calls then (.error .tooDeep, c) else (.ok text, c) := by
  have hb : c.bindings[(s.graph.idOf v).serial]? = some text := hv
  rw [resolve]
  split
  · rfl
  · simp only [identityOf, Graph.identityOf, Emit.ofExcept, pure_bind, outcome_get_bind, hb]
    rfl

/-- Asking for a reducer whose observables are all iterated by open loops either succeeds, and then exactly
the lines of its lowering at top level are queued in front of the outermost loop, or it fails, and then the
caches and the queues are as before. The open loops, the accesses they bind, the code, and whatever is
cached or set aside stay in both cases. A reducer that is itself iterated is not lowered at all. -/
theorem resolve_lifts {given : List (String × Datum)} {machine : Machine}
    (ho : Options.ofFields given machine = .ok s.options)
    (hg : s.graph.Scriptless) (hc : s.Reachable c) (trail : Trail) {v : Nat} {ids : List Identity}
    (hv : (s.graph.kind v).isReducer = true) (hnew : c.results[v]? = none)
    (hids : s.inputs c (.object v) = .ok ids) (hne : ids ≠ [])
    (hbound : ∀ id ∈ ids, c.bindings.contains id.serial = true) :
    (∃ inner text c', (s.lowerer.emit (trail.enter (s.graph.idOf v)) (.object v)).Gives
          (c.atTop.entered (s.graph.idOf v)) ⟨⟩ inner ∧
        (s.lowerer.resolve trail (.object v)).Gives c text c' ∧ c'.results[v]? = some ⟨text, 0⟩ ∧
        c.Lifts inner.body c') ∨
      (∃ e c', (s.lowerer.resolve trail (.object v)).outcome c = (.error e, c') ∧ c.Lifts [] c' ∧
        c'.results = c.results ∧ c'.arrays = c.arrays) ∨
      ∃ text, c.bindings[v]? = some text ∧ (s.lowerer.resolve trail (.object v)).Gives c text c := by
  have hvalid := Options.valid_of_ofFields ho
  cases hbind : c.bindings[v]? with
  | some text =>
    have hresolve := resolve_bound (s := s) s.lowerer.emit trail hbind
    split at hresolve
    · exact .inr (.inl ⟨_,c,hresolve,.refl c,rfl,rfl⟩)
    · exact .inr (.inr ⟨text,rfl,hresolve⟩)
  | none =>
    have hres : c.isResolved v = false := by
      simp [Draft.isResolved, Std.TreeMap.contains_eq_isSome_getElem?, Cache.contains_eq_isSome, hbind, hnew]
    have hlift := isLiftable_of_bound hv (hc.sound hvalid hg) hids hne hbound
    have hstep := (nested_balances hvalid hg (s.options.machine.calls + 1)).2 (trail.enter (s.graph.idOf v))
      (.object v)
    rcases resolve_cases (isNode_of_isReducer hv) hres hlift hstep fun _ _ h => cached_of_emit hg hv h with h | h
    · exact .inl h
    · exact .inr (.inl h)

/-- Inside a loop over `x`, with a result for `p`. -/
def insideSum : Draft := scaledSum.reach 4
  [.assignColumn (.object 0) (.value (.int 0)), .register (.object 1) "params[0]" false,
    .openLoop (.object 3)]

/-- The sum over `x` is asked for inside the loop over `x`. -/
theorem resolve_lifts_scaledSum : insideSum.depth = 1 ∧
    ∃ inner text c', (scaledSum.lowerer.emit ⟨[⟨3, "s"⟩], 1⟩ (.object 3)).Gives
        (insideSum.atTop.entered ⟨3, "s"⟩) ⟨⟩ inner ∧
      (scaledSum.lowerer.resolve {} (.object 3)).Gives insideSum text c' ∧
      c'.results[3]? = some ⟨text, 0⟩ ∧ insideSum.Lifts inner.body c' := by
  have hids : scaledSum.inputs insideSum (.object 3) = .ok [⟨0, "x"⟩] := rfl
  have hbound : ∀ id ∈ [(⟨0, "x"⟩ : Identity)], insideSum.bindings.contains id.serial = true := by
    intro id hid
    rw [List.mem_singleton.mp hid]
    decide +kernel
  have hok : ((scaledSum.lowerer.resolve {} (.object 3)).outcome insideSum).1.toOption = some "t0" := by
    decide +kernel
  refine ⟨by decide +kernel,?_⟩
  rcases resolve_lifts (rfl : Options.ofFields [] = .ok {}) scriptless_scaledSum (reachable_reach _ 4 _) {}
    (v := 3) rfl (by decide +kernel) hids (by simp) hbound with h | ⟨e,c',h,_⟩ | ⟨text,h,_⟩
  · exact h
  · rw [insideSum, h] at hok
    cases hok
  · have hfree : insideSum.bindings[3]? = none := by decide +kernel
    cases hfree.symm.trans h

end Setting

end FitCode
