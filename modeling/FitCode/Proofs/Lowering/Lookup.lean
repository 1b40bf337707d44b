import FitCode.Proofs.Graph.Paths
import FitCode.Proofs.Lowering.Deep
import FitCode.Proofs.Lowering.Reducers

/-! # Looking up a result through an identity

A bare identity has no operands to search, so the result cached for it is given as it is. The node itself is
lowered again if an open loop deeper than that result iterates an observable that the node depends on. At
all other times the two lookups agree.
-/
namespace FitCode.Setting

open Emit

variable {s : Setting} {c : Draft} {v : Nat}

/-- A reducer with observables to search for, all of which open loops iterate. -/
def IsLifted (s : Setting) (c : Draft) (v : Nat) : Prop :=
  (s.graph.kind v).isReducer = true ∧
    ∀ x n, (x, n) ∈ c.columns → s.graph.HasPath true v x.serial → c.bindings.contains x.serial = true

/-- An open loop deeper than `depth` iterates an observable that the node depends on. -/
def IteratedBelow (s : Setting) (c : Draft) (depth v : Nat) : Prop :=
  ∃ k l, c.Opens k l ∧ depth < l.depth ∧ ∃ x ∈ l.vars, s.graph.HasPath true v x.serial

/-- The cached result holds whole columns of observables that open loops iterate. -/
def IsStale (s : Setting) (c : Draft) (v : Nat) : Prop :=
  c.bindings[v]? = none ∧ ¬ s.IsLifted c v ∧
    ∃ e, c.results[v]? = some e ∧ s.IteratedBelow c e.depth v

theorem isLiftable_of_inputs {d : Datum} {ids : List Identity} (h : s.inputs c d = .ok ids) :
    s.isLiftable c d = .ok (!c.stack.isEmpty && s.isReducer d &&
      (!ids.isEmpty && ids.all fun id => c.bindings.contains id.serial)) := by
  rw [isLiftable]
  split
  · rename_i hno
    rcases Bool.or_eq_true_iff.mp hno with hno | hno
    · rw [hno]
      rfl
    · rw [Bool.not_eq_true'] at hno
      rw [hno, Bool.and_false, Bool.false_and]
      rfl
  · rename_i hyes
    rw [Bool.not_eq_true, Bool.or_eq_false_iff, Bool.not_eq_false'] at hyes
    rw [h, hyes.1, hyes.2]
    rfl

theorem exists_iterationDepth_of_inputs {d : Datum} {ids : List Identity} (h : s.inputs c d = .ok ids) :
    ∃ n, s.iterationDepth c d = .ok n := by
  rw [iterationDepth, isLiftable_of_inputs h, h]
  split
  · exact ⟨0,rfl⟩
  · exact ⟨_,apply_ite Except.ok _ _ _ |>.symm⟩

section

variable (hg : s.graph.OfNodes) (hv : (s.graph.kind v).isNode = true)

include hg hv

theorem mem_inputs_iff_hasPath {ids : List Identity} (h : s.inputs c (.object v) = .ok ids) (x : Identity) :
    x ∈ ids ↔ (∃ n, (x, n) ∈ c.columns) ∧ s.graph.HasPath true v x.serial := by
  obtain ⟨b,hb,hiff⟩ := Graph.reaches_node_iff hg hv x.serial true
  rw [mem_inputs h, ← hiff, hb, Except.ok.injEq]
  constructor
  · rintro ⟨n,hn,hb⟩
    exact ⟨⟨n,hn⟩,hb⟩
  · rintro ⟨⟨n,hn⟩,hb⟩
    exact ⟨n,hn,hb⟩

theorem iterates_iff_hasPath (hc : c.Sound) {k : Nat} {l : Loop} (hl : c.Opens k l) :
    s.Iterates c v l ↔ ∃ x ∈ l.vars, s.graph.HasPath true v x.serial := by
  obtain ⟨ids,hids⟩ := hg.exists_inputs c (.inl hv)
  have hmem := mem_inputs_iff_hasPath hg hv hids
  constructor
  · rintro ⟨ids',hids',x,hx,i,hi,hsame⟩
    cases hids.symm.trans hids'
    have heq : i.serial = x.serial := by simpa [Identity.same] using hsame
    exact ⟨x,hx,heq ▸ ((hmem i).mp hi).2⟩
  · rintro ⟨x,hx,hpath⟩
    obtain ⟨⟨i,n⟩,he,heq⟩ := IdMap.exists_mem_of_isSome (hc.registered k l hl x hx)
    have heq : i.serial = x.serial := heq
    exact ⟨ids,hids,x,hx,i,(hmem i).mpr ⟨⟨n,he⟩,heq ▸ hpath⟩,by simp [Identity.same, heq]⟩

/-- A reducer is lifted if it is found to be, or if there is nothing to search for. -/
theorem isLiftable_iff {ids : List Identity} (hids : s.inputs c (.object v) = .ok ids) (hne : ids ≠ [])
    (hopen : c.stack ≠ []) : s.isLiftable c (.object v) = .ok true ↔ s.IsLifted c v := by
  have hmem := mem_inputs_iff_hasPath hg hv hids
  rw [isLiftable_of_inputs hids, Except.ok.injEq]
  simp only [Bool.and_eq_true, Bool.not_eq_true', List.isEmpty_eq_false_iff, List.all_eq_true, hne, hopen,
    ne_eq, not_false_eq_true, true_and, IsLifted, isReducer]
  refine and_congr_right fun _ => ⟨fun h x n hx hpath => ?_,fun h x hx => ?_⟩
  · exact h x ((hmem x).mpr ⟨⟨n,hx⟩,hpath⟩)
  · obtain ⟨⟨n,hn⟩,hpath⟩ := (hmem x).mp hx
    exact h x n hn hpath

/-- The depth that is asked of a result exceeds `depth` if and only if the node is iterated below. -/
theorem lt_iterationDepth_iff (hc : c.Sound) (depth : Nat) :
    ∃ n, s.iterationDepth c (.object v) = .ok n ∧
      (depth < n ↔ ¬ s.IsLifted c v ∧ s.IteratedBelow c depth v) := by
  obtain ⟨ids,hids⟩ := hg.exists_inputs c (.inl hv)
  have hbelow : ∀ {k l}, c.Opens k l → s.Iterates c v l → depth ≤ k → s.IteratedBelow c depth v := by
    intro k l hl hi hk
    refine ⟨k,l,hl,?_,(iterates_iff_hasPath hg hv hc hl).mp hi⟩
    have := (hc.loops k l hl).depth
    omega
  have hfound : s.IteratedBelow c depth v → ids ≠ [] ∧ c.stack ≠ [] := by
    rintro ⟨k,l,hl,-,hx⟩
    obtain ⟨ids',hids',_,_,i,hi,_⟩ := (iterates_iff_hasPath hg hv hc hl).mpr hx
    cases hids.symm.trans hids'
    refine ⟨List.ne_nil_of_mem hi,fun hnil => ?_⟩
    have hlt := Draft.opens_lt hl
    rw [Draft.depth, hnil] at hlt
    cases hlt
  obtain ⟨n,hn⟩ := exists_iterationDepth_of_inputs hids
  refine ⟨n,hn,?_⟩
  rcases iterationDepth_spec hc hn with ⟨hlift,rfl⟩ | ⟨hinner,hloop⟩
  · refine ⟨fun h => absurd h (Nat.not_lt_zero _),?_⟩
    rintro ⟨hnot,hbelow⟩
    obtain ⟨hne,hopen⟩ := hfound hbelow
    exact absurd ((isLiftable_iff hg hv hids hne hopen).mp hlift) hnot
  · constructor
    · intro hlt
      obtain ⟨u,i,l,hu,hi,hl,hiter⟩ := hloop (by omega)
      cases hu
      have hopens : c.Opens (n - 1) l := ⟨i,hi,hl⟩
      have hb := hbelow hopens hiter (by omega)
      refine ⟨fun hlifted => ?_,hb⟩
      obtain ⟨hne,hopen⟩ := hfound hb
      have hlift := (isLiftable_iff hg hv hids hne hopen).mpr hlifted
      rw [iterationDepth, hlift, if_neg (by simpa using hopen)] at hn
      cases hn
      exact Nat.not_lt_zero _ hlt
    · rintro ⟨-,k,l,hl,hk,hx⟩
      by_contra hle
      have := (hc.loops k l hl).depth
      exact hinner v k l rfl (by omega) hl ((iterates_iff_hasPath hg hv hc hl).mpr hx)

end

theorem request_eq (s : Setting) (d : Datum) :
    s.request d = s.resolve (s.emit (s.nested s.options.machine.calls)) {} d := rfl

theorem AtHand.request {d : Datum} {text : String} (h : s.AtHand c d text) :
    (s.request d).outcome c = (.ok text, c) := by
  rw [request_eq]
  exact h.again _ (Nat.zero_le _)

/-- An identity that is iterated or has a result of any depth is answered from the draft. -/
theorem atHand_identity {id : Identity} (h : c.isResolved id.serial = true) :
    ∃ text, s.AtHand c (.identity id) text ∧
      (c.bindings[id.serial]? = some text ∨
        c.bindings[id.serial]? = none ∧ ∃ e, c.results[id.serial]? = some e ∧ e.text = text) := by
  have hdepth : s.iterationDepth c (.identity id) = .ok 0 := by
    rw [iterationDepth, isLiftable_of_inputs (rfl : s.inputs c (.identity id) = .ok [])]
    split
    · rfl
    · simp only [isReducer, Bool.and_false, Bool.false_and, bind, Except.bind, inputs, List.any_nil,
        Bool.false_eq_true, if_false, pure, Except.pure]
      rw [List.find?_eq_none.mpr (by simp)]
      rfl
  cases hb : c.bindings[id.serial]? with
  | some text => exact ⟨text,⟨id,rfl,.inl hb⟩,.inl rfl⟩
  | none =>
    rw [Draft.isResolved, Std.TreeMap.contains_eq_isSome_getElem?, hb, Option.isSome_none, Bool.false_or,
      Cache.contains_eq_isSome] at h
    obtain ⟨e,he⟩ := Option.isSome_iff_exists.mp h
    exact ⟨e.text,⟨id,rfl,.inr ⟨hb,e,0,he,rfl,hdepth,Nat.zero_le _⟩⟩,.inr ⟨rfl,e,he,rfl⟩⟩

/-- A result that is looked up through the identity of its node is given as it is cached. The lookup through
the node gives the same unless the result is stale: then it is set aside and the node is lowered again. -/
theorem request_identity_eq {given : List (String × Datum)} {machine : Machine}
    (ho : Options.ofFields given machine = .ok s.options) (hg : s.graph.Scriptless)
    (hnodes : s.graph.OfNodes) (hc : s.Reachable c)
    (hv : (s.graph.kind v).isNode = true) (hres : c.isResolved v = true) :
    ∃ text, (s.request (.identity (s.graph.idOf v))).outcome c = (.ok text, c) ∧
      (¬ s.IsStale c v → (s.request (.object v)).outcome c = (.ok text, c)) ∧
      (s.IsStale c v → ∃ e depth, c.results[v]? = some e ∧ e.text = text ∧ e.depth < depth ∧
        (s.request (.object v)).outcome c =
          (s.lower (s.emit (s.nested s.options.machine.calls)) {} (.object v) (s.graph.idOf v)).outcome
            (c.setResultAside v e depth)) := by
  have hsound := hc.sound (Options.valid_of_ofFields ho) hg
  obtain ⟨text,hhand,hcached⟩ := atHand_identity (s := s) (show c.isResolved (s.graph.idOf v).serial = true from hres)
  refine ⟨text,hhand.request,?_⟩
  rcases hcached with hb | ⟨hb,e,he,rfl⟩
  · refine ⟨fun _ => AtHand.request ⟨_,rfl,.inl hb⟩,fun hstale => ?_⟩
    cases hb.symm.trans hstale.1
  · obtain ⟨n,hn,hiff⟩ := lt_iterationDepth_iff hnodes hv hsound e.depth
    constructor
    · intro hfresh
      have hle : n ≤ e.depth := by
        by_contra hlt
        obtain ⟨hlifted,hbelow⟩ := hiff.mp (Nat.lt_of_not_le hlt)
        exact hfresh ⟨hb,hlifted,e,he,hbelow⟩
      exact AtHand.request ⟨_,rfl,.inr ⟨hb,e,n,he,rfl,hn,hle⟩⟩
    · rintro ⟨-,hlifted,e',he',hbelow⟩
      cases he.symm.trans he'
      have hlt := hiff.mpr ⟨hlifted,hbelow⟩
      refine ⟨e,n,he,rfl,hlt,?_⟩
      rw [request_eq, resolve, if_neg (Nat.not_lt_zero _)]
      simp only [identityOf, Graph.identityOf, Emit.ofExcept, pure_bind, outcome_get_bind, hb, he, hn,
        if_neg (Nat.not_le.mpr hlt), outcome_set_bind]
      rfl

/-- A line over the entries of `x`, and its sum. -/
def shiftedSum : Setting where
  graph := ⟨#[⟨"x", .observable⟩, ⟨"f", .formula "{0} + 1.0" [0]⟩, ⟨"s", .entrySum 1⟩]⟩
  options := {}
  sizes := [(⟨0, "x"⟩, 2), (⟨1, "f"⟩, 2)]

/-- The line is lowered for the whole column; then a loop over `x` is opened. -/
def insideShiftedSum : Draft := shiftedSum.reach 3
  [.assignColumn (.object 0) (.value (.int 0)), .request (.object 1), .openLoop (.object 2)]

/-- Inside of the loop the identity gives the whole column, and the node is lowered for one entry of it. -/
theorem request_identity_eq_shiftedSum : insideShiftedSum.isResolved 1 = true ∧
    (shiftedSum.request (.identity (shiftedSum.graph.idOf 1))).outcome insideShiftedSum =
      (.ok "t0", insideShiftedSum) ∧
    ((shiftedSum.request (.object 1)).outcome insideShiftedSum).1.toOption = some "t1" ∧
    shiftedSum.IsStale insideShiftedSum 1 := by
  have hres : insideShiftedSum.isResolved 1 = true := by decide +kernel
  have hnode : ((shiftedSum.request (.object 1)).outcome insideShiftedSum).1.toOption = some "t1" := by
    decide +kernel
  have hreach : shiftedSum.Reachable insideShiftedSum := reachable_reach shiftedSum 3 _
  obtain ⟨text,hid,hfresh,-⟩ := request_identity_eq (s := shiftedSum) (rfl : Options.ofFields [] = .ok {})
    (Graph.scriptless_of_vertices (by simp [shiftedSum])) (Graph.ofNodes_of_lt (by decide))
    hreach (v := 1) (by decide) hres
  obtain rfl : "t0" = text := by
    have htext : ((shiftedSum.request (.identity (shiftedSum.graph.idOf 1))).outcome
        insideShiftedSum).1.toOption = some "t0" := by decide +kernel
    rw [hid] at htext
    exact (Option.some.inj htext).symm
  refine ⟨hres,hid,hnode,?_⟩
  by_contra hno
  rw [hfresh hno] at hnode
  simp [Except.toOption] at hnode

end FitCode.Setting
