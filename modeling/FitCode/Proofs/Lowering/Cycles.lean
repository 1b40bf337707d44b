import FitCode.Proofs.Lowering.Levels
import FitCode.Proofs.Lowering.Lookup
import FitCode.Proofs.Lowering.Safety

/-! # Cycles

A request that meets a node which is being lowered fails and names the nodes from there on. They are a cycle
of the graph, so an acyclic graph never fails like that. Nor is a cycle missed: a request whose answer needs a
node on a cycle does not give one, unless a result or an array that was there before cuts the cycle.
-/
namespace FitCode

open Emit

namespace Graph

variable {g : Graph} {v w : Nat} {vs : List Nat}

/-- Built-in and custom nodes with operands of the right sort. The graph may have cycles. -/
structure WellSorted (g : Graph) : Prop where
  scriptless : g.Scriptless
  links : g.OfNodes
  nodes : ∀ v, ∀ w ∈ (g.kind v).nodeParts, (g.kind w).isNode = true
  collections : ∀ v, ∀ w ∈ (g.kind v).collectionParts, ∃ ms, g.kind w = .collection ms

theorem wellSorted_of_lt (hs : g.Scriptless) (h : ∀ v < g.size, (∀ w ∈ g.links v, (g.kind w).isNode = true) ∧
      (∀ w ∈ (g.kind v).nodeParts, (g.kind w).isNode = true) ∧
      ∀ w ∈ (g.kind v).collectionParts, ((g.kind w).members?).isSome = true) : g.WellSorted := by
  have hlt : ∀ v, g.kind v ≠ .identity → v < g.size := fun v => lt_size_of_kind
  refine ⟨hs,ofNodes_of_lt fun v hv => (h v hv).1,fun v w hw => ?_,fun v w hw => ?_⟩
  · exact (h v (hlt v fun hk => by simp [hk, Kind.nodeParts] at hw)).2.1 w hw
  · have hsome := (h v (hlt v fun hk => by simp [hk, Kind.collectionParts] at hw)).2.2 w hw
    obtain ⟨ms,hms⟩ := Option.isSome_iff_exists.mp hsome
    exact ⟨ms,kind_of_members hms⟩

theorem mem_operands {ws : List Nat} {x : Nat} (hv : (g.kind v).parts? = some ws) (hw : w ∈ ws)
    (hx : x ∈ g.expand w) : x ∈ g.operands v := by
  rw [operands, operands?, hv]
  exact List.mem_flatMap.mpr ⟨w,hw,hx⟩

theorem WellSorted.node_operands (hg : g.WellSorted) (hv : (g.kind v).isNode = true)
    (hw : w ∈ (g.kind v).nodeParts) : w ∈ g.operands v := by
  obtain ⟨ws,hws⟩ := Option.isSome_iff_exists.mp hv
  refine mem_operands hws ?_ (mem_expand.mpr (.inl ⟨members_of_isNode (hg.nodes v w hw),rfl⟩))
  simpa [Kind.targets, hws, members_of_isNode hv] using Kind.mem_targets_of_nodeParts hw

theorem member_operands {ms : List Nat} {m : Nat} (hw : w ∈ (g.kind v).collectionParts)
    (hms : g.kind w = .collection ms) (hm : m ∈ ms) : m ∈ g.operands v := by
  have hx : m ∈ g.expand w := mem_expand.mpr (.inr ⟨ms,by rw [hms]; rfl,hm⟩)
  cases hk : g.kind v with
  | polynomial x cs order =>
    refine mem_operands (by rw [hk]; rfl) ?_ hx
    simp_all [Kind.collectionParts]
  | mixture ds cs =>
    refine mem_operands (by rw [hk]; rfl) ?_ hx
    simpa [hk, Kind.collectionParts] using hw
  | _ => simp [hk, Kind.collectionParts] at hw

/-- The nodes that lowering a node asks for one by one. A custom node asks for the members of collections. -/
def direct (g : Graph) (v : Nat) : List Nat :=
  match g.kind v with
  | .custom .. => g.operands v
  | k => k.nodeParts

/-- What is barred needs something that is. -/
structure Dead (g : Graph) (D : Shelf → Nat → Prop) : Prop where
  node : ∀ v, D .results v → (∃ w ∈ g.direct v, D .results w) ∨ ∃ w ∈ (g.kind v).collectionParts, D .arrays w
  array : ∀ w ms, g.kind w = .collection ms → D .arrays w → ∃ m ∈ ms, D .results m

theorem Dead.free {D : Shelf → Nat → Prop} (h : g.Dead D) (hnodes : ∀ w ∈ g.direct v, ¬ D .results w)
    (hcollections : ∀ w ∈ (g.kind v).collectionParts, ¬ D .arrays w) : ¬ D .results v := by
  intro hv
  rcases h.node v hv with ⟨w,hw,hD⟩ | ⟨w,hw,hD⟩
  · exact hnodes w hw hD
  · exact hcollections w hw hD

/-- Distinct nodes, each an operand of the one before it, and the first an operand of the last. -/
def IsCycle (g : Graph) (v : Nat) (vs : List Nat) : Prop :=
  (v :: vs).Nodup ∧ (v :: (vs ++ [v])).IsChain fun a b => b ∈ g.operands a

/-- A failure that names a cycle names one of the graph. -/
def Honest (g : Graph) (f : Fault) : Prop :=
  ∀ label labels, f = .cyclic label labels → ∃ v vs, g.IsCycle v vs ∧ label = (g.idOf v).shown ∧
    labels = (v :: (vs ++ [v])).map fun u => (g.idOf u).shown

/-- The nodes being lowered, each an operand of the one before it, lead to `v`. -/
def LeadsTo (g : Graph) (trail : Trail) (vs : List Nat) (v : Nat) : Prop :=
  trail.nodes = vs.map g.idOf ∧ vs.Nodup ∧ (vs ++ [v]).IsChain fun a b => b ∈ g.operands a

theorem LeadsTo.honest {trail : Trail} (h : g.LeadsTo trail vs v)
    (hrun : (trail.nodes.any fun r => r.same (g.idOf v)) = true) :
    g.Honest (.cyclic (g.idOf v).shown (cycleLabels trail.nodes (g.idOf v))) := by
  obtain ⟨hnodes,hvs,hchain⟩ := h
  have hsame : ∀ u, ((g.idOf u).same (g.idOf v) = true ↔ u = v) := fun u => by simp [Identity.same, idOf]
  have hmem : v ∈ vs := by
    rw [hnodes, List.any_map, List.any_eq_true] at hrun
    obtain ⟨u,hu,heq⟩ := hrun
    rwa [← (hsame u).mp heq]
  obtain ⟨before,rest,rfl,hfirst⟩ := List.eq_append_cons_of_mem hmem
  rintro _ _ ⟨⟩
  refine ⟨v,rest,⟨(List.nodup_append.mp hvs).2.1,?_⟩,rfl,?_⟩
  · rw [List.append_assoc] at hchain
    exact (List.isChain_append.mp hchain).2.1
  · rw [cycleLabels, hnodes, List.map_append, List.dropWhile_append_of_pos, List.map_cons,
      List.dropWhile_cons_of_neg]
    · simp
    · simpa using (hsame v).mpr rfl
    · simp only [List.mem_map, forall_exists_index, and_imp, forall_apply_eq_imp_iff₂, Bool.not_eq_true',
        Bool.eq_false_iff, ne_eq, hsame]
      rintro u hu rfl
      exact hfirst hu

/-- Inside of the lowering of a node that was not being lowered, the trail leads to its operands. -/
theorem LeadsTo.enter {trail t : Trail} (h : g.LeadsTo trail vs v)
    (hrun : (trail.nodes.any fun r => r.same (g.idOf v)) = false)
    (ht : t.nodes = (trail.enter (g.idOf v)).nodes) (hw : w ∈ g.operands v) :
    g.LeadsTo t (vs ++ [v]) w := by
  obtain ⟨hnodes,hvs,hchain⟩ := h
  refine ⟨?_,Setting.nodup_enter hnodes hvs hrun,?_⟩
  · rw [ht, Trail.enter, hnodes, List.map_append, List.map_singleton]
  · rw [List.isChain_append]
    refine ⟨hchain,List.isChain_singleton w,fun a ha b hb => ?_⟩
    rw [List.getLast?_concat, Option.mem_some_iff] at ha
    rw [List.head?_cons, Option.mem_some_iff] at hb
    rwa [← ha, ← hb]

end Graph

namespace Draft

variable {D : Shelf → Nat → Prop} {base : Nat} {c c' inner : Draft}

theorem isResolved_eq_false {v : Nat} :
    c.isResolved v = false ↔ c.bindings[v]? = none ∧ c.results[v]? = none := by
  rw [isResolved, Bool.or_eq_false_iff, Std.TreeMap.contains_eq_isSome_getElem?,
    Cache.contains_eq_isSome, Option.isSome_eq_false_iff, Option.isSome_eq_false_iff,
    Option.isNone_iff_eq_none, Option.isNone_iff_eq_none]

/-- Barred vertices have no result or array, and none comes back when a loop from `base` on closes. -/
structure Bars (D : Shelf → Nat → Prop) (base : Nat) (c : Draft) : Prop where
  base_le : base ≤ c.loops.length
  columns : ∀ x n, (x, n) ∈ c.columns → ¬ D .results x.serial
  bindings : ∀ v, D .results v → c.bindings[v]? = none
  cached : ∀ shelf v, D shelf v → (c.cache shelf)[v]? = none
  aside : ∀ (i : Nat) (l : Loop), base ≤ i → c.loops[i]? = some l → ∀ shelf v, D shelf v →
    (l.aside shelf)[v]? = none

namespace Bars

theorem frames (h : c.Bars D base) (hf : c.Frames c') (hr : c'.results = c.results)
    (ha : c'.arrays = c.arrays) : c'.Bars D base where
  base_le := hf.count ▸ h.base_le
  columns := hf.columns ▸ h.columns
  bindings := hf.bindings ▸ h.bindings
  cached := by
    rw [cache_congr hr ha]
    exact h.cached
  aside := fun i l' hi hl' shelf v hv => by
    have hlt : i < c.loops.length := by
      rw [← hf.count]
      exact (List.getElem?_eq_some_iff.mp hl').1
    obtain ⟨queued,hq⟩ := hf.loops i _ (List.getElem?_eq_getElem hlt)
    cases hl'.symm.trans hq
    rw [Loop.aside_queued]
    exact h.aside i _ hi (List.getElem?_eq_getElem hlt) shelf v hv

theorem of_none (c : Draft) : c.Bars (fun _ _ => False) 0 :=
  ⟨Nat.zero_le _,fun _ _ _ => id,fun _ => False.elim,fun _ _ => False.elim,fun _ _ _ _ _ _ => False.elim⟩

theorem notes (h : c.Bars D base) (hn : c.Notes c') : c'.Bars D base :=
  h.frames hn.toFrames hn.results hn.arrays

theorem insertResult (h : c.Bars D base) {k : Nat} (hk : ¬ D .results k) (e : Entry) :
    { c with results := c.results.insert k e }.Bars D base :=
  { h with
    cached := fun shelf v hv => by
      rw [getElem?_cache_insertResult, if_neg]
      · exact h.cached shelf v hv
      · rintro ⟨rfl,rfl⟩
        exact hk hv }

theorem insertArray (h : c.Bars D base) {k : Nat} (hk : ¬ D .arrays k) (e : Entry) :
    { c with arrays := c.arrays.insert k e }.Bars D base :=
  { h with
    cached := fun shelf v hv => by
      rw [getElem?_cache_insertArray, if_neg]
      · exact h.cached shelf v hv
      · rintro ⟨rfl,rfl⟩
        exact hk hv }

theorem not_barred (h : c.Bars D base) {shelf : Shelf} {k : Nat} {e : Entry}
    (he : (c.cache shelf)[k]? = some e) : ¬ D shelf k := by
  intro hk
  cases he.symm.trans (h.cached shelf k hk)

theorem setAside (h : c.Bars D base) (shelf : Shelf) {k : Nat} (hk : ¬ D shelf k) (e : Entry) (d : Nat) :
    (c.setAside k e d shelf).Bars D base := by
  cases hi : c.stack[d - 1]? with
  | none =>
    have heq : c.setAside k e d shelf = c := by
      cases shelf <;> simp only [Draft.setAside, setResultAside, setArrayAside, hi]
    rwa [heq]
  | some i =>
    obtain ⟨hloops,hstack,hbindings,hcolumns,-⟩ := setAside_eq shelf k e hi
    refine ⟨?_,hcolumns ▸ h.columns,hbindings ▸ h.bindings,fun shelf' v hv => ?_,?_⟩
    · rw [hloops, List.length_modify]
      exact h.base_le
    · rw [getElem?_cache_setAside e hi]
      split
      · rfl
      · exact h.cached shelf' v hv
    · intro j l' hj hl' shelf' v hv
      rw [hloops, List.getElem?_modify] at hl'
      obtain ⟨l,hl,rfl⟩ := Option.map_eq_some_iff.mp hl'
      split
      · rw [Loop.getElem?_aside_shelve, if_neg]
        · exact h.aside j l hj hl shelf' v hv
        · rintro ⟨rfl,rfl⟩
          exact hk hv
      · exact h.aside j l hj hl shelf' v hv

theorem withLoop (h : c.Bars D base) (o : Options) {vars : List Identity}
    (hreg : ∀ id ∈ vars, (c.columns.get? id).isSome) (length : Nat) :
    (c.withLoop o vars length).Bars D base where
  base_le := by
    have hlen : (c.withLoop o vars length).loops.length = c.loops.length + 1 := by
      simp [Draft.withLoop]
    rw [hlen]
    exact Nat.le_succ_of_le h.base_le
  columns := h.columns
  bindings := fun v hv => by
    rw [getElem?_bindings_withLoop, if_neg]
    · exact h.bindings v hv
    · intro hmem
      rw [List.contains_iff_mem, List.mem_map] at hmem
      obtain ⟨x,hx,rfl⟩ := hmem
      obtain ⟨⟨y,n⟩,hy,hsame⟩ := IdMap.exists_mem_of_isSome (hreg x hx)
      have hsame : y.serial = x.serial := hsame
      exact h.columns y n hy (hsame ▸ hv)
  cached := h.cached
  aside := fun i l hi hl shelf v hv => by
    have hloops : (c.withLoop o vars length).loops = c.loops ++ [c.nextLoop o vars length] := rfl
    rw [hloops, List.getElem?_append] at hl
    split at hl
    · exact h.aside i l hi hl shelf v hv
    · obtain rfl := List.mem_singleton.mp (List.mem_of_getElem? hl)
      cases shelf <;> simp [nextLoop, Loop.aside]

theorem withoutLoop (h : c.Bars D base) {i : Nat} (hi : base ≤ i) {l : Loop} (hl : c.loops[i]? = some l)
    (body : Listing) : ({ c with body }.withoutLoop i l).Bars D base where
  base_le := by
    have hlen : ({ c with body }.withoutLoop i l).loops.length = c.loops.length := List.length_modify _ _ _
    rw [hlen]
    exact h.base_le
  columns := h.columns
  bindings := fun v hv => by
    rw [getElem?_bindings_withoutLoop]
    split
    · rfl
    · exact h.bindings v hv
  cached := fun shelf v hv => by
    rw [getElem?_cache_withoutLoop, h.aside i l hi hl shelf v hv, Cache.getElem?_below, h.cached shelf v hv]
    rfl
  aside := fun j l' hj hl' shelf v hv => by
    rw [getElem?_loops_withoutLoop c body i j hl] at hl'
    split at hl'
    · cases hl'
      exact h.aside i l hi hl shelf v hv
    · exact h.aside j l' hj hl' shelf v hv

theorem atTop (h : c.Bars D base) : c.atTop.Bars D base :=
  { h with
    bindings := fun v _ => by simp [Draft.atTop]
    cached := fun shelf v hv => by
      have hbelow : (c.atTop.cache shelf)[v]? = ((c.cache shelf).below 1)[v]? := by
        cases shelf <;> rfl
      rw [hbelow, Cache.getElem?_below, h.cached shelf v hv]
      rfl }

theorem adopt (h : c.Bars D base) (hin : inner.Bars D base) : ((inner.backTo c).adopt inner).Bars D base := by
  have hback : (inner.backTo c).Bars D base :=
    ⟨hin.base_le,hin.columns,h.bindings,fun shelf v hv => by cases shelf <;> exact h.cached _ v hv,hin.aside⟩
  refine { hback.notes (notes_queueAt (inner.backTo c) 0 inner.body) with cached := fun shelf v hv => ?_ }
  rw [getElem?_cache_adopt, h.cached shelf v hv, hin.cached shelf v hv]
  rfl

end Bars

end Draft

namespace Emit.Safe

variable {α β : Type} {A : Fault → Prop} {c : Draft}

/-- A step that keeps an invariant, taken for each item of a list, and what it shows of each item. -/
theorem mapM_all {I : Draft → Prop} {K : α → Prop} {f : α → Emit β} {as : List α}
    (hf : ∀ a ∈ as, ∀ c, I c → (f a).Safe A c fun _ c' => I c' ∧ K a) (hc : I c) :
    (as.mapM f).Safe A c fun _ c' => I c' ∧ ∀ a ∈ as, K a := by
  induction as generalizing c with
  | nil => exact ⟨hc,by simp⟩
  | cons a as ih =>
    rw [List.mapM_cons]
    refine (hf a (by simp) c hc).bind fun b c₁ hb => ?_
    refine (ih (fun a' ha' => hf a' (by simp [ha'])) hb.1).bind fun bs c₂ hbs => ?_
    exact .pure ⟨hbs.1,by simpa using ⟨hb.2,hbs.2⟩⟩

theorem discard {Q : Unit → Draft → Prop} {x : Emit α} (h : x.Safe A c fun _ => Q ⟨⟩) :
    (Functor.discard x).Safe A c Q := by
  have hmap : Functor.discard x = x >>= fun _ => Pure.pure ⟨⟩ := by
    rw [← map_eq_pure_bind]
    rfl
  rw [hmap]
  exact h.bind fun _ _ h => .pure h

end Emit.Safe

namespace Setting

variable {s : Setting} {D : Shelf → Nat → Prop} {base : Nat} {c : Draft} {v : Nat} {l : Lowerer} {trail : Trail}

/-- A step that does not add to what is barred. -/
def Heeds (s : Setting) (D : Shelf → Nat → Prop) (base : Nat) {α : Type} (x : Emit α) : Prop :=
  ∀ c : Draft, c.Bars D base → x.Safe s.graph.Honest c fun _ c' => c'.Bars D base

theorem heeds_write (text : String) : s.Heeds D base (s.write text) :=
  fun _ hc => hc.notes (.of_eq rfl rfl rfl rfl rfl rfl rfl rfl rfl)

theorem heeds_freshTemp : s.Heeds D base s.freshTemp :=
  fun _ hc => hc.frames (.of_eq rfl rfl rfl rfl rfl) rfl rfl

theorem heeds_register (hv : ¬ D .results v) (expr : String) (save : Bool) :
    s.Heeds D base (discard (s.register (.object v) expr save)) := by
  intro c hc
  refine .discard (.ofExcept_bind (a := s.graph.idOf v) rfl (.get_bind ?_))
  cases c.results[(s.graph.idOf v).serial]? with
  | some e => exact .throw (by rintro _ _ ⟨⟩)
  | none =>
    cases save with
    | true =>
      obtain ⟨hframes,hresults,harrays,-⟩ := Draft.introduce_frames (c.freshTemp s.options).2 s.options
        (c.freshTemp s.options).1 ((c.freshTemp s.options).1 ++ " = " ++ expr)
        ((c.freshTemp s.options).2.depthOf expr)
      have hfresh : (c.freshTemp s.options).2.Bars D base := hc.frames (.of_eq rfl rfl rfl rfl rfl) rfl rfl
      exact (hfresh.frames hframes hresults harrays).insertResult hv _
    | false => exact hc.insertResult hv _

theorem heeds_introduceArray {id : Identity} (hid : ¬ D .arrays id.serial) (texts : List String) :
    s.Heeds D base (s.introduceArray id texts none) := by
  intro c hc
  obtain ⟨hframes,hresults,harrays,-⟩ := Draft.introduce_frames (c.freshArray s.options).2 s.options
    (c.freshArray s.options).1 ((c.freshArray s.options).1 ++ " = " ++ arrayCode texts)
    ((c.freshArray s.options).2.depthOf (arrayCode texts))
  have hfresh : (c.freshArray s.options).2.Bars D base := hc.frames (.of_eq rfl rfl rfl rfl rfl) rfl rfl
  exact (hfresh.frames hframes hresults harrays).insertArray hid _

theorem heeds_closeLoop {h : Nat} (hh : base ≤ h) : s.Heeds D base (closeLoop h) := by
  intro c hc
  refine .get_bind ?_
  cases hl : c.loop? h with
  | none => exact .throw (by rintro _ _ ⟨⟩)
  | some l =>
    have hend : ∀ c' : Draft, c'.Bars D base → c'.loops = c.loops →
        (if (!l.queued.isEmpty) = true then
          get >>= fun d => Emit.ofExcept (d.body.insert l.start l.queued) >>= fun body =>
            modify (fun c => { c with body }) >>= fun _ => modify fun c => c.withoutLoop h l
        else modify fun c => c.withoutLoop h l : Emit Unit).Safe s.graph.Honest c' fun _ c' => c'.Bars D base := by
      intro c' hc' hloops
      have hl' : c'.loops[h]? = some l := by rwa [hloops]
      split
      · refine .get_bind ?_
        rw [Listing.insert]
        split
        · exact hc'.withoutLoop hh hl' _
        · exact .throw (by rintro _ _ ⟨⟩)
      · exact hc'.withoutLoop hh hl' c'.body
    simp only
    split
    · exact .throw (by rintro _ _ ⟨⟩)
    · split
      · exact .throw (by rintro _ _ ⟨⟩)
      · split
        · exact hend _ (hc.notes (.of_eq rfl rfl rfl rfl rfl rfl rfl rfl rfl)) rfl
        · exact hend c hc rfl

theorem heeds_leaveLoop {h : Nat} (hh : base ≤ h) : s.Heeds D base (leaveLoop h) := by
  intro c hc
  refine .get_bind ?_
  cases c.loop? h with
  | none => exact .throw (by rintro _ _ ⟨⟩)
  | some l =>
    simp only
    split
    · exact heeds_closeLoop hh c hc
    · exact hc

/-- A step inside a loop that is opened for a node, and what the step shows. -/
theorem safe_openLoop (hg : s.graph.OfNodes) (hv : (s.graph.kind v).isNode = true) {α : Type} {x : Emit α} {K : Prop}
    (hx : ∀ c : Draft, c.Bars D base → x.Safe s.graph.Honest c fun _ c' => c'.Bars D base ∧ K)
    (hc : c.Bars D base) :
    (s.openLoop (.object v) >>= fun h => insideLoop h x).Safe s.graph.Honest c
      fun _ c' => c'.Bars D base ∧ K := by
  obtain ⟨ids,hids⟩ := hg.exists_inputs c (.inl hv)
  have hopen : (s.openLoop (.object v)).Safe s.graph.Honest c fun h c' => base ≤ h ∧ c'.Bars D base := by
    refine .get_bind (.ofExcept_bind hids ?_)
    simp only
    split
    · exact .throw (by rintro _ _ ⟨⟩)
    · refine ⟨hc.base_le,hc.withLoop _ (fun id hid => ?_) _⟩
      exact mem_columns_of_inputs hids (List.mem_filter.mp hid).1
    · exact .throw (by rintro _ _ ⟨⟩)
  refine hopen.bind ?_
  rintro h c₁ ⟨hh,hc₁⟩
  have hin := hx c₁ hc₁
  unfold Safe at hin
  rcases hr : x.outcome c₁ with ⟨r,c₂⟩
  rw [hr] at hin
  unfold Safe
  rw [insideLoop, outcome_attempt_bind, hr]
  change ((leaveLoop h >>= fun _ => Emit.ofExcept r).Safe s.graph.Honest c₂ fun _ c' => c'.Bars D base ∧ K)
  cases r with
  | ok a => exact (heeds_leaveLoop hh c₂ hin.1).bind fun _ c₃ hc₃ => .pure ⟨hc₃,hin.2⟩
  | error e => exact (heeds_leaveLoop (Nat.zero_le h) c₂ (.of_none c₂)).bind fun _ _ _ => .throw hin

theorem safe_atTopLevel_bars {x : Emit Unit} {K : Prop}
    (hx : ∀ c : Draft, c.Bars D base → x.Safe s.graph.Honest c fun _ c' => c'.Bars D base ∧ K)
    (hc : c.Bars D base) : (atTopLevel x).Safe s.graph.Honest c fun _ c' => c'.Bars D base ∧ K := by
  have hin := hx c.atTop hc.atTop
  unfold Safe at hin ⊢
  rcases hr : x.outcome c.atTop with ⟨r,inner⟩
  rw [hr] at hin
  cases r with
  | ok a =>
    rw [outcome_atTopLevel_ok hr]
    exact ⟨hc.adopt hin.1,hin.2⟩
  | error e =>
    rw [outcome_atTopLevel_error hr]
    exact hin

theorem safe_whileLowering_bars {x : Emit Unit} {K : Prop} (id : Identity)
    (hx : ∀ c : Draft, c.Bars D base → x.Safe s.graph.Honest c fun _ c' => c'.Bars D base ∧ K)
    (hc : c.Bars D base) : (whileLowering id x).Safe s.graph.Honest c fun _ c' => c'.Bars D base ∧ K := by
  have hin := hx (c.entered id) (hc.notes (.of_eq rfl rfl rfl rfl rfl rfl rfl rfl rfl))
  unfold Safe at hin ⊢
  rw [outcome_whileLowering]
  rcases hr : x.outcome (c.entered id) with ⟨r,inner⟩
  rw [hr] at hin
  cases r with
  | ok a => exact ⟨hin.1.notes (.of_eq rfl rfl rfl rfl rfl rfl rfl rfl rfl),hin.2⟩
  | error e => exact hin

end Setting

/-- While a node is being lowered, asking for its operands heeds what is barred and gives nothing of it. -/
def Lowerer.Minds (s : Setting) (D : Shelf → Nat → Prop) (base : Nat) (trail : Trail) (v : Nat) (l : Lowerer) : Prop :=
  ∀ w ∈ s.graph.operands v, ∀ t : Trail, t.nodes = trail.nodes → ∀ c : Draft, c.Bars D base →
    (l.resolve t (.object w)).Safe s.graph.Honest c fun _ c' => c'.Bars D base ∧ ¬ D .results w

namespace Setting

variable {s : Setting} {D : Shelf → Nat → Prop} {base : Nat} {c : Draft} {v : Nat} {l : Lowerer} {trail : Trail}

/-- The array of a collection needs the results of its members, unless it is there. -/
theorem safe_arrayOf (hg : s.graph.OfNodes) {w : Nat} {ms : List Nat} (hw : s.graph.kind w = .collection ms)
    (hdead : D .arrays w → ∃ m ∈ ms, D .results m)
    (hms : ∀ m ∈ ms, ∀ c : Draft, c.Bars D base → (l.resolve (trail.deeper 2) (.object m)).Safe s.graph.Honest c
      fun _ c' => c'.Bars D base ∧ ¬ D .results m) (hc : c.Bars D base) :
    (s.arrayOf l trail (.object w) none).Safe s.graph.Honest c fun _ c' => c'.Bars D base ∧ ¬ D .arrays w := by
  have hnode : ∀ m ∈ ms, (s.graph.kind m).isNode = true := by
    intro m hm
    exact hg w m (by simpa [Graph.links, Graph.operands?, hw, Kind.parts?, Kind.members?] using hm)
  have hmembers : s.members (.object w) = .ok ms := by rw [members, hw]; rfl
  have hbuild : ∀ c : Draft, c.Bars D base → (do
      let ms ← Emit.ofExcept (s.members (.object w))
      let texts ← ms.mapM fun m => l.resolve (trail.deeper 2) (s.graph.datum m)
      s.introduceArray (s.graph.idOf w) texts none : Emit String).Safe s.graph.Honest c
        fun _ c' => c'.Bars D base ∧ ¬ D .arrays w := by
    intro c hc
    refine .ofExcept_bind hmembers ?_
    have hall : (ms.mapM fun m => l.resolve (trail.deeper 2) (s.graph.datum m)).Safe s.graph.Honest c
        fun _ c' => c'.Bars D base ∧ ∀ m ∈ ms, ¬ D .results m := by
      refine Safe.mapM_all (fun m hm c hc => ?_) hc
      rw [Graph.datum_of_isNode (hnode m hm)]
      exact hms m hm c hc
    refine hall.bind ?_
    rintro texts c₁ ⟨hc₁,hfree⟩
    have hnot : ¬ D .arrays w := by
      intro hw
      obtain ⟨m,hm,hD⟩ := hdead hw
      exact hfree m hm hD
    exact (heeds_introduceArray hnot texts c₁ hc₁).mono fun _ _ h => ⟨h,hnot⟩
  obtain ⟨ids,hids⟩ := hg.exists_inputs c (.inr ⟨ms,hw⟩)
  obtain ⟨n,hn⟩ := exists_iterationDepth_of_inputs hids
  refine .ofExcept_bind (a := s.graph.idOf w) rfl (.get_bind ?_)
  cases he : c.arrays[(s.graph.idOf w).serial]? with
  | none => exact hbuild c hc
  | some e =>
    have hnot : ¬ D .arrays w := hc.not_barred he
    refine .ofExcept_bind hn ?_
    split
    · exact .pure ⟨hc,hnot⟩
    · exact hbuild _ (hc.setAside .arrays hnot e n)

section

variable (hg : s.graph.WellSorted) (hdead : s.graph.Dead D) (hl : l.Minds s D base trail v)
  (hv : (s.graph.kind v).isNode = true)

include hg hdead hl hv

theorem safe_callCode_bars {args : List Datum} (f : String) (hargs : ∀ d ∈ args, (∃ n, d = .int n) ∨
      ∃ w, d = .object w ∧ (w ∈ (s.graph.kind v).nodeParts ∨ w ∈ (s.graph.kind v).collectionParts))
    (hc : c.Bars D base) : (s.callCode l trail f args).Safe s.graph.Honest c fun _ c' => c'.Bars D base ∧
      ∀ d ∈ args, ∀ w, d = .object w → (w ∈ (s.graph.kind v).nodeParts → ¬ D .results w) ∧
        (w ∈ (s.graph.kind v).collectionParts → ¬ D .arrays w) := by
  have harg : ∀ d ∈ args, ∀ c : Draft, c.Bars D base →
      (Emit.ofExcept (s.graph.toArgument d) >>= fun a => s.argumentCode l ((trail.deeper 2).deeper 3) a).Safe
        s.graph.Honest c fun _ c' => c'.Bars D base ∧ ∀ w, d = .object w →
          (w ∈ (s.graph.kind v).nodeParts → ¬ D .results w) ∧
          (w ∈ (s.graph.kind v).collectionParts → ¬ D .arrays w) := by
    intro d hd c hc
    rcases hargs d hd with ⟨n,rfl⟩ | ⟨w,rfl,hw⟩
    · refine .ofExcept_bind (a := (ArgumentKind.int, Datum.int n)) rfl (Safe.pure ⟨hc,?_⟩)
      rintro w ⟨⟩
    · by_cases hcollection : ∃ ms, s.graph.kind w = .collection ms
      · obtain ⟨ms,hms⟩ := hcollection
        have hnot : w ∉ (s.graph.kind v).nodeParts := by
          intro hmem
          have := hg.nodes v w hmem
          rw [hms] at this
          cases this
        have hmem := hw.resolve_left hnot
        refine .ofExcept_bind (a := (ArgumentKind.collection, Datum.object w)) (by rw [Graph.toArgument, hms]) ?_
        refine (safe_arrayOf hg.links hms (hdead.array w ms hms) (fun m hm c hc => ?_) hc).bind ?_
        · exact hl m (Graph.member_operands hmem hms hm) ((((trail.deeper 2).deeper 3).deeper 1).deeper 2) rfl c hc
        · rintro _ c₁ ⟨hc₁,hfree⟩
          refine .pure ⟨hc₁,?_⟩
          rintro _ ⟨⟩
          exact ⟨fun h => absurd h hnot,fun _ => hfree⟩
      · have hnot : w ∉ (s.graph.kind v).collectionParts := fun hmem => hcollection (hg.collections v w hmem)
        have hmem := hw.resolve_right hnot
        have hto : s.graph.toArgument (.object w) = .ok (.node, .object w) := by
          rw [Graph.toArgument]
          split
          · rename_i ms hms
            exact absurd ⟨ms,hms⟩ hcollection
          · rfl
        refine .ofExcept_bind hto ?_
        refine (hl w (hg.node_operands hv hmem) (((trail.deeper 2).deeper 3).deeper 1) rfl c hc).bind ?_
        rintro _ c₁ ⟨hc₁,hfree⟩
        refine .pure ⟨hc₁,?_⟩
        rintro _ ⟨⟩
        exact ⟨fun _ => hfree,fun h => absurd h hnot⟩
  refine Safe.bind (Safe.bind (Safe.mapM_all harg hc) ?_) fun _ _ h => .pure h
  rintro codes c₁ h
  split
  · exact .pure h
  · exact .throw (by rintro _ _ ⟨⟩)

omit hdead in
theorem safe_operand_bars {w : Nat} (hw : w ∈ s.graph.operands v) (hc : c.Bars D base) :
    (l.resolve (trail.deeper 2) (s.graph.datum w)).Safe s.graph.Honest c
      fun _ c' => c'.Bars D base ∧ ¬ D .results w := by
  have hnode := hg.links v w (by rwa [Graph.links_of_isNode hv])
  rw [Graph.datum_of_isNode hnode]
  exact hl w hw (trail.deeper 2) rfl c hc

omit hdead in
theorem safe_wrapped_bars {ws : List Nat} (hws : ∀ w ∈ ws, w ∈ s.graph.operands v) (hc : c.Bars D base) :
    (ws.mapM fun w => do return "(" ++ (← l.resolve (trail.deeper 2) (s.graph.datum w)) ++ ")").Safe
      s.graph.Honest c fun _ c' => c'.Bars D base ∧ ∀ w ∈ ws, ¬ D .results w :=
  Safe.mapM_all (fun w hw _ hc => (safe_operand_bars hg hl hv (hws w hw) hc).bind fun _ _ h => .pure h) hc

omit hdead in
theorem safe_addUp_bars {t : Nat} (ht : t ∈ s.graph.operands v)
    (hfree : ¬ D .results t → ¬ D .results v) (update : String → String → String) (hc : c.Bars D base) :
    (s.addUp l trail v t update).Safe s.graph.Honest c fun _ c' => c'.Bars D base ∧ ¬ D .results v := by
  refine (heeds_freshTemp c hc).bind fun acc c₁ hc₁ => ?_
  refine (heeds_write _ c₁ hc₁).bind fun _ c₂ hc₂ => ?_
  have hadd : ∀ c : Draft, c.Bars D base →
      (l.resolve (trail.deeper 2) (s.graph.datum t) >>= fun value => s.write (update acc value)).Safe
        s.graph.Honest c fun _ c' => c'.Bars D base ∧ ¬ D .results t := by
    intro c hc
    refine (safe_operand_bars hg hl hv ht hc).bind ?_
    rintro value c₁ ⟨hc₁,hnot⟩
    exact (heeds_write _ c₁ hc₁).mono fun _ _ h => ⟨h,hnot⟩
  have hend : ∀ c : Draft, c.Bars D base ∧ ¬ D .results t →
      (discard (s.register (.object v) acc false)).Safe s.graph.Honest c
        fun _ c' => c'.Bars D base ∧ ¬ D .results v := by
    rintro c ⟨hc,hnot⟩
    exact (heeds_register (hfree hnot) acc false c hc).mono fun _ _ h => ⟨h,hfree hnot⟩
  split
  · have hloop := (safe_openLoop hg.links hv hadd hc₂).bind fun _ c h => hend c h
    rwa [bind_assoc] at hloop
  · exact (hadd c₂ hc₂).bind fun _ c h => hend c h

/-- A call whose arguments are all the operands, and maybe numbers. -/
theorem safe_saveCall_bars (hdirect : s.graph.direct v = (s.graph.kind v).nodeParts) (f : String)
    (extra : List Datum) (hextra : ∀ d ∈ extra, ∃ n, d = .int n) (hc : c.Bars D base) :
    (s.callCode l trail f
        (((s.graph.kind v).nodeParts ++ (s.graph.kind v).collectionParts).map s.graph.datum ++ extra) >>=
      s.saveResult v).Safe s.graph.Honest c fun _ c' => c'.Bars D base ∧ ¬ D .results v := by
  have hdatum : ∀ w, w ∈ (s.graph.kind v).nodeParts ++ (s.graph.kind v).collectionParts →
      s.graph.datum w = .object w := by
    intro w hw
    rcases List.mem_append.mp hw with hw | hw
    · exact Graph.datum_of_isNode (hg.nodes v w hw)
    · obtain ⟨ms,hms⟩ := hg.collections v w hw
      rw [Graph.datum, hms]
  refine (safe_callCode_bars hg hdead hl hv f (fun d hd => ?_) hc).bind ?_
  · rcases List.mem_append.mp hd with hd | hd
    · obtain ⟨w,hw,rfl⟩ := List.mem_map.mp hd
      exact .inr ⟨w,hdatum w hw,List.mem_append.mp hw⟩
    · exact .inl (hextra d hd)
  · rintro text c₁ ⟨hc₁,hargs⟩
    have hmem : ∀ w ∈ (s.graph.kind v).nodeParts ++ (s.graph.kind v).collectionParts,
        (w ∈ (s.graph.kind v).nodeParts → ¬ D .results w) ∧
          (w ∈ (s.graph.kind v).collectionParts → ¬ D .arrays w) := by
      intro w hw
      exact hargs _ (List.mem_append_left _ (List.mem_map_of_mem hw)) w (hdatum w hw)
    have hnot : ¬ D .results v := by
      refine hdead.free (fun w hw => ?_) fun w hw => (hmem w (List.mem_append_right _ hw)).2 hw
      rw [hdirect] at hw
      exact (hmem w (List.mem_append_left _ hw)).1 hw
    exact (heeds_register hnot text true c₁ hc₁).mono fun _ _ h => ⟨h,hnot⟩

/-- Lowering a node heeds what is barred, and a barred node is not lowered. -/
theorem safe_emitNode_bars (hc : c.Bars D base) :
    (s.emitNode l trail v).Safe s.graph.Honest c fun _ c' => c'.Bars D base ∧ ¬ D .results v := by
  -- What is left when the results of all operands are there.
  have hsave : ∀ c : Draft, c.Bars D base → ¬ D .results v → ∀ expr save,
      (discard (s.register (.object v) expr save)).Safe s.graph.Honest c
        fun _ c' => c'.Bars D base ∧ ¬ D .results v := by
    intro c hc hnot expr save
    exact (heeds_register hnot expr save c hc).mono fun _ _ h => ⟨h,hnot⟩
  have hoperand := fun w => hg.node_operands (w := w) hv
  have hfree := hdead.free (v := v)
  have hcall := fun hdirect f extra hextra => safe_saveCall_bars hg hdead hl hv (c := c) hdirect f extra hextra hc
  unfold emitNode
  dsimp only
  cases hk : s.graph.kind v with
  | parameter value isConstant =>
    cases isConstant with
    | true => exact hsave c hc (hfree (by simp [Graph.direct, hk, Kind.nodeParts]) (by simp [hk, Kind.collectionParts])) _ _
    | false => exact .throw (by rintro _ _ ⟨⟩)
  | observable =>
    refine .get_bind ?_
    split
    · exact hsave c hc (hfree (by simp [Graph.direct, hk, Kind.nodeParts]) (by simp [hk, Kind.collectionParts])) _ _
    · exact .throw (by rintro _ _ ⟨⟩)
  | constant value =>
    exact hsave c hc (hfree (by simp [Graph.direct, hk, Kind.nodeParts]) (by simp [hk, Kind.collectionParts])) _ _
  | sum ts =>
    simp only [hk, Kind.nodeParts, Kind.collectionParts, Graph.direct] at hoperand hfree
    cases ts with
    | nil => exact hsave c hc (hfree (by simp) (by simp)) _ _
    | cons t ts =>
      refine (Safe.mapM_all (fun w hw _ hc => safe_operand_bars hg hl hv (hoperand w hw) hc) hc).bind ?_
      rintro _ c₁ ⟨hc₁,hws⟩
      exact hsave c₁ hc₁ (hfree hws (by simp)) _ _
  | product fs =>
    simp only [hk, Kind.nodeParts, Kind.collectionParts, Graph.direct] at hoperand hfree
    cases fs with
    | nil => exact hsave c hc (hfree (by simp) (by simp)) _ _
    | cons f fs =>
      refine (safe_wrapped_bars hg hl hv hoperand hc).bind ?_
      rintro _ c₁ ⟨hc₁,hws⟩
      exact hsave c₁ hc₁ (hfree hws (by simp)) _ _
  | formula template args =>
    simp only [hk, Kind.nodeParts, Kind.collectionParts, Graph.direct] at hoperand hfree
    refine (safe_wrapped_bars hg hl hv hoperand hc).bind ?_
    rintro texts c₁ ⟨hc₁,hws⟩
    cases Text.fillTemplate s.options.machine.address template texts with
    | error e => exact .throw (by rintro _ _ ⟨⟩)
    | ok text => exact hsave c₁ hc₁ (hfree hws (by simp)) _ _
  | entrySum t =>
    simp only [hk, Kind.nodeParts, Kind.collectionParts, Graph.direct] at hoperand hfree
    exact safe_addUp_bars hg hl hv (hoperand t (by simp)) (fun h => hfree (by simpa using h) (by simp)) _ hc
  | negLogLikelihood t =>
    simp only [hk, Kind.nodeParts, Kind.collectionParts, Graph.direct] at hoperand hfree
    exact safe_addUp_bars hg hl hv (hoperand t (by simp)) (fun h => hfree (by simpa using h) (by simp)) _ hc
  | custom expr args save =>
    simp only [hk, Kind.collectionParts, Graph.direct] at hfree
    have hnoted : { c with calls := c.calls ++ [v] }.Bars D base :=
      hc.notes (.of_eq rfl rfl rfl rfl rfl rfl rfl rfl rfl)
    refine (Safe.mapM_all (fun w hw _ hc => safe_operand_bars hg hl hv hw hc) hnoted).bind ?_
    rintro texts c₁ ⟨hc₁,hws⟩
    exact hsave c₁ hc₁ (hfree hws (by simp)) _ _
  | gaussian x mean sigma =>
    simp only [hk, Kind.nodeParts, Kind.collectionParts, Graph.direct] at hcall
    exact hcall trivial "gaussian" [] (by simp)
  | exponential x r =>
    simp only [hk, Kind.nodeParts, Kind.collectionParts, Graph.direct] at hcall
    exact hcall trivial "exponential" [] (by simp)
  | polynomial x cs order =>
    simp only [hk, Kind.nodeParts, Kind.collectionParts, Graph.direct] at hcall
    exact hcall trivial "polynomial" [.int order] (by simp)
  | mixture ds cs =>
    simp only [hk, Kind.nodeParts, Kind.collectionParts, Graph.direct] at hcall
    exact hcall trivial "weighted_sum" [] (by simp)
  | script steps args reducer => exact absurd hk (hg.scriptless v steps args reducer)
  | collection ms =>
    rw [hk] at hv
    cases hv
  | identity =>
    rw [hk] at hv
    cases hv

end

theorem safe_lower_bars (hg : s.graph.WellSorted) {vs : List Nat} (ht : s.graph.LeadsTo trail vs v)
    (hv : (s.graph.kind v).isNode = true) {emit : Trail → Datum → Emit Unit}
    (hemit : (trail.nodes.any fun r => r.same (s.graph.idOf v)) = false → ∀ c : Draft, c.Bars D base →
      (emit (trail.enter (s.graph.idOf v)) (.object v)).Safe s.graph.Honest c
        fun _ c' => c'.Bars D base ∧ ¬ D .results v) (hc : c.Bars D base) :
    (s.lower emit trail (.object v) (s.graph.idOf v)).Safe s.graph.Honest c
      fun _ c' => c'.Bars D base ∧ ¬ D .results v := by
  have hcan : s.canLower (.object v) = true := hv
  rw [lower, if_neg (by simp [hcan])]
  split
  · exact .throw (ht.honest ‹_›)
  · rename_i hrun
    have hstep := fun c hc =>
      safe_whileLowering_bars (c := c) (s.graph.idOf v) (hemit (Bool.eq_false_iff.mpr hrun)) hc
    obtain ⟨ids,hids⟩ := hg.links.exists_inputs c (.inl hv)
    refine .get_bind (.ofExcept_bind (isLiftable_of_inputs hids) ?_)
    split
    · refine (safe_atTopLevel_bars hstep hc).bind fun _ c h => .get_bind ?_
      split
      · exact .pure h
      · exact .throw (by rintro _ _ ⟨⟩)
    · refine (hstep c hc).bind fun _ c h => .get_bind ?_
      split
      · exact .pure h
      · exact .throw (by rintro _ _ ⟨⟩)

theorem safe_resolve_bars (hg : s.graph.WellSorted) (hv : (s.graph.kind v).isNode = true)
    {emit : Trail → Datum → Emit Unit} (hlower : ∀ c : Draft, c.Bars D base →
      (s.lower emit trail (.object v) (s.graph.idOf v)).Safe s.graph.Honest c
        fun _ c' => c'.Bars D base ∧ ¬ D .results v) (hc : c.Bars D base) :
    (s.resolve emit trail (.object v)).Safe s.graph.Honest c fun _ c' => c'.Bars D base ∧ ¬ D .results v := by
  rw [resolve]
  split
  · exact .throw (by rintro _ _ ⟨⟩)
  · refine .ofExcept_bind (a := s.graph.idOf v) rfl (.get_bind ?_)
    cases hb : c.bindings[(s.graph.idOf v).serial]? with
    | some text =>
      refine .pure ⟨hc,fun hD => ?_⟩
      cases hb.symm.trans (hc.bindings v hD)
    | none =>
      cases he : c.results[(s.graph.idOf v).serial]? with
      | none => exact hlower c hc
      | some e =>
        have hnot : ¬ D .results v := hc.not_barred he
        obtain ⟨ids,hids⟩ := hg.links.exists_inputs c (.inl hv)
        obtain ⟨n,hn⟩ := exists_iterationDepth_of_inputs hids
        refine .ofExcept_bind hn ?_
        split
        · exact .pure ⟨hc,hnot⟩
        · exact hlower _ (hc.setAside .results hnot e n)

/-- A request below any trail fails honestly or leaves what is barred alone. -/
theorem safe_nested_bars (hg : s.graph.WellSorted) (hdead : s.graph.Dead D) (nesting : Nat) {vs : List Nat}
    (ht : s.graph.LeadsTo trail vs v) (hv : (s.graph.kind v).isNode = true) (hc : c.Bars D base) :
    ((s.nested nesting).resolve trail (.object v)).Safe s.graph.Honest c
      fun _ c' => c'.Bars D base ∧ ¬ D .results v := by
  induction nesting generalizing trail vs v c with
  | zero => exact .throw (by rintro _ _ ⟨⟩)
  | succ nesting ih =>
    refine safe_resolve_bars hg hv (fun c hc => safe_lower_bars hg ht hv (fun hrun c hc => ?_) hc) hc
    rw [emit]
    split
    · exact .throw (by rintro _ _ ⟨⟩)
    · refine safe_emitNode_bars hg hdead (fun w hw t hsame c hc => ?_) hv hc
      have hnode := hg.links v w (by rwa [Graph.links_of_isNode hv])
      exact ih (ht.enter hrun hsame hw) hnode hc

end Setting

namespace Graph

variable {g : Graph} {v root : Nat} {vs : List Nat} {c : Draft}

/-- Lowering `a` asks for `b`: it is an operand, and if it is the member of a collection that is passed to a
call, then that collection has no array yet. -/
def Asks (g : Graph) (c : Draft) (a b : Nat) : Prop :=
  ∃ ws, (g.kind a).parts? = some ws ∧ ∃ w ∈ ws, b ∈ g.expand w ∧
    (w ∈ (g.kind a).collectionParts → c.arrays[w]? = none)

/-- From `root` on each vertex asks for the next one, and the last one asks for one that came before. None of
them has a result or a column. -/
structure RunsIntoCycle (g : Graph) (c : Draft) (root : Nat) (vs : List Nat) : Prop where
  chain : (root :: vs).IsChain (g.Asks c)
  back : ∃ u ∈ root :: vs, g.Asks c ((root :: vs).getLast (List.cons_ne_nil root vs)) u
  unresolved : ∀ u ∈ root :: vs, c.isResolved u = false
  noColumn : ∀ u ∈ root :: vs, c.columns.get? (g.idOf u) = none

/-- The vertices on the way, and the collections without an array that have one of them as a member. -/
def barred (g : Graph) (c : Draft) (us : List Nat) : Shelf → Nat → Prop
  | .results, u => u ∈ us
  | .arrays, w => c.arrays[w]? = none ∧ ∃ ms, g.kind w = .collection ms ∧ ∃ m ∈ ms, m ∈ us

theorem WellSorted.mem_parts (hg : g.WellSorted) {ws : List Nat} {w : Nat} (hws : (g.kind v).parts? = some ws)
    (hw : w ∈ ws) : (∃ e as b, g.kind v = .custom e as b) ∨ w ∈ (g.kind v).nodeParts ∨
      w ∈ (g.kind v).collectionParts := by
  cases hk : g.kind v with
  | custom e as b => exact .inl ⟨e,as,b,rfl⟩
  | script steps args reducer => exact absurd hk (hg.scriptless v steps args reducer)
  | polynomial x cs order =>
    rw [hk] at hws
    cases hws
    simpa [Kind.nodeParts, Kind.collectionParts] using hw
  | _ => simp_all [Kind.parts?, Kind.nodeParts, Kind.collectionParts]

theorem RunsIntoCycle.exists_asks (h : g.RunsIntoCycle c root vs) {u : Nat} (hu : u ∈ root :: vs) :
    ∃ b ∈ root :: vs, g.Asks c u b := by
  obtain ⟨before,rest,hsplit⟩ := List.append_of_mem hu
  cases rest with
  | nil =>
    obtain ⟨b,hb,hasks⟩ := h.back
    refine ⟨b,hb,?_⟩
    simpa [hsplit] using hasks
  | cons b rest =>
    have hchain := h.chain
    rw [hsplit, List.isChain_append, List.isChain_cons_cons] at hchain
    exact ⟨b,by rw [hsplit]; simp,hchain.2.1.1⟩

theorem RunsIntoCycle.dead (hg : g.WellSorted) (h : g.RunsIntoCycle c root vs) :
    g.Dead (g.barred c (root :: vs)) where
  node := fun v hv => by
    obtain ⟨b,hb,ws,hws,w,hw,hx,hfree⟩ := h.exists_asks hv
    rcases hg.mem_parts hws hw with ⟨e,as,save,hk⟩ | hnode | hcollection
    · refine .inl ⟨b,?_,hb⟩
      simp only [direct, hk]
      exact mem_operands hws hw hx
    · -- A node that is asked for by itself is the next one on the way.
      have hb' : b = w := by
        rcases mem_expand.mp hx with ⟨-,rfl⟩ | ⟨ms,hms,-⟩
        · rfl
        · cases (members_of_isNode (hg.nodes v w hnode)).symm.trans hms
      refine .inl ⟨w,?_,hb' ▸ hb⟩
      rw [direct]
      split
      · rename_i hk
        simp [hk, Kind.nodeParts] at hnode
      · exact hnode
    · obtain ⟨ms,hms⟩ := hg.collections v w hcollection
      refine .inr ⟨w,hcollection,hfree hcollection,ms,hms,b,?_,hb⟩
      rcases mem_expand.mp hx with ⟨hno,-⟩ | ⟨ms',hms',hmem⟩
      · rw [hms] at hno
        cases hno
      · rw [hms] at hms'
        cases hms'
        exact hmem
  array := fun w ms hms hw => by
    obtain ⟨-,ms',hms',m,hm,hmem⟩ := hw
    cases hms.symm.trans hms'
    exact ⟨m,hm,hmem⟩

theorem RunsIntoCycle.bars (h : g.RunsIntoCycle c root vs) :
    c.Bars (g.barred c (root :: vs)) c.loops.length where
  base_le := Nat.le_refl _
  columns := fun x n hx hmem => by
    have hnone := h.noColumn x.serial hmem
    rw [IdMap.get?, Option.map_eq_none_iff, List.find?_eq_none] at hnone
    exact hnone (x, n) hx (by simp [Identity.same, idOf])
  bindings := fun u hu => (Draft.isResolved_eq_false.mp (h.unresolved u hu)).1
  cached := fun shelf u hu => by
    cases shelf with
    | results => exact (Draft.isResolved_eq_false.mp (h.unresolved u hu)).2
    | arrays => exact hu.1
  aside := fun i l hi hl => absurd (List.getElem?_eq_some_iff.mp hl).1 (Nat.not_lt.mpr hi)

theorem Acyclic.not_isCycle (hg : g.Acyclic) : ¬ g.IsCycle v vs := by
  rintro ⟨-,hchain⟩
  obtain ⟨rank,hrank⟩ := hg
  have hlt : (v :: (vs ++ [v])).IsChain fun a b => rank b < rank a := by
    refine hchain.imp fun a b hb => hrank a b ?_
    cases hp : g.operands? a with
    | none => simp [operands, hp] at hb
    | some ws => simpa [links, operands, hp] using hb
  have hpair := List.isChain_iff_pairwise.mp hlt
  exact Nat.lt_irrefl _ (List.rel_of_pairwise_cons hpair (by simp))

end Graph

namespace Setting

variable {s : Setting}

/-- Asking for a node, in any state of the draft, nests at most as deep as the graph has nodes. A failure that
names a cycle names one of the graph, so there is none in an acyclic graph. If the node runs into a cycle, the
request gives no result. -/
theorem request_cycles (hg : s.graph.WellSorted) {root : Nat} (hroot : (s.graph.kind root).isNode = true)
    (c : Draft) :
    (∀ bottom nesting, s.graph.size < nesting →
      (s.nestedOver bottom nesting).resolve {} (.object root) = s.request (.object root)) ∧
    (∀ label labels c', (s.request (.object root)).outcome c = (.error (.cyclic label labels), c') →
      ∃ v vs, s.graph.IsCycle v vs ∧ label = (s.graph.idOf v).shown ∧
        labels = (v :: (vs ++ [v])).map fun u => (s.graph.idOf u).shown) ∧
    (s.graph.Acyclic → ∀ label labels c',
      (s.request (.object root)).outcome c ≠ (.error (.cyclic label labels), c')) ∧
    ∀ vs, s.graph.RunsIntoCycle c root vs → ∀ text c', ¬ (s.request (.object root)).Gives c text c' := by
  have hstart : s.graph.LeadsTo {} [] root := ⟨rfl,List.nodup_nil,List.isChain_singleton root⟩
  have hhonest : ∀ label labels c', (s.request (.object root)).outcome c = (.error (.cyclic label labels), c') →
      ∃ v vs, s.graph.IsCycle v vs ∧ label = (s.graph.idOf v).shown ∧
        labels = (v :: (vs ++ [v])).map fun u => (s.graph.idOf u).shown := by
    intro label labels c' hfail
    have hsafe := safe_nested_bars hg ⟨fun _ => False.elim,fun _ _ _ => False.elim⟩ (s.options.machine.calls + 1)
      hstart hroot
      (.of_none c)
    rw [Safe] at hsafe
    change (s.lowerer.resolve {} (.object root)).outcome c = _ at hfail
    rw [lowerer] at hfail
    rw [hfail] at hsafe
    exact hsafe label labels rfl
  refine ⟨fun bottom nesting h => nestedOver_eq_request hg.scriptless bottom h _,hhonest,?_,?_⟩
  · intro hacyclic label labels c' hfail
    obtain ⟨v,vs,hcycle,-⟩ := hhonest label labels c' hfail
    exact hacyclic.not_isCycle hcycle
  · intro vs hruns text c' hgives
    have hsafe := safe_nested_bars hg (hruns.dead hg) (s.options.machine.calls + 1) hstart hroot hruns.bars
    rw [Safe] at hsafe
    change (s.lowerer.resolve {} (.object root)).outcome c = _ at hgives
    rw [lowerer] at hgives
    rw [hgives] at hsafe
    exact hsafe.2 (List.mem_cons_self)

/-- The sum over the entries of a value on a cycle. -/
def ringed : Setting where
  graph := ⟨#[⟨"x", .observable⟩, ⟨"s", .sum [2, 0]⟩, ⟨"p", .product [1, 0]⟩, ⟨"r", .entrySum 1⟩]⟩
  options := {}
  sizes := []

/-- The cycle is found behind the sum and named from its first node on. -/
theorem request_cycles_ringed : ringed.graph.WellSorted ∧ ringed.graph.RunsIntoCycle {} 3 [1, 2] ∧
    ((ringed.request (.object 3)).outcome {}).1 = .error (.cyclic "s" ["s", "p", "s"]) ∧
    (∃ v vs, ringed.graph.IsCycle v vs ∧ "s" = (ringed.graph.idOf v).shown ∧
      ["s", "p", "s"] = (v :: (vs ++ [v])).map fun u => (ringed.graph.idOf u).shown) ∧
    ∀ text c', ¬ (ringed.request (.object 3)).Gives {} text c' := by
  have hg : ringed.graph.WellSorted :=
    Graph.wellSorted_of_lt (Graph.scriptless_of_vertices (by simp [ringed])) (by decide)
  have hruns : ringed.graph.RunsIntoCycle {} 3 [1, 2] := by
    refine ⟨.cons_cons ⟨[1],rfl,1,by decide,by decide,by decide⟩ (.cons_cons ⟨[2, 0],rfl,2,by decide,by decide,by decide⟩
      (.singleton 2)),⟨1,by decide,[1, 0],rfl,1,by decide,by decide,by decide⟩,by decide,by decide⟩
  have hfail : ((ringed.request (.object 3)).outcome {}).1 = .error (.cyclic "s" ["s", "p", "s"]) := by
    decide +kernel
  obtain ⟨-,hcycle,-,hnone⟩ := request_cycles hg (by decide : (ringed.graph.kind 3).isNode = true) {}
  exact ⟨hg,hruns,hfail,hcycle "s" ["s", "p", "s"] _ (Prod.ext hfail rfl),hnone _ hruns⟩

/-- A polynomial in `x` whose coefficient `w` is on a cycle with `u`. -/
def veiled : Setting where
  graph := ⟨#[⟨"x", .observable⟩, ⟨"y", .observable⟩, ⟨"u", .custom "$0 * $1 * $2" [0, 1, 3] true⟩,
    ⟨"w", .entrySum 2⟩, ⟨"c", .collection [3]⟩, ⟨"q", .polynomial 0 4 1⟩, ⟨"a", .entrySum 0⟩]⟩
  options := {}
  sizes := [(⟨0, "x"⟩, 2), (⟨1, "y"⟩, 2), (⟨2, "u"⟩, 2)]

/-- The array of the coefficients is made from a result given for `w`, which a loop over `x` then sets aside. -/
def veiledByArray : Draft := veiled.reach 7
  [.assignColumn (.object 0) (.value (.int 0)), .assignColumn (.object 1) (.value (.int 1)),
    .register (.object 3) "params[0]" false, .arrayOf (.object 4) none, .openLoop (.object 6),
    .request (.object 3)]

/-- An array that is there hides a cycle among its members: the polynomial is lowered, although it leads to
the cycle through nodes without a result. -/
theorem request_veiled : veiled.graph.IsCycle 3 [2] ∧ 3 ∈ veiled.graph.operands 5 ∧
    (∀ u ∈ [5, 3, 2], veiledByArray.isResolved u = false ∧
      veiledByArray.columns.get? (veiled.graph.idOf u) = none) ∧
    veiledByArray.arrays.contains 4 = true ∧
    ((veiled.request (.object 5)).outcome veiledByArray).1.toOption = some "t1" := by
  refine ⟨⟨by decide,.cons_cons (by decide) (.cons_cons (by decide) (.singleton 3))⟩,by decide,?_,?_,?_⟩
  all_goals decide +kernel

end Setting

end FitCode
