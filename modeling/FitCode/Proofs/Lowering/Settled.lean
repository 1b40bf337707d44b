import FitCode.Proofs.Graph.Typed
import FitCode.Proofs.Lowering.Written
import Mathlib.Data.Finset.Card

/-! # Reducers that are done

With one vector observable, the reducers over it are lowered outside of all loops, and what they give
is cached there for good. So a loop is opened for each of them at most once: the loops opened and the
reducers done keep step. Whatever is cached, now or set aside, has all of the reducers it uses done,
which is why asking for it again opens nothing.
-/
namespace FitCode

open Text

/-- A lowering of a root whose only vector observable is `vector`. Some vertices are bound to arguments
beforehand. -/
structure Survey extends Setting where
  root : Nat
  vector : Nat
  bound : Nat → Prop

/-- A reducer that is reached from the root and depends on `x` without looking into other reducers. -/
structure Graph.Sums (g : Graph) (root x r : Nat) : Prop where
  reached : g.Leads false root r
  reducer : (g.kind r).isReducer = true
  reaches : g.reaches r x true = .ok true

theorem Graph.Sums.lt_size {g : Graph} {root x r : Nat} (h : g.Sums root x r) : r < g.size := by
  refine lt_size_of_kind fun hk => ?_
  have hr := h.reducer
  rw [hk] at hr
  cases hr

/-- There is a path on which nothing is bound. -/
inductive Graph.LeadsFree (g : Graph) (bound : Nat → Prop) : Nat → Nat → Prop
  | refl {v : Nat} (hv : ¬ bound v) : g.LeadsFree bound v v
  | step {v w r : Nat} (hv : ¬ bound v) (hw : w ∈ g.links v) (h : g.LeadsFree bound w r) :
      g.LeadsFree bound v r

theorem Graph.LeadsFree.not_bound {g : Graph} {bound : Nat → Prop} {v r : Nat}
    (h : g.LeadsFree bound v r) : ¬ bound r := by
  induction h with
  | refl hv => exact hv
  | step _ _ _ ih => exact ih

theorem Graph.Leads.leadsFree {g : Graph} {bound : Nat → Prop} {v r : Nat} (h : g.Leads false v r)
    (hb : ∀ u, bound u → g.links u = [] ∧ (g.kind u).isReducer = false)
    (hr : (g.kind r).isReducer = true) : g.LeadsFree bound v r := by
  induction h with
  | refl v =>
    refine .refl fun hv => ?_
    rw [(hb v hv).2] at hr
    cases hr
  | @step v w r hw _ _ ih =>
    refine .step (fun hv => ?_) hw (ih hr)
    rw [(hb v hv).1] at hw
    cases hw

/-- A cached entry that is put into another cache is cached there or here. -/
theorem Cache.of_insert_some {m now : Cache} {v w : Nat} {e e' : Entry} (he : now[v]? = some e)
    (h : (m.insert v e)[w]? = some e') : m[w]? = some e' ∨ now[w]? = some e' := by
  rw [getElem?_insert] at h
  split at h
  · rename_i heq
    cases h
    exact .inr (heq ▸ he)
  · exact .inl h

namespace Draft

variable {c c' : Draft} {T : Nat → Prop} {v : Nat} {t : String}

/-- The vertex has a result that is bound outside of all loops. -/
def Done (c : Draft) (r : Nat) : Prop := ∃ e, c.results[r]? = some e ∧ e.depth = 0

/-- A text is cached for the vertex, now or aside. -/
def Holds (c : Draft) (now : Cache) (aside : Loop → Cache) (v : Nat) (t : String) : Prop :=
  (∃ d, now[v]? = some ⟨t, d⟩) ∨ ∃ k l d, c.Opens k l ∧ (aside l)[v]? = some ⟨t, d⟩

def HoldsResult (c : Draft) : Nat → String → Prop := c.Holds c.results Loop.results

def HoldsArray (c : Draft) : Nat → String → Prop := c.Holds c.arrays Loop.arrays

theorem Moves.holdsResult (hm : c.Moves T c') (h : c.Sound) (hv : ¬ T v) (ht : c'.HoldsResult v t) :
    c.HoldsResult v t := by
  rcases ht with ⟨d,hd⟩ | ⟨k,l',d,hl',hd⟩
  · exact .inl ⟨d,hm.balanced.results v hv ▸ hd⟩
  · obtain ⟨l,hl,hs⟩ := hm.balanced.follows.opens h.valid hl'
    exact .inr ⟨k,l,d,hl,hs.results v hv ▸ hd⟩

theorem Moves.holdsArray (hm : c.Moves T c') (h : c.Sound) (hv : ¬ T v) (ht : c'.HoldsArray v t) :
    c.HoldsArray v t := by
  rcases ht with ⟨d,hd⟩ | ⟨k,l',d,hl',hd⟩
  · exact .inl ⟨d,hm.balanced.arrays v hv ▸ hd⟩
  · obtain ⟨l,hl,hs⟩ := hm.balanced.follows.opens h.valid hl'
    exact .inr ⟨k,l,d,hl,hs.arrays v hv ▸ hd⟩

theorem opens_modifyLoop {i k : Nat} {f : Loop → Loop} {l' : Loop}
    (h : (c.modifyLoop i f).Opens k l') : ∃ l, c.Opens k l ∧ (l' = l ∨ l' = f l) := by
  obtain ⟨j,hj,hl⟩ := h
  rw [Draft.modifyLoop, List.getElem?_modify] at hl
  cases hget : c.loops[j]? with
  | none => simp [hget] at hl
  | some l =>
    refine ⟨l,⟨j,hj,hget⟩,?_⟩
    rw [hget] at hl
    by_cases hij : i = j
    · right
      simpa [hij] using hl.symm
    · left
      simpa [hij] using hl.symm

theorem Holds.of_modifyLoop {i : Nat} {f : Loop → Loop} {now now' : Cache} {aside : Loop → Cache}
    (h : (c.modifyLoop i f).Holds now' aside v t)
    (hnow : ∀ (w : Nat) (e : Entry), now'[w]? = some e → now[w]? = some e)
    (hf : ∀ (l : Loop) (w : Nat) (e : Entry), (aside (f l))[w]? = some e →
      (aside l)[w]? = some e ∨ now[w]? = some e) : c.Holds now aside v t := by
  rcases h with ⟨d,hd⟩ | ⟨k,l',d,hl',hd⟩
  · exact .inl ⟨d,hnow v _ hd⟩
  · obtain ⟨l,hl,rfl | rfl⟩ := opens_modifyLoop hl'
    · exact .inr ⟨k,_,d,hl,hd⟩
    · rcases hf l v _ hd with hd | hd
      · exact .inr ⟨k,l,d,hl,hd⟩
      · exact .inl ⟨d,hd⟩

theorem lines_modifyLoop (c : Draft) (i : Nat) {f : Loop → Loop} (hf : ∀ l, (f l).queued = l.queued) :
    (c.modifyLoop i f).lines = c.lines := by
  rw [lines, lines, waiting, waiting]
  congr 1
  change ((c.stack.head?.bind (c.modifyLoop i f).loop?).map (·.queued)).getD [] = _
  cases c.stack.head? with
  | none => rfl
  | some j =>
    simp only [Option.bind_some, loop?, Draft.modifyLoop, List.getElem?_modify]
    cases c.loops[j]? with
    | none => simp
    | some l =>
      by_cases hij : i = j
      · simp [hij, hf]
      · simp [hij]

theorem opens_queueAt {d k : Nat} {ls : List Line} {l' : Loop} (h : (c.queueAt d ls).Opens k l') :
    ∃ l, c.Opens k l ∧ l'.results = l.results ∧ l'.arrays = l.arrays := by
  rw [queueAt] at h
  split at h
  · obtain ⟨l,hl,rfl | rfl⟩ := opens_modifyLoop h
    · exact ⟨_,hl,rfl,rfl⟩
    · exact ⟨l,hl,rfl,rfl⟩
  · exact ⟨l',h,rfl,rfl⟩

theorem done_atTop {r : Nat} : c.atTop.Done r ↔ c.Done r := by
  constructor
  · rintro ⟨e,he,hd⟩
    exact ⟨e,(Cache.lt_of_below he).1,hd⟩
  · rintro ⟨e,he,hd⟩
    refine ⟨e,?_,hd⟩
    change (c.results.below 1)[r]? = some e
    rw [Cache.getElem?_below_of_le fun e' he' => ?_, he]
    rw [he] at he'
    cases he'
    omega

end Draft

namespace Survey

variable {p : Survey} {c c' c'' : Draft} {v w r : Nat} {t : String}

/-- The reducers that take a loop. -/
abbrev Looping (p : Survey) (r : Nat) : Prop := p.graph.Sums p.root p.vector r

/-- All the reducers that a vertex uses are done. -/
def Covered (p : Survey) (c : Draft) (v : Nat) : Prop :=
  ∀ r, p.graph.LeadsFree p.bound v r → p.Looping r → c.Done r

theorem covered_of_links (hv : p.Looping v → c.Done v) (h : ∀ w ∈ p.graph.links v, p.Covered c w) :
    p.Covered c v := by
  intro r hr hl
  cases hr with
  | refl => exact hv hl
  | step _ hw hr => exact h _ hw r hr hl

open Classical in
/-- The reducers that are done. -/
noncomputable def finished (p : Survey) (c : Draft) : Finset Nat :=
  (Finset.range p.graph.size).filter fun r => p.Looping r ∧ c.Done r

theorem mem_finished : r ∈ p.finished c ↔ p.Looping r ∧ c.Done r := by
  classical
  rw [finished, Finset.mem_filter, Finset.mem_range]
  exact ⟨fun h => h.2,fun h => ⟨h.1.lt_size,h⟩⟩

theorem finished_congr (h : ∀ r, p.Looping r → (c'.Done r ↔ c.Done r)) :
    p.finished c' = p.finished c := by
  ext r
  rw [mem_finished, mem_finished]
  exact and_congr_right (h r)

/-- Code is added, what is done stays done, and each loop that was opened finished a reducer. -/
structure Advances (p : Survey) (c c' : Draft) : Prop where
  writes : c.Writes c'
  done : ∀ r, p.Looping r → c.Done r → c'.Done r
  count : c'.loopCount + (p.finished c).card = c.loopCount + (p.finished c').card

theorem Advances.refl (c : Draft) : p.Advances c c := ⟨.refl c,fun _ _ h => h,rfl⟩

theorem Advances.trans (h : p.Advances c c') (h' : p.Advances c' c'') : p.Advances c c'' where
  writes := h.writes.trans h'.writes
  done := fun r hr hd => h'.done r hr (h.done r hr hd)
  count := by
    have := h.count
    have := h'.count
    omega

theorem Covered.mono (h : p.Covered c v) (hd : ∀ r, p.Looping r → c.Done r → c'.Done r) :
    p.Covered c' v := fun r hu hr => hd r hr (h r hu hr)

/-- At most one loop is open, over the vector observable, and what is cached is settled. -/
structure Ready (p : Survey) (c : Draft) : Prop where
  sound : c.Sound
  single : c.stack = [] ∨ (∃ i, c.stack = [i]) ∧ (c.bindings[p.vector]?).isSome = true
  columns : ∀ e ∈ c.columns, e.1.serial = p.vector
  bindings : ∀ (v : Nat) (t : String), c.bindings[v]? = some t → v = p.vector ∧ IsLine t
  results : ∀ v t, c.HoldsResult v t → IsLine t ∧ p.Covered c v
  arrays : ∀ v t, c.HoldsArray v t → IsLine t ∧ ∀ w ∈ p.graph.links v, p.Covered c w

theorem Ready.depth_le (h : p.Ready c) : c.depth ≤ 1 := by
  rcases h.single with hs | ⟨⟨i,hs⟩,_⟩
  · rw [Draft.depth, hs]
    exact Nat.zero_le 1
  · rw [Draft.depth, hs]
    exact Nat.le_refl 1

structure Step (p : Survey) (c c' : Draft) : Prop where
  ready : p.Ready c'
  advances : p.Advances c c'

theorem Ready.running (h : p.Ready c) (ids : List Identity) : p.Ready { c with running := ids } :=
  ⟨h.sound.running ids,h.single,h.columns,h.bindings,h.results,h.arrays⟩

theorem Step.running {id : Identity} (h : p.Step (c.entered id) c') : p.Step c c'.left :=
  ⟨h.ready.running _,⟨h.advances.writes,h.advances.done,h.advances.count⟩⟩

theorem Step.refl (h : p.Ready c) : p.Step c c := ⟨h,.refl c⟩

theorem Step.trans (h : p.Step c c') (h' : p.Step c' c'') : p.Step c c'' :=
  ⟨h'.ready,h.advances.trans h'.advances⟩

theorem Step.covered (h : p.Step c c') (hv : p.Covered c v) : p.Covered c' v :=
  hv.mono h.advances.done

variable {T : Nat → Prop}

/-- A step that opens no loop and finishes no reducer, and caches only what is settled. -/
theorem Step.of_moves (hc : p.Ready c) (hm : c.Moves T c') (hw : c.Writes c')
    (hcount : c'.loopCount = c.loopCount) (hdone : ∀ r, p.Looping r → (c'.Done r ↔ c.Done r))
    (hr : ∀ v t, c'.HoldsResult v t → c.HoldsResult v t ∨ IsLine t ∧ p.Covered c v)
    (ha : ∀ v t, c'.HoldsArray v t →
      c.HoldsArray v t ∨ IsLine t ∧ ∀ w ∈ p.graph.links v, p.Covered c w) : p.Step c c' := by
  have hkeep : ∀ r, p.Looping r → c.Done r → c'.Done r := fun r hl => (hdone r hl).mpr
  have hb := hm.balanced
  refine ⟨?_,hw,hkeep,by rw [hcount, finished_congr hdone]⟩
  exact
    { sound := hm.sound
      single := by rw [hb.stack, hb.bindings]; exact hc.single
      columns := by rw [hb.columns]; exact hc.columns
      bindings := fun v t ht => hc.bindings v t (hb.bindings v ▸ ht)
      results := fun v t ht => by
        obtain ⟨hline,hcov⟩ := (hr v t ht).elim (hc.results v t) id
        exact ⟨hline,hcov.mono hkeep⟩
      arrays := fun v t ht => by
        obtain ⟨hline,hcov⟩ := (ha v t ht).elim (hc.arrays v t) id
        exact ⟨hline,fun w hw => (hcov w hw).mono hkeep⟩ }

theorem Step.of_quiet (hc : p.Ready c) (hm : c.Moves (fun _ => False) c') (hw : c.Writes c')
    (hcount : c'.loopCount = c.loopCount) : p.Step c c' := by
  refine .of_moves hc hm hw hcount (fun r _ => ?_) (fun v t ht => ?_) fun v t ht => ?_
  · rw [Draft.Done, Draft.Done, hm.balanced.results r id]
  · exact .inl (hm.holdsResult hc.sound id ht)
  · exact .inl (hm.holdsArray hc.sound id ht)

theorem step_write (hc : p.Ready c) (ht : Line.IsStatement t) :
    p.Step c { c with body := c.body.append t c.depth } :=
  .of_quiet hc (.write hc.sound _) (.write ht c) rfl

theorem loopCount_introduce (c : Draft) (o : Options) (name statement : String) (d : Nat) :
    (c.introduce o name statement d).loopCount = c.loopCount := by
  rw [Draft.introduce]
  generalize (if o.hoist = true then d else c.depth) = d
  dsimp only
  split
  · rfl
  · rw [Draft.queueAt]
    split <;> rfl

theorem step_introduce (hc : p.Ready c) (ht : Line.IsStatement t) (name : String) {d : Nat}
    (hd : d ≤ c.depth) : p.Step c (c.introduce p.options name t d) :=
  .of_quiet hc (.introduce hc.sound _ _ _ _) (.introduce hc.sound hc.depth_le ht _ name hd)
    (loopCount_introduce _ _ _ _ _)

theorem step_freshTemp (hc : p.Ready c) : p.Step c (c.freshTemp p.options).2 :=
  .of_quiet hc (.freshTemp hc.sound _) (.of_eq rfl rfl rfl rfl) rfl

theorem step_freshArray (hc : p.Ready c) : p.Step c (c.freshArray p.options).2 :=
  .of_quiet hc (.freshArray hc.sound _) (.of_eq rfl rfl rfl rfl) rfl

theorem isIdentifier_stem (ho : p.options.Valid) :
    isIdentifier p.options.tempStem = true ∧ isIdentifier p.options.arrayStem = true ∧
      isIdentifier p.options.loopStem = true ∧ isIdentifier p.options.obsName = true ∧
      isIdentifier p.options.paramsName = true := by
  have h := ho.isIdentifier
  simp only [Options.variableNames, List.forall_mem_cons] at h
  exact ⟨h.1,h.2.2.1,h.2.1,h.2.2.2.1,h.2.2.2.2.1⟩

theorem step_bindFresh (ho : p.options.Valid) (hc : p.Ready c) {expr : String} (he : IsLine expr) :
    p.Step c (c.bindFresh p.options expr).2 ∧ IsLine (c.bindFresh p.options expr).1 := by
  have hfresh := step_freshTemp (p := p) hc
  have hstem := (isIdentifier_stem ho).1
  refine ⟨hfresh.trans ?_,isLine_numbered hstem _⟩
  exact step_introduce hfresh.ready (Line.isStatement_assign hstem _ he) _ (Draft.depthOf_le _ _)

/-- Caching a result, if everything that it uses is done with it. -/
theorem Ready.insertResult (hc : p.Ready c) (ht : IsLine t) {d : Nat} (hd : d ≤ c.depth)
    (hkeep : ∀ r, p.Looping r → c.Done r → { c with results := c.results.insert v ⟨t, d⟩ }.Done r)
    (hself : p.Covered { c with results := c.results.insert v ⟨t, d⟩ } v) :
    p.Ready { c with results := c.results.insert v ⟨t, d⟩ } where
  sound := (Draft.Moves.insertResult (T := fun _ => True) hc.sound trivial hd).sound
  single := hc.single
  columns := hc.columns
  bindings := hc.bindings
  results := fun w u hw => by
    rcases hw with ⟨d',hd'⟩ | hw
    · rw [Cache.getElem?_insert] at hd'
      split at hd'
      · rename_i heq
        cases hd'
        exact ⟨ht,heq ▸ hself⟩
      · exact (hc.results w u (.inl ⟨d',hd'⟩)).imp_right fun h => h.mono hkeep
    · exact (hc.results w u (.inr hw)).imp_right fun h => h.mono hkeep
  arrays := fun w u hw => (hc.arrays w u hw).imp_right fun h x hx => (h x hx).mono hkeep

theorem step_insertResult (hc : p.Ready c) (hv : ¬ p.Looping v) (hcov : p.Covered c v)
    (ht : IsLine t) {d : Nat} (hd : d ≤ c.depth) :
    p.Step c { c with results := c.results.insert v ⟨t, d⟩ } := by
  have hdone : ∀ r, p.Looping r →
      ({ c with results := c.results.insert v ⟨t, d⟩ }.Done r ↔ c.Done r) := by
    intro r hr
    have hne : ¬ v = r := fun h => hv (h ▸ hr)
    rw [Draft.Done, Draft.Done, Cache.getElem?_insert, if_neg hne]
  have hkeep := fun r hr => (hdone r hr).mpr
  refine ⟨hc.insertResult ht hd hkeep (hcov.mono hkeep),.of_eq rfl rfl rfl rfl,hkeep,?_⟩
  rw [finished_congr hdone]

theorem step_insertArray (hc : p.Ready c) (hcov : ∀ w ∈ p.graph.links v, p.Covered c w)
    (ht : IsLine t) {d : Nat} (hd : d ≤ c.depth) :
    p.Step c { c with arrays := c.arrays.insert v ⟨t, d⟩ } := by
  have hm : c.Moves (· = v) { c with arrays := c.arrays.insert v ⟨t, d⟩ } :=
    .insertArray (T := (· = v)) hc.sound rfl hd
  refine .of_moves hc hm (.of_eq rfl rfl rfl rfl) rfl (fun r hr => Iff.rfl) (fun w u hw => .inl hw)
    fun w u hw => ?_
  rcases hw with ⟨d',hd'⟩ | hw
  · change (c.arrays.insert v ⟨t, d⟩)[w]? = some ⟨u, d'⟩ at hd'
    rw [Cache.getElem?_insert] at hd'
    split at hd'
    · rename_i heq
      cases hd'
      exact .inr ⟨ht,heq ▸ hcov⟩
    · exact .inl (.inl ⟨d',hd'⟩)
  · exact .inl (.inr hw)

theorem step_bindArray (ho : p.options.Valid) (hc : p.Ready c) (id : Identity)
    (hcov : ∀ w ∈ p.graph.links id.serial, p.Covered c w) (k : Nat) {code : String} (hcode : IsLine code) :
    p.Step c (c.bindArray p.options id (numbered p.options.arrayStem k) code) := by
  have hstem := (isIdentifier_stem ho).2.1
  have hintro := step_introduce hc (Line.isStatement_assign hstem k hcode)
    (numbered p.options.arrayStem k) (c.depthOf_le code)
  refine hintro.trans (step_insertArray hintro.ready (fun w hw => hintro.covered (hcov w hw))
    (isLine_numbered hstem k) ?_)
  have hmoves := Draft.Moves.introduce (T := fun _ => False) hc.sound p.options
    (numbered p.options.arrayStem k) (numbered p.options.arrayStem k ++ " = " ++ code) (c.depthOf code)
  rw [Draft.bindingDepth_introduce, hmoves.balanced.depth_eq]
  split
  · exact c.depthOf_le code
  · exact Nat.le_refl _

theorem step_setResultAside (hc : p.Ready c) (hv : ¬ p.Looping v) {e : Entry}
    (he : c.results[v]? = some e) {d : Nat} (hd : e.depth < d) :
    p.Step c (c.setResultAside v e d) := by
  have hm : c.Moves (· = v) (c.setResultAside v e d) := .setResultAside (T := (· = v)) hc.sound rfl hd
  have hdone : ∀ r, p.Looping r → ((c.setResultAside v e d).Done r ↔ c.Done r) := by
    intro r hr
    have hne : ¬ r = v := fun h => hv (h ▸ hr)
    rw [Draft.Done, Draft.Done, hm.balanced.results r hne]
  revert hm hdone
  rw [Draft.setResultAside]
  split
  · intro hm hdone
    refine .of_moves hc hm (.of_lines (Draft.lines_modifyLoop c _ fun l => rfl) rfl) rfl hdone
      (fun w u hw => .inl ?_) fun w u hw => .inl ?_
    · exact Draft.Holds.of_modifyLoop hw (fun _ _ => Cache.of_erase)
        fun l w e' h => Cache.of_insert_some he h
    · exact Draft.Holds.of_modifyLoop hw (fun _ _ h => h) fun l w e' h => .inl h
  · exact fun _ _ => .refl hc

theorem step_setArrayAside (hc : p.Ready c) {e : Entry} (he : c.arrays[v]? = some e) {d : Nat}
    (hd : e.depth < d) : p.Step c (c.setArrayAside v e d) := by
  have hm : c.Moves (· = v) (c.setArrayAside v e d) := .setArrayAside (T := (· = v)) hc.sound rfl hd
  revert hm
  rw [Draft.setArrayAside]
  split
  · intro hm
    refine .of_moves hc hm (.of_lines (Draft.lines_modifyLoop c _ fun l => rfl) rfl) rfl
      (fun r _ => Iff.rfl) (fun w u hw => .inl ?_) fun w u hw => .inl ?_
    · exact Draft.Holds.of_modifyLoop hw (fun _ _ h => h) fun l w e' h => .inl h
    · exact Draft.Holds.of_modifyLoop hw (fun _ _ => Cache.of_erase)
        fun l w e' h => Cache.of_insert_some he h
  · exact fun _ => .refl hc

theorem Ready.atTop (hc : p.Ready c) : p.Ready c.atTop := by
  have hnone : ∀ {k l}, ¬ c.atTop.Opens k l := by
    rintro k l ⟨i,hi,_⟩
    cases hi
  have hcov : ∀ {v}, p.Covered c v → p.Covered c.atTop v :=
    fun h => h.mono fun r _ => Draft.done_atTop.mpr
  exact
    { sound := Draft.sound_atTop c
      single := .inl rfl
      columns := hc.columns
      bindings := fun v t ht => by
        have hempty : c.atTop.bindings[v]? = none := Std.TreeMap.getElem?_emptyc
        rw [hempty] at ht
        cases ht
      results := fun v t ht => by
        rcases ht with ⟨d,hd⟩ | ⟨k,l,_,hl,_⟩
        · obtain ⟨hline,h⟩ := hc.results v t (.inl ⟨d,(Cache.lt_of_below hd).1⟩)
          exact ⟨hline,hcov h⟩
        · exact (hnone hl).elim
      arrays := fun v t ht => by
        rcases ht with ⟨d,hd⟩ | ⟨k,l,_,hl,_⟩
        · obtain ⟨hline,h⟩ := hc.arrays v t (.inl ⟨d,(Cache.lt_of_below hd).1⟩)
          exact ⟨hline,fun w hw => hcov (h w hw)⟩
        · exact (hnone hl).elim }

section

variable (hfree : ∀ r, p.Looping r → ¬ p.bound r)

include hfree

theorem Ready.done_of_holds (hc : p.Ready c) (hr : p.Looping r) (ht : c.HoldsResult r t) : c.Done r :=
  (hc.results r t ht).2 r (.refl (hfree r hr)) hr

theorem Step.adopt (hc : p.Ready c) {i : Nat} (hi : c.stack = [i]) {inner : Draft}
    (hm : c.atTop.Moves T inner) (hs : p.Step c.atTop inner) :
    p.Step c ((inner.backTo c).adopt inner) ∧
      ∀ r, p.Looping r → inner.Done r → ((inner.backTo c).adopt inner).Done r := by
  have hmoves := Draft.Moves.adopt hc.sound hm
  have hresults : ((inner.backTo c).adopt inner).results = c.results.orElse inner.results := rfl
  have harrays : ((inner.backTo c).adopt inner).arrays = c.arrays.orElse inner.arrays := rfl
  have hdone : ∀ r, p.Looping r → (((inner.backTo c).adopt inner).Done r ↔ inner.Done r) := by
    intro r hr
    rw [Draft.Done, hresults, Cache.getElem?_orElse]
    cases hget : c.results[r]? with
    | none => rw [Option.none_or]; rfl
    | some e =>
      -- What was there before is done before.
      have hbefore : c.Done r := hc.done_of_holds hfree hr (.inl ⟨e.depth,hget⟩)
      have hafter : inner.Done r := hs.advances.done r hr (Draft.done_atTop.mpr hbefore)
      refine iff_of_true ?_ hafter
      obtain ⟨e',he',hd⟩ := hbefore
      rw [hget] at he'
      cases he'
      exact ⟨e,rfl,hd⟩
  have hkeep : ∀ r, p.Looping r → c.Done r → ((inner.backTo c).adopt inner).Done r := fun r hr h =>
    (hdone r hr).mpr (hs.advances.done r hr (Draft.done_atTop.mpr h))
  have hopens : ∀ {k l'}, ((inner.backTo c).adopt inner).Opens k l' →
      ∃ l, c.Opens k l ∧ l'.results = l.results ∧ l'.arrays = l.arrays := by
    intro k l' hl'
    have hback : ∃ l, (inner.backTo c).Opens k l ∧ l'.results = l.results ∧ l'.arrays = l.arrays :=
      Draft.opens_queueAt hl'
    obtain ⟨l,hl,heq⟩ := hback
    exact ⟨l,Draft.opens_backTo hc.sound hm.balanced hl,heq⟩
  obtain ⟨l,hl⟩ : ∃ l, c.loops[i]? = some l := by
    obtain ⟨l,j,hj,hl⟩ := hc.sound.valid 0 (by rw [Draft.depth, hi]; exact Nat.zero_lt_one)
    rw [hi] at hj
    cases hj
    exact ⟨l,hl⟩
  refine ⟨⟨?_,?_⟩,fun r hr => (hdone r hr).mpr⟩
  · exact
      { sound := hmoves.sound
        single := by rw [hmoves.balanced.stack, hmoves.balanced.bindings]; exact hc.single
        columns := by rw [hmoves.balanced.columns]; exact hc.columns
        bindings := fun v t ht => hc.bindings v t (hmoves.balanced.bindings v ▸ ht)
        results := fun v t ht => by
          rcases ht with ⟨d,hd⟩ | ⟨k,l',d,hl',hd⟩
          · rw [hresults, Cache.getElem?_orElse, Option.or_eq_some_iff] at hd
            rcases hd with hd | ⟨_,hd⟩
            · exact (hc.results v t (.inl ⟨d,hd⟩)).imp_right fun h => h.mono hkeep
            · exact (hs.ready.results v t (.inl ⟨d,hd⟩)).imp_right fun h =>
                h.mono fun r hr => (hdone r hr).mpr
          · obtain ⟨l,hl,heq,_⟩ := hopens hl'
            exact (hc.results v t (.inr ⟨k,l,d,hl,heq ▸ hd⟩)).imp_right fun h => h.mono hkeep
        arrays := fun v t ht => by
          rcases ht with ⟨d,hd⟩ | ⟨k,l',d,hl',hd⟩
          · rw [harrays, Cache.getElem?_orElse, Option.or_eq_some_iff] at hd
            rcases hd with hd | ⟨_,hd⟩
            · exact (hc.arrays v t (.inl ⟨d,hd⟩)).imp_right fun h w hw => (h w hw).mono hkeep
            · exact (hs.ready.arrays v t (.inl ⟨d,hd⟩)).imp_right fun h w hw =>
                (h w hw).mono fun r hr => (hdone r hr).mpr
          · obtain ⟨l,hl,_,heq⟩ := hopens hl'
            exact (hc.arrays v t (.inr ⟨k,l,d,hl,heq ▸ hd⟩)).imp_right fun h w hw =>
              (h w hw).mono hkeep }
  · refine ⟨.adopt hi hl hm.balanced hs.advances.writes,hkeep,?_⟩
    have htop : p.finished c.atTop = p.finished c := finished_congr fun r _ => Draft.done_atTop
    have hloops : ((inner.backTo c).adopt inner).loopCount = inner.loopCount := by
      change ((inner.backTo c).queueAt 0 inner.body).loopCount = inner.loopCount
      rw [Draft.queueAt]
      split <;> rfl
    have hcount := hs.advances.count
    rw [htop] at hcount
    rw [finished_congr hdone, hloops]
    exact hcount

theorem Ready.withoutLoop (hc : p.Ready c) {i : Nat} (hi : c.stack = [i]) {l : Loop}
    (hl : c.loops[i]? = some l) :
    p.Ready ({ c with body := Draft.closedBody c.body l }.withoutLoop i l) ∧
      ∀ r, p.Looping r →
        (({ c with body := Draft.closedBody c.body l }.withoutLoop i l).Done r ↔ c.Done r) := by
  generalize hc' : { c with body := Draft.closedBody c.body l }.withoutLoop i l = c'
  have hlast : c.stack.getLast? = some i := by rw [hi]; rfl
  have hopen : c.Opens 0 l := ⟨i,by rw [hi]; rfl,hl⟩
  have hdepth := (hc.sound.loops 0 l hopen).depth
  have hstack : c'.stack = [] := by
    rw [← hc']
    change c.stack.dropLast = []
    rw [hi]
    rfl
  have hnone : ∀ {k m}, ¬ c'.Opens k m := by
    rintro k m ⟨j,hj,_⟩
    rw [hstack] at hj
    cases hj
  have hresults : c'.results = l.results.orElse (c.results.below l.depth) := by rw [← hc']; rfl
  have harrays : c'.arrays = l.arrays.orElse (c.arrays.below l.depth) := by rw [← hc']; rfl
  -- Nothing that takes a loop is set aside without being done.
  have hdone : ∀ r, p.Looping r → (c'.Done r ↔ c.Done r) := by
    intro r hr
    rw [Draft.Done, hresults, Cache.getElem?_orElse]
    constructor
    · rintro ⟨e,he,hd⟩
      rcases Option.or_eq_some_iff.mp he with he | ⟨_,he⟩
      · exact hc.done_of_holds hfree hr (.inr ⟨0,l,e.depth,hopen,he⟩)
      · exact ⟨e,(Cache.lt_of_below he).1,hd⟩
    · rintro ⟨e,he,hd⟩
      cases haside : l.results[r]? with
      | some e' =>
        have hlt := hc.sound.resultsAside 0 l hopen r e' haside
        exact ⟨e',rfl,by omega⟩
      | none =>
        refine ⟨e,?_,hd⟩
        rw [Option.none_or, Cache.getElem?_below_of_le fun e' he' => ?_, he]
        rw [he] at he'
        cases he'
        omega
  have hkeep : ∀ {v}, p.Covered c v → p.Covered c' v := fun h => h.mono fun r hr => (hdone r hr).mpr
  refine ⟨?_,hdone⟩
  exact
    { sound := hc' ▸ hc.sound.withoutLoop hlast hl
      single := .inl hstack
      columns := by rw [← hc']; exact hc.columns
      bindings := fun v t ht => by
        rw [← hc', Draft.getElem?_bindings_withoutLoop] at ht
        split at ht
        · cases ht
        · exact hc.bindings v t ht
      results := fun v t ht => by
        rcases ht with ⟨d,hd⟩ | ⟨k,m,_,hm,_⟩
        · rw [hresults, Cache.getElem?_orElse, Option.or_eq_some_iff] at hd
          rcases hd with hd | ⟨_,hd⟩
          · exact (hc.results v t (.inr ⟨0,l,d,hopen,hd⟩)).imp_right hkeep
          · exact (hc.results v t (.inl ⟨d,(Cache.lt_of_below hd).1⟩)).imp_right hkeep
        · exact (hnone hm).elim
      arrays := fun v t ht => by
        rcases ht with ⟨d,hd⟩ | ⟨k,m,_,hm,_⟩
        · rw [harrays, Cache.getElem?_orElse, Option.or_eq_some_iff] at hd
          rcases hd with hd | ⟨_,hd⟩
          · exact (hc.arrays v t (.inr ⟨0,l,d,hopen,hd⟩)).imp_right fun h w hw => hkeep (h w hw)
          · exact (hc.arrays v t (.inl ⟨d,(Cache.lt_of_below hd).1⟩)).imp_right
              fun h w hw => hkeep (h w hw)
        · exact (hnone hm).elim }

end

theorem Ready.withLoop (ho : p.options.Valid) (hc : p.Ready c) (hs : c.stack = [])
    {vars : List Identity} (hne : vars ≠ []) (hfree : ∀ id ∈ vars, c.bindings[id.serial]? = none)
    (hreg : ∀ id ∈ vars, (c.columns.get? id).isSome = true) (length : Nat) :
    p.Ready (c.withLoop p.options vars length) := by
  have hvars : ∀ id ∈ vars, id.serial = p.vector := by
    intro id hid
    obtain ⟨e,he,hsame⟩ := IdMap.exists_mem_of_isSome (hreg id hid)
    exact hsame ▸ hc.columns e he
  have hopens : ∀ {k l}, (c.withLoop p.options vars length).Opens k l →
      l = c.nextLoop p.options vars length := by
    intro k l hl
    rcases (Draft.opens_withLoop hc.sound).mp hl with ⟨j,hj,_⟩ | ⟨_,rfl⟩
    · rw [hs] at hj
      cases hj
    · rfl
  obtain ⟨htemp,harray,hloop,hobs,hparams⟩ := isIdentifier_stem ho
  exact
    { sound := hc.sound.withLoop ho hfree hreg length
      single := by
        refine .inr ⟨⟨c.loops.length,?_⟩,?_⟩
        · change c.stack ++ [c.loops.length] = _
          rw [hs, List.nil_append]
        · obtain ⟨id,hid⟩ := List.exists_mem_of_ne_nil vars hne
          have hmem : p.vector ∈ vars.map (·.serial) := hvars id hid ▸ List.mem_map_of_mem hid
          rw [Draft.getElem?_bindings_withLoop, if_pos (by simpa using hmem)]
          rfl
      columns := hc.columns
      bindings := fun v t ht => by
        rw [Draft.getElem?_bindings_withLoop] at ht
        split at ht
        · rename_i hmem
          obtain ⟨id,hid,rfl⟩ := List.mem_map.mp (by simpa using hmem)
          cases ht
          refine ⟨hvars id hid,?_⟩
          rw [Draft.indexed]
          simp only [isLine_append]
          exact ⟨⟨⟨⟨⟨newline_not_mem_of_isIdentifier hobs,by decide⟩,isLine_toString_int _⟩,by decide⟩,
            isLine_numbered hloop _⟩,by decide⟩
        · exact hc.bindings v t ht
      results := fun v t ht => by
        rcases ht with ht | ⟨k,l,d,hl,hd⟩
        · exact hc.results v t (.inl ht)
        · rw [hopens hl] at hd
          simp [Draft.nextLoop] at hd
      arrays := fun v t ht => by
        rcases ht with ht | ⟨k,l,d,hl,hd⟩
        · exact hc.arrays v t (.inl ht)
        · rw [hopens hl] at hd
          simp [Draft.nextLoop] at hd }

end Survey

end FitCode
