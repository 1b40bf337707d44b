import FitCode.Proofs.Lowering.Balance
import FitCode.Proofs.Options

/-! # Loops that open and close

Opening a loop keeps a draft sound, and closing the innermost one cannot fail in a sound draft. So a
step inside a loop that was opened for it is balanced, and so is one at top level, whether it succeeds
or fails.
-/
namespace FitCode

open Text

namespace Emit

variable {α β : Type} {c : Draft}

@[simp] theorem outcome_pure (a : α) : (pure a : Emit α).outcome c = (.ok a, c) := rfl

@[simp] theorem outcome_throw (e : Fault) : (throw e : Emit α).outcome c = (.error e, c) := rfl

@[simp] theorem outcome_get_bind (f : Draft → Emit β) :
    (get >>= f).outcome c = (f c).outcome c := rfl

@[simp] theorem outcome_set (d : Draft) : (set d : Emit PUnit).outcome c = (.ok ⟨⟩, d) := rfl

@[simp] theorem outcome_set_bind (d : Draft) (f : PUnit → Emit β) :
    (set d >>= f).outcome c = (f ⟨⟩).outcome d := rfl

@[simp] theorem outcome_modify (g : Draft → Draft) :
    (modify g : Emit PUnit).outcome c = (.ok ⟨⟩, g c) := rfl

@[simp] theorem outcome_modify_bind (g : Draft → Draft) (f : PUnit → Emit β) :
    (modify g >>= f).outcome c = (f ⟨⟩).outcome (g c) := rfl

@[simp] theorem outcome_ofExcept (r : Except Fault α) : (ofExcept r).outcome c = (r, c) := by
  cases r <;> rfl

@[simp] theorem outcome_attempt_bind (x : Emit α) (f : Except Fault α → Emit β) :
    (attempt x >>= f).outcome c = (f (x.outcome c).1).outcome (x.outcome c).2 := by
  rw [outcome_bind]
  rfl

end Emit

theorem Cache.getElem?_below_of_le {m : Cache} {d k : Nat}
    (h : ∀ e, m[k]? = some e → e.depth < d) : (m.below d)[k]? = m[k]? := by
  rw [getElem?_below]
  cases hk : m[k]? with
  | none => rfl
  | some e => simp [Option.filter, h e hk]

theorem Cache.lt_of_below {m : Cache} {d k : Nat} {e : Entry} (h : (m.below d)[k]? = some e) :
    m[k]? = some e ∧ e.depth < d := by
  rw [getElem?_below, Option.filter_eq_some_iff] at h
  exact ⟨h.1,of_decide_eq_true h.2⟩

/-- A closing loop leaves alone what it did not set aside and what is bound outside of it. -/
theorem Cache.getElem?_restore {aside now : Cache} {d k : Nat} (haside : aside[k]? = none)
    (h : ∀ e, now[k]? = some e → e.depth < d) : (aside.orElse (now.below d))[k]? = now[k]? := by
  rw [getElem?_orElse, haside, Option.none_or, getElem?_below_of_le h]

/-- What comes back when a loop closes was set aside at a smaller depth, and what stays is not
deeper. -/
theorem Cache.lt_of_restore {aside now : Cache} {d k : Nat} {e : Entry}
    (haside : ∀ (k : Nat) (e : Entry), aside[k]? = some e → e.depth < d)
    (h : (aside.orElse (now.below d))[k]? = some e) : e.depth < d := by
  rw [getElem?_orElse, Option.or_eq_some_iff] at h
  rcases h with h | ⟨_,h⟩
  · exact haside k e h
  · exact (lt_of_below h).2

theorem Cache.getElem?_orElse_below {mine theirs : Cache} {d k : Nat}
    (h : theirs[k]? = (mine.below d)[k]?) : (mine.orElse theirs)[k]? = mine[k]? := by
  rw [getElem?_orElse, h, getElem?_below]
  cases mine[k]? <;> simp

theorem Cache.le_of_orElse {mine theirs : Cache} {d k : Nat} {e : Entry}
    (hm : ∀ (k : Nat) (e : Entry), mine[k]? = some e → e.depth ≤ d)
    (ht : ∀ (k : Nat) (e : Entry), theirs[k]? = some e → e.depth ≤ d)
    (h : (mine.orElse theirs)[k]? = some e) : e.depth ≤ d := by
  rw [getElem?_orElse, Option.or_eq_some_iff] at h
  rcases h with h | ⟨_,h⟩
  · exact hm k e h
  · exact ht k e h

theorem Line.ofSnippet_opening {l : Loop} (h : '\n' ∉ l.index.toList) (depth : Nat) :
    Line.ofSnippet l.opening depth = [⟨depth, l.opening⟩] := by
  have hlist : l.opening.toList = 'f' :: ("or ".toList ++ l.index.toList ++ " in range(".toList ++
      (toString l.length).toList ++ [')', ':']) := by
    simp [Loop.opening]
  have hn : '\n' ∉ l.opening.toList := by
    have hlen := newline_not_mem_toString l.length
    rw [hlist]
    simp only [List.mem_cons, List.mem_append, h, hlen, or_false]
    decide
  have htrim : trimEnd isBlank l.opening.toList = l.opening.toList := by
    have hlast : l.opening.toList.reverse = ':' :: l.opening.toList.reverse.tail := by
      rw [hlist]
      simp
    rw [trimEnd, hlast, List.dropWhile_cons_of_neg (by decide), ← hlast, List.reverse_reverse]
  rw [Line.ofSnippet_single hlist (by decide) hn, Item.lineOf, htrim, String.ofList_toList]

theorem newline_not_mem_numbered {stem : String} (h : isIdentifier stem = true) (k : Nat) :
    '\n' ∉ (numbered stem k).toList := by
  rw [numbered, String.toList_append, List.mem_append]
  exact not_or.mpr ⟨newline_not_mem_of_isIdentifier h,newline_not_mem_toString k⟩

namespace Draft

/-- The loop that is opened next. -/
def nextLoop (c : Draft) (o : Options) (vars : List Identity) (length : Nat) : Loop :=
  { vars, index := numbered o.loopStem c.loopCount, length, depth := c.depth + 1,
    start := c.body.length }

variable {o : Options} {c : Draft}

theorem opens_lt {k : Nat} {l : Loop} (h : c.Opens k l) : k < c.depth := by
  obtain ⟨i,hi,_⟩ := h
  exact (List.getElem?_eq_some_iff.mp hi).1

theorem opens_unique {k : Nat} {l m : Loop} (h : c.Opens k l) (h' : c.Opens k m) : l = m := by
  obtain ⟨i,hi,hl⟩ := h
  obtain ⟨j,hj,hm⟩ := h'
  obtain rfl : i = j := Option.some.inj (hi.symm.trans hj)
  exact Option.some.inj (hl.symm.trans hm)

theorem Sound.lt_length (h : c.Sound) {i : Nat} (hi : i ∈ c.stack) : i < c.loops.length := by
  obtain ⟨k,hk⟩ := List.mem_iff_getElem?.mp hi
  obtain ⟨l,j,hj,hl⟩ := h.valid k (List.getElem?_eq_some_iff.mp hk).1
  obtain rfl : i = j := Option.some.inj (hk.symm.trans hj)
  exact (List.getElem?_eq_some_iff.mp hl).1

theorem indexed_congr {a b : Identity} (h : a.serial = b.serial) (o : Options) (index : String) :
    c.indexed o index a = c.indexed o index b := by
  rw [indexed, indexed, IdMap.get?_congr c.columns h]

theorem withLoop_body (ho : o.Valid) (vars : List Identity) (length : Nat) :
    (c.withLoop o vars length).body =
      c.body ++ [⟨c.depth, (c.nextLoop o vars length).opening⟩] := by
  have hstem : isIdentifier o.loopStem = true :=
    ho.isIdentifier ("loop_prefix", _) (by simp [Options.variableNames])
  have hline := Line.ofSnippet_opening (l := c.nextLoop o vars length)
    (newline_not_mem_numbered hstem c.loopCount) c.depth
  rw [← hline]
  rfl

theorem opens_withLoop (h : c.Sound) {vars : List Identity} {length k : Nat}
    {l : Loop} : (c.withLoop o vars length).Opens k l ↔
      c.Opens k l ∨ k = c.depth ∧ l = c.nextLoop o vars length := by
  have hstack : (c.withLoop o vars length).stack = c.stack ++ [c.loops.length] := rfl
  have hloops : (c.withLoop o vars length).loops = c.loops ++ [c.nextLoop o vars length] := rfl
  unfold Opens
  rw [hstack, hloops]
  rcases Nat.lt_trichotomy k c.depth with hk | hk | hk
  · rw [List.getElem?_append_left hk]
    constructor
    · rintro ⟨i,hi,hl⟩
      rw [List.getElem?_append_left (h.lt_length (List.mem_of_getElem? hi))] at hl
      exact .inl ⟨i,hi,hl⟩
    · rintro (⟨i,hi,hl⟩ | ⟨rfl,_⟩)
      · refine ⟨i,hi,?_⟩
        rw [List.getElem?_append_left (h.lt_length (List.mem_of_getElem? hi))]
        exact hl
      · exact absurd hk (Nat.lt_irrefl _)
  · subst hk
    have hend : (c.stack ++ [c.loops.length])[c.depth]? = some c.loops.length := by
      simp [depth]
    rw [hend]
    constructor
    · rintro ⟨i,hi,hl⟩
      cases hi
      exact .inr ⟨rfl,by simpa using hl.symm⟩
    · rintro (⟨i,hi,_⟩ | ⟨_,rfl⟩)
      · exact absurd (List.getElem?_eq_some_iff.mp hi).1 (Nat.lt_irrefl _)
      · exact ⟨_,rfl,by simp⟩
  · have hnone : (c.stack ++ [c.loops.length])[k]? = none :=
      List.getElem?_eq_none (by simpa [depth] using Nat.succ_le_of_lt hk)
    have hnone' : c.stack[k]? = none := List.getElem?_eq_none (Nat.le_of_lt hk)
    simp [hnone, hnone', Nat.ne_of_gt hk]

theorem getElem?_bindings_withLoop (c : Draft) (o : Options) (vars : List Identity)
    (length k : Nat) : (c.withLoop o vars length).bindings[k]? =
      if (vars.map (·.serial)).contains k then
        some (c.indexed o (c.nextLoop o vars length).index ⟨k, ""⟩)
      else c.bindings[k]? := by
  rw [← getElem?_foldl_insert vars fun k => c.indexed o (c.nextLoop o vars length).index ⟨k, ""⟩]
  rfl

/-- Opening a loop over registered observables that no open loop iterates. -/
theorem Sound.withLoop (h : c.Sound) (ho : o.Valid) {vars : List Identity}
    (hfree : ∀ id ∈ vars, c.bindings[id.serial]? = none)
    (hreg : ∀ id ∈ vars, (c.columns.get? id).isSome) (length : Nat) :
    (c.withLoop o vars length).Sound := by
  have hopens : ∀ {k l}, (c.withLoop o vars length).Opens k l ↔
      c.Opens k l ∨ k = c.depth ∧ l = c.nextLoop o vars length := opens_withLoop h
  have hdepth : (c.withLoop o vars length).depth = c.depth + 1 := by
    simp [depth, Draft.withLoop]
  have hbody := withLoop_body (c := c) ho vars length
  have hnew : ∀ k l, c.Opens k l → ∀ a ∈ l.vars, ∀ b ∈ vars, a.serial ≠ b.serial := by
    intro k l hl a ha b hb hab
    have hbound := (h.bindings a.serial).mpr ⟨k,l,hl,List.mem_map_of_mem ha⟩
    rw [hab, hfree b hb] at hbound
    cases hbound
  have hline : ∀ k l, c.Opens k l → l.start < c.body.length := fun k l hl =>
    (List.getElem?_eq_some_iff.mp (h.loops k l hl).line).1
  exact
    { results := fun v e he => hdepth ▸ Nat.le_succ_of_le (h.results v e he)
      arrays := fun v e he => hdepth ▸ Nat.le_succ_of_le (h.arrays v e he)
      resultsAside := fun k l hl v e he => by
        rcases hopens.mp hl with hl | ⟨rfl,rfl⟩
        · exact h.resultsAside k l hl v e he
        · simp [nextLoop] at he
      arraysAside := fun k l hl v e he => by
        rcases hopens.mp hl with hl | ⟨rfl,rfl⟩
        · exact h.arraysAside k l hl v e he
        · simp [nextLoop] at he
      valid := fun k hk => by
        rcases Nat.lt_or_ge k c.depth with hlt | hge
        · obtain ⟨l,hl⟩ := h.valid k hlt
          exact ⟨l,hopens.mpr (.inl hl)⟩
        · exact ⟨_,hopens.mpr (.inr ⟨by omega,rfl⟩)⟩
      loops := fun k l hl => by
        rcases hopens.mp hl with hl | ⟨rfl,rfl⟩
        · have hs := h.loops k l hl
          refine ⟨hs.closed,hs.depth,?_⟩
          rw [hbody, List.getElem?_append_left (hline k l hl)]
          exact hs.line
        · refine ⟨rfl,rfl,?_⟩
          rw [hbody]
          simp [nextLoop]
      starts := fun i j l m hij hl hm => by
        have hi := opens_lt hl
        have hj := opens_lt hm
        rcases hopens.mp hl with hl | ⟨rfl,rfl⟩
        · rcases hopens.mp hm with hm | ⟨rfl,rfl⟩
          · exact h.starts i j l m hij hl hm
          · exact hline i l hl
        · omega
      disjoint := fun i j l m hij hl hm => by
        have hj := opens_lt hm
        rcases hopens.mp hl with hl | ⟨rfl,rfl⟩
        · rcases hopens.mp hm with hm | ⟨rfl,rfl⟩
          · exact h.disjoint i j l m hij hl hm
          · exact hnew i l hl
        · omega
      bindings := fun v => by
        simp only [getElem?_bindings_withLoop, hopens]
        by_cases hv : v ∈ vars.map (·.serial)
        · rw [if_pos (by simpa using hv)]
          exact iff_of_true rfl ⟨c.depth,_,.inr ⟨rfl,rfl⟩,hv⟩
        · rw [if_neg (by simpa using hv), h.bindings]
          constructor
          · rintro ⟨k,l,hl,hmem⟩
            exact ⟨k,l,.inl hl,hmem⟩
          · rintro ⟨k,l,hl | ⟨rfl,rfl⟩,hmem⟩
            · exact ⟨k,l,hl,hmem⟩
            · exact absurd hmem hv
      registered := fun k l hl id hid => by
        rcases hopens.mp hl with hl | ⟨rfl,rfl⟩
        · exact h.registered k l hl id hid
        · exact hreg id hid }

/-- The lines of a body whose last loop closes: a `pass` if the loop is empty, and what was queued for
it in front of it. -/
def closedBody (b : Listing) (l : Loop) : Listing :=
  let b := if (b.after (l.start + 1)).isEmpty then b.append "pass" l.depth else b
  b.take l.start ++ l.queued ++ b.drop l.start

theorem getElem?_closedBody {b : Listing} {l : Loop} (hl : l.start ≤ b.length) {i : Nat}
    (hi : i < l.start) : (closedBody b l)[i]? = b[i]? := by
  have htake : ∀ b' : Listing, l.start ≤ b'.length →
      (b'.take l.start ++ l.queued ++ b'.drop l.start)[i]? = b'[i]? := by
    intro b' hb'
    rw [List.append_assoc, List.getElem?_append_left (by simp; omega),
      List.getElem?_take_of_lt hi]
  rw [closedBody]
  split
  · rw [htake _ (by simp [Listing.append]; omega), Listing.append,
      List.getElem?_append_left (by omega)]
  · exact htake b hl

theorem prefix_closedBody {b p : Listing} {l : Loop} (hp : p <+: b) (hl : p.length ≤ l.start) :
    p <+: closedBody b l := by
  have htake : ∀ b' : Listing, p <+: b' → p <+: b'.take l.start ++ l.queued ++ b'.drop l.start := by
    intro b' hb'
    rw [List.append_assoc]
    exact (List.prefix_take_iff.mpr ⟨hb',hl⟩).trans (List.prefix_append _ _)
  rw [closedBody]
  split
  · exact htake _ (hp.trans (List.prefix_append _ _))
  · exact htake b hp

end Draft

namespace Draft

variable {c : Draft}

theorem Sound.stack_inj (h : c.Sound) {j k i : Nat} (hj : c.stack[j]? = some i)
    (hk : c.stack[k]? = some i) : j = k := by
  obtain ⟨l,i',hi',hl⟩ := h.valid j (List.getElem?_eq_some_iff.mp hj).1
  obtain rfl : i = i' := Option.some.inj (hj.symm.trans hi')
  have hdj := (h.loops j l ⟨i,hj,hl⟩).depth
  have hdk := (h.loops k l ⟨i,hk,hl⟩).depth
  omega

theorem getElem?_stack_last {i : Nat} (hi : c.stack.getLast? = some i) :
    c.stack[c.depth - 1]? = some i ∧ 0 < c.depth := by
  refine ⟨by rw [← hi, List.getLast?_eq_getElem?]; rfl,?_⟩
  cases hs : c.stack with
  | nil => simp [hs] at hi
  | cons j js => simp [depth, hs]

theorem opens_withoutLoop (h : c.Sound) {i : Nat} {l : Loop} (hi : c.stack.getLast? = some i)
    (body : Listing) {k : Nat} {m : Loop} : ({ c with body }.withoutLoop i l).Opens k m ↔
      c.Opens k m ∧ k + 1 < c.depth := by
  obtain ⟨hlast,hpos⟩ := getElem?_stack_last hi
  have hstack : ({ c with body }.withoutLoop i l).stack = c.stack.dropLast := rfl
  have hloops : ({ c with body }.withoutLoop i l).loops =
      c.loops.modify i fun l => { l with closed := true } := rfl
  have hget : c.stack.dropLast[k]? = if k + 1 < c.depth then c.stack[k]? else none := by
    rw [List.getElem?_dropLast]
    exact if_congr Nat.lt_sub_iff_add_lt rfl rfl
  unfold Opens
  rw [hstack, hloops, hget]
  by_cases hk : k + 1 < c.depth
  · rw [if_pos hk]
    have hmod : ∀ j, c.stack[k]? = some j →
        (c.loops.modify i fun l => { l with closed := true })[j]? = c.loops[j]? := by
      intro j hj
      have hne : i ≠ j := by
        rintro rfl
        have := h.stack_inj hj hlast
        omega
      simp [hne]
    constructor
    · rintro ⟨j,hj,hm⟩
      exact ⟨⟨j,hj,by rw [← hmod j hj, hm]⟩,hk⟩
    · rintro ⟨⟨j,hj,hm⟩,_⟩
      exact ⟨j,hj,by rw [hmod j hj, hm]⟩
  · rw [if_neg hk]
    simp [hk]

theorem getElem?_bindings_withoutLoop (c : Draft) (body : Listing) (i k : Nat) (l : Loop) :
    ({ c with body }.withoutLoop i l).bindings[k]? =
      if (l.vars.map (·.serial)).contains k then none else c.bindings[k]? :=
  getElem?_foldl_erase l.vars c.bindings k

theorem getElem?_loops_withoutLoop (c : Draft) (body : Listing) (i j : Nat) {l : Loop}
    (hl : c.loops[i]? = some l) : ({ c with body }.withoutLoop i l).loops[j]? =
      if j = i then some { l with closed := true } else c.loops[j]? := by
  have hget : ({ c with body }.withoutLoop i l).loops =
      c.loops.modify i fun l => { l with closed := true } := rfl
  rw [hget, List.getElem?_modify]
  by_cases hj : j = i
  · subst hj
    simp [hl]
  · simp [hj, Ne.symm hj]

theorem Sound.withoutLoop (h : c.Sound) {i : Nat} {l : Loop} (hi : c.stack.getLast? = some i)
    (hl : c.loops[i]? = some l) :
    ({ c with body := closedBody c.body l }.withoutLoop i l).Sound := by
  obtain ⟨hlast,hpos⟩ := getElem?_stack_last hi
  have hl : c.Opens (c.depth - 1) l := ⟨i,hlast,hl⟩
  have hsl := h.loops _ l hl
  have hldepth : l.depth = c.depth := by rw [hsl.depth]; omega
  have hstart : l.start < c.body.length := (List.getElem?_eq_some_iff.mp hsl.line).1
  have hopens {k m} := opens_withoutLoop h hi (l := l) (closedBody c.body l) (k := k) (m := m)
  have hdepth : ({ c with body := closedBody c.body l }.withoutLoop i l).depth + 1 = c.depth := by
    have hlen : ({ c with body := closedBody c.body l }.withoutLoop i l).depth = c.depth - 1 := by
      simp [depth, Draft.withoutLoop, Draft.modifyLoop]
    omega
  exact
    { results := fun v e he => by
        have := Cache.lt_of_restore (h.resultsAside _ l hl) he
        omega
      arrays := fun v e he => by
        have := Cache.lt_of_restore (h.arraysAside _ l hl) he
        omega
      resultsAside := fun k m hm => h.resultsAside k m (hopens.mp hm).1
      arraysAside := fun k m hm => h.arraysAside k m (hopens.mp hm).1
      valid := fun k hk => by
        obtain ⟨m,hm⟩ := h.valid k (by omega)
        exact ⟨m,hopens.mpr ⟨hm,by omega⟩⟩
      loops := fun k m hm => by
        obtain ⟨hm,hk⟩ := hopens.mp hm
        have hsm := h.loops k m hm
        have hlt := h.starts k _ m l (by omega) hm hl
        exact ⟨hsm.closed,hsm.depth,(getElem?_closedBody (Nat.le_of_lt hstart) hlt).trans hsm.line⟩
      starts := fun j k m m' hjk hm hm' =>
        h.starts j k m m' hjk (hopens.mp hm).1 (hopens.mp hm').1
      disjoint := fun j k m m' hjk hm hm' =>
        h.disjoint j k m m' hjk (hopens.mp hm).1 (hopens.mp hm').1
      bindings := fun v => by
        simp only [getElem?_bindings_withoutLoop, hopens]
        by_cases hv : v ∈ l.vars.map (·.serial)
        · rw [if_pos (by simpa using hv)]
          refine iff_of_false Bool.false_ne_true ?_
          rintro ⟨k,m,⟨hm,hk⟩,hmem⟩
          obtain ⟨b,hb,rfl⟩ := List.mem_map.mp hv
          obtain ⟨a,ha,hab⟩ := List.mem_map.mp hmem
          exact h.disjoint k _ m l (by omega) hm hl a ha b hb hab
        · rw [if_neg (by simpa using hv), h.bindings]
          constructor
          · rintro ⟨k,m,hm,hmem⟩
            refine ⟨k,m,⟨hm,?_⟩,hmem⟩
            have hlt := opens_lt hm
            refine Nat.lt_of_le_of_ne hlt fun hk => hv ?_
            obtain rfl : k = c.depth - 1 := by omega
            rw [← opens_unique hm hl]
            exact hmem
          · rintro ⟨k,m,⟨hm,_⟩,hmem⟩
            exact ⟨k,m,hm,hmem⟩
      registered := fun k m hm => h.registered k m (hopens.mp hm).1 }

end Draft

open Emit in
/-- Closing the innermost loop does not fail if its opening line is where it was. -/
theorem closeLoop_outcome_of {c : Draft} {i : Nat} {l : Loop} (hi : c.stack.getLast? = some i)
    (hl : c.loops[i]? = some l) (hopen : l.closed = false) (hstart : l.start ≤ c.body.length) :
    (closeLoop i).outcome c =
      (.ok ⟨⟩, { c with body := Draft.closedBody c.body l }.withoutLoop i l) := by
  have hinsert : ∀ b : Listing, l.start ≤ b.length → b.insert l.start l.queued =
      .ok (b.take l.start ++ l.queued ++ b.drop l.start) := by
    intro b hb
    simp [Listing.insert, hb]
  -- Queued lines are inserted, and without any the body is put together as it was.
  have hqueued : ∀ c' : Draft, l.start ≤ c'.body.length →
      (if (!l.queued.isEmpty) = true then
        get >>= fun d => Emit.ofExcept (d.body.insert l.start l.queued) >>= fun body =>
          modify (fun c => { c with body }) >>= fun _ => modify fun c => c.withoutLoop i l
      else modify fun c => c.withoutLoop i l : Emit Unit).outcome c' = (.ok ⟨⟩, { c' with
        body := c'.body.take l.start ++ l.queued ++ c'.body.drop l.start }.withoutLoop i l) := by
    intro c' hc'
    cases hq : l.queued with
    | nil => simp
    | cons q qs =>
      rw [← hq]
      have hne : (!l.queued.isEmpty) = true := by simp [hq]
      rw [if_pos hne, outcome_get_bind, outcome_bind, outcome_ofExcept, hinsert _ hc']
      rfl
  simp only [closeLoop, outcome_get_bind, Draft.loop?, hl, hopen, hi, bne_self_eq_false,
    Bool.false_eq_true, if_false, Draft.closedBody]
  split
  · rw [outcome_modify_bind]
    refine hqueued _ ?_
    simp only [Listing.append, List.length_append]
    omega
  · exact hqueued c hstart

theorem closeLoop_outcome {c : Draft} (h : c.Sound) {i : Nat} {l : Loop}
    (hi : c.stack.getLast? = some i) (hl : c.loops[i]? = some l) : (closeLoop i).outcome c =
      (.ok ⟨⟩, { c with body := Draft.closedBody c.body l }.withoutLoop i l) := by
  have hsound := h.loops _ l ⟨i,(Draft.getElem?_stack_last hi).1,hl⟩
  have hstart : l.start < c.body.length := (List.getElem?_eq_some_iff.mp hsound.line).1
  exact closeLoop_outcome_of hi hl hsound.closed (Nat.le_of_lt hstart)

theorem leaveLoop_outcome {c : Draft} (h : c.Sound) {i : Nat} {l : Loop}
    (hi : c.stack.getLast? = some i) (hl : c.loops[i]? = some l) : (leaveLoop i).outcome c =
      (.ok ⟨⟩, { c with body := Draft.closedBody c.body l }.withoutLoop i l) := by
  have hopen : c.Opens (c.depth - 1) l := ⟨i,(Draft.getElem?_stack_last hi).1,hl⟩
  simp only [leaveLoop, Emit.outcome_get_bind, Draft.loop?, hl, (h.loops _ l hopen).closed,
    Bool.not_false, if_true]
  exact closeLoop_outcome h hi hl

namespace Draft.Moves

variable {o : Options} {T : Nat → Prop} {c c' : Draft}

/-- What happens between opening a loop and closing it is balanced as a whole. -/
theorem loop (h : c.Sound) {vars : List Identity} {length : Nat}
    (hfree : ∀ id ∈ vars, c.bindings[id.serial]? = none)
    (hm : (c.withLoop o vars length).Moves T c') :
    ∃ l, c'.stack.getLast? = some c.loops.length ∧ c'.loops[c.loops.length]? = some l ∧
      c.Moves T ({ c' with body := closedBody c'.body l }.withoutLoop c.loops.length l) := by
  have hstack : c'.stack = c.stack ++ [c.loops.length] := hm.balanced.stack
  have hloops : (c.withLoop o vars length).loops =
      c.loops ++ [c.nextLoop o vars length] := rfl
  obtain ⟨l,hl,hstays,_⟩ := hm.balanced.loops c.loops.length (c.nextLoop o vars length)
    (by rw [hloops]; simp)
  have hlast : c'.stack.getLast? = some c.loops.length := by rw [hstack]; simp
  have hdepth : l.depth = c.depth + 1 := hstays.depth
  refine ⟨l,hlast,hl,hm.sound.withoutLoop hlast hl,?_⟩
  have hmodify := fun i => getElem?_loops_withoutLoop c' (closedBody c'.body l) c.loops.length i hl
  exact
    { stack := by
        have hdrop : ({ c' with body := closedBody c'.body l }.withoutLoop c.loops.length l).stack =
            c'.stack.dropLast := rfl
        rw [hdrop, hstack, List.dropLast_concat]
      running := hm.balanced.running
      bindings := fun k => by
        have hvars : l.vars = vars := hstays.vars
        rw [getElem?_bindings_withoutLoop, hm.balanced.bindings, getElem?_bindings_withLoop, hvars]
        split
        · rename_i hk
          obtain ⟨id,hid,rfl⟩ := List.mem_map.mp (by simpa using hk)
          exact (hfree id hid).symm
        · rfl
      columns := hm.balanced.columns
      preamble := hm.balanced.preamble
      finished := hm.balanced.finished
      opened := hm.balanced.opened
      body := prefix_closedBody ((List.prefix_append _ _).trans hm.balanced.body)
        (Nat.le_of_eq hstays.start.symm)
      loops := fun i m hi => by
        have hlt := (List.getElem?_eq_some_iff.mp hi).1
        obtain ⟨m',hm',hs,he⟩ := hm.balanced.loops i m
          (by rw [hloops, List.getElem?_append_left hlt, hi])
        refine ⟨m',by rw [hmodify, if_neg (by omega), hm'],hs,fun hn => he ?_⟩
        have hstack' : (c.withLoop o vars length).stack = c.stack ++ [c.loops.length] := rfl
        rw [hstack', List.mem_append, List.mem_singleton]
        exact not_or.mpr ⟨hn,by omega⟩
      new := fun i m hle hi => by
        rw [hmodify] at hi
        split at hi
        · cases hi
          rfl
        · exact hm.balanced.new i m (by rw [hloops, List.length_append, List.length_singleton]; omega) hi
      results := fun k hk => by
        -- Off the touched vertices nothing was set aside, and nothing that was cached is that deep.
        have hnow : c'.results[k]? = c.results[k]? := hm.balanced.results k hk
        refine (Cache.getElem?_restore ((hstays.results k hk).trans (by simp [nextLoop])) ?_).trans hnow
        intro e he
        have hle := h.results k e (hnow ▸ he)
        omega
      arrays := fun k hk => by
        have hnow : c'.arrays[k]? = c.arrays[k]? := hm.balanced.arrays k hk
        refine (Cache.getElem?_restore ((hstays.arrays k hk).trans (by simp [nextLoop])) ?_).trans hnow
        intro e he
        have hle := h.arrays k e (hnow ▸ he)
        omega }

end Draft.Moves

namespace Draft

variable {T : Nat → Prop} {c inner : Draft}

theorem sound_of_top (hs : c.stack = []) (hb : ∀ v : Nat, c.bindings[v]? = none)
    (hr : ∀ (v : Nat) (e : Entry), c.results[v]? = some e → e.depth = 0)
    (ha : ∀ (v : Nat) (e : Entry), c.arrays[v]? = some e → e.depth = 0) : c.Sound := by
  have hnone : ∀ {k : Nat} {l : Loop}, ¬ c.Opens k l := by
    rintro k l ⟨i,hi,_⟩
    rw [hs] at hi
    cases hi
  have hdepth : c.depth = 0 := by rw [depth, hs]; rfl
  exact
    { results := fun v e he => hdepth ▸ Nat.le_of_eq (hr v e he)
      arrays := fun v e he => hdepth ▸ Nat.le_of_eq (ha v e he)
      resultsAside := fun k l hl => (hnone hl).elim
      arraysAside := fun k l hl => (hnone hl).elim
      valid := fun k hk => absurd (hdepth ▸ hk) (Nat.not_lt_zero k)
      loops := fun k l hl => (hnone hl).elim
      starts := fun i j l m _ hl => (hnone hl).elim
      disjoint := fun i j l m _ hl => (hnone hl).elim
      bindings := fun v => by
        rw [hb]
        refine iff_of_false Bool.false_ne_true ?_
        rintro ⟨k,l,hl,_⟩
        exact hnone hl
      registered := fun k l hl => (hnone hl).elim }

theorem sound_atTop (c : Draft) : c.atTop.Sound :=
  sound_of_top rfl (fun _ => Std.TreeMap.getElem?_emptyc)
    (fun _ _ he => Nat.lt_one_iff.mp (Cache.lt_of_below he).2)
    fun _ _ he => Nat.lt_one_iff.mp (Cache.lt_of_below he).2

theorem sound_start (n : Nat) : Draft.Sound { nextSerial := n } :=
  sound_of_top rfl (fun _ => Std.TreeMap.getElem?_emptyc)
    (fun _ _ he => by simp at he) fun _ _ he => by simp at he

/-- A balanced step at top level does not touch the loops that were open outside. -/
theorem getElem?_backTo (hb : c.atTop.Balanced T inner) {i : Nat} {l : Loop}
    (hl : c.loops[i]? = some l) : (inner.backTo c).loops[i]? = some l := by
  obtain ⟨l',hl',_,he⟩ := hb.loops i l hl
  exact he List.not_mem_nil ▸ hl'

theorem opens_backTo (h : c.Sound) (hb : c.atTop.Balanced T inner) {k : Nat} {l : Loop}
    (hl : (inner.backTo c).Opens k l) : c.Opens k l := by
  obtain ⟨i,hi,hl⟩ := hl
  obtain ⟨l',j,hj,hl'⟩ := h.valid k (List.getElem?_eq_some_iff.mp hi).1
  obtain rfl : i = j := Option.some.inj (hi.symm.trans hj)
  obtain rfl : l = l' := Option.some.inj (hl.symm.trans (getElem?_backTo hb hl'))
  exact ⟨i,hj,hl'⟩

/-- A balanced step at top level leaves nothing behind but names and loops that are closed. -/
theorem Moves.backTo (h : c.Sound) (hm : c.atTop.Moves T inner) :
    c.Moves T (inner.backTo c) := by
  have hb := hm.balanced
  refine of_bounded h ?_ ⟨h.results,h.arrays,fun k l hl => h.resultsAside k l (opens_backTo h hb hl),
    fun k l hl => h.arraysAside k l (opens_backTo h hb hl)⟩
  exact
    { Balanced.refl (T := T) c with
      running := hb.running
      columns := hb.columns
      preamble := hb.preamble
      finished := hb.finished
      opened := hb.opened
      loops := fun i l hl => ⟨l,getElem?_backTo hb hl,.refl l,fun _ => rfl⟩
      new := hb.new }

theorem follows_running (c : Draft) (ids : List Identity) : c.Follows T { c with running := ids } where
  stack := rfl
  bindings := fun _ => rfl
  columns := rfl
  body := List.prefix_rfl
  loops := fun _ l hl => ⟨l,hl,.refl l⟩

/-- Which nodes are being lowered has no say in whether a draft is sound. -/
theorem Sound.running (h : c.Sound) (ids : List Identity) : Sound { c with running := ids } :=
  h.follows (follows_running (T := fun _ => False) c ids) (h.toBounded.of_eq rfl rfl rfl rfl)

/-- A balanced step leaves the node on top that was entered before it, so that leaving takes off
that node and no other. -/
theorem Moves.left {id : Identity} (hm : (c.entered id).Moves T c') : c.Moves T c'.left where
  sound := hm.sound.running _
  balanced :=
    { hm.balanced with
      running := by
        rw [Draft.left, hm.balanced.running, entered, List.dropLast_concat] }

theorem results_queueAt (c : Draft) (d : Nat) (ls : List Line) : (c.queueAt d ls).results = c.results := by
  rw [Draft.queueAt]
  split <;> rfl

theorem arrays_queueAt (c : Draft) (d : Nat) (ls : List Line) : (c.queueAt d ls).arrays = c.arrays := by
  rw [Draft.queueAt]
  split <;> rfl

theorem Moves.adopt (h : c.Sound) (hm : c.atTop.Moves T inner) :
    c.Moves T ((inner.backTo c).adopt inner) := by
  have hback := Moves.backTo h hm
  refine hback.trans ?_
  have hqueue := Moves.queueAt (T := T) hback.sound 0 inner.body
  have hresults : ((inner.backTo c).queueAt 0 inner.body).results = c.results :=
    results_queueAt _ _ _
  have harrays : ((inner.backTo c).queueAt 0 inner.body).arrays = c.arrays := arrays_queueAt _ _ _
  refine hqueue.trans (of_bounded hqueue.sound ?_ ?_)
  · -- Off the touched vertices the top level knows no more than what was taken along.
    exact
      { Balanced.refl (T := T) _ with
        results := fun k hk => by
          rw [hresults]
          exact Cache.getElem?_orElse_below (hm.balanced.results k hk)
        arrays := fun k hk => by
          rw [harrays]
          exact Cache.getElem?_orElse_below (hm.balanced.arrays k hk) }
  · -- What comes in is bound outside of all loops.
    have htop : inner.depth = 0 := hm.balanced.depth_eq
    have hempty : ∀ {d n : Nat}, d ≤ inner.depth → d ≤ n := fun hd =>
      Nat.le_trans (htop ▸ hd) (Nat.zero_le _)
    exact ⟨fun v e he => Cache.le_of_orElse (fun v e he => hqueue.sound.results v e (hresults ▸ he))
        (fun v e he => hempty (hm.sound.results v e he)) he,
      fun v e he => Cache.le_of_orElse (fun v e he => hqueue.sound.arrays v e (harrays ▸ he))
        (fun v e he => hempty (hm.sound.arrays v e he)) he,
      hqueue.sound.resultsAside,hqueue.sound.arraysAside⟩

end Draft

end FitCode
