import FitCode.Graph.Reach
import Mathlib.Data.List.Perm.Subperm
import Mathlib.Data.List.TakeWhile

/-! # Dependence along paths

The search for a vertex answers whether a path leads there. A search that stops at reducers follows
paths on which no vertex after the first and before the last is one.
-/
namespace FitCode

/-- Where the edges of a vertex lead. -/
def Kind.targets (k : Kind) : List Nat := k.parts?.getD [] ++ k.members?.getD []

namespace Graph

variable {g : Graph} {stop : Bool} {start target v w : Nat}

/-- The operands of a node, the members of a collection. -/
def links (g : Graph) (v : Nat) : List Nat := (g.operands? v).getD (((g.kind v).members?).getD [])

/-- Whether a search goes on behind a vertex. -/
def isOpen (g : Graph) (stop : Bool) (v : Nat) : Prop := ¬ (stop = true ∧ (g.kind v).isReducer = true)

/-- There is a path, and if it has to stop at reducers, all vertices inside of it are open. -/
inductive Leads (g : Graph) (stop : Bool) : Nat → Nat → Prop
  | refl (v : Nat) : Leads g stop v v
  | step {v w t : Nat} (hw : w ∈ g.links v) (ho : w = t ∨ g.isOpen stop w) (h : Leads g stop w t) :
      Leads g stop v t

theorem Leads.trans {t : Nat} (h : g.Leads stop v w) (ho : w = t ∨ g.isOpen stop w)
    (h' : g.Leads stop w t) : g.Leads stop v t := by
  induction h with
  | refl v => exact h'
  | @step v u w hu hopen h ih =>
    refine .step hu ?_ (ih ho h')
    rcases hopen with rfl | hopen
    · exact ho
    · exact .inr hopen

theorem isOpen_false (g : Graph) (v : Nat) : g.isOpen false v := fun h => Bool.false_ne_true h.1

theorem Leads.mono (h : g.Leads stop v w) : g.Leads false v w := by
  induction h with
  | refl v => exact .refl v
  | step hw _ _ ih => exact .step hw (.inr (g.isOpen_false _)) ih

/-- A path that the search started from `start` follows: it goes on behind `start` in any case. -/
inductive Walk (g : Graph) (start : Nat) (stop : Bool) : Nat → Nat → Prop
  | refl (v : Nat) : Walk g start stop v v
  | step {v w t : Nat} (ho : v = start ∨ g.isOpen stop v) (hw : w ∈ g.links v)
      (h : Walk g start stop w t) : Walk g start stop v t

theorem Walk.leads {t : Nat} (h : g.Walk start stop v t) :
    g.Leads stop v t ∨ g.Leads stop start t := by
  induction h with
  | refl v => exact .inl (.refl v)
  | @step v w t ho hw h ih =>
    rcases ih with ih | ih
    · cases h with
      | refl => exact .inl (.step hw (.inl rfl) ih)
      | step hopen _ _ =>
        rcases hopen with rfl | hopen
        · exact .inr ih
        · exact .inl (.step hw (.inr hopen) ih)
    · exact .inr ih

theorem Leads.walk {t : Nat} (h : g.Leads stop v t) (hv : v = t ∨ v = start ∨ g.isOpen stop v) :
    g.Walk start stop v t := by
  induction h with
  | refl v => exact .refl v
  | @step v w t hw ho h ih =>
    rcases hv with rfl | hv
    · exact .refl v
    · refine .step hv hw (ih ?_)
      rcases ho with rfl | ho
      · exact .inl rfl
      · exact .inr (.inr ho)

theorem walk_iff {t : Nat} : g.Walk start stop start t ↔ g.Leads stop start t :=
  ⟨fun h => h.leads.elim id id,fun h => h.walk (.inr (.inl rfl))⟩

theorem lt_size_of_kind (h : g.kind v ≠ .identity) : v < g.size := by
  refine Nat.lt_of_not_le fun hv => h ?_
  have hnone : g.vertices[v]? = none := Array.getElem?_eq_none hv
  simp [kind, vertex, hnone]

/-- What a search looks at first: its top vertex not seen before. -/
theorem exists_of_dropWhile {seen : Std.TreeSet Nat} {stack rest : List Nat}
    (h : stack.dropWhile seen.contains = v :: rest) :
    v ∉ seen ∧ v ∈ stack ∧ (∀ u ∈ rest, u ∈ stack) ∧ ∀ u ∈ stack, u ∈ seen ∨ u = v ∨ u ∈ rest := by
  have hsplit := List.takeWhile_append_dropWhile (p := seen.contains) (l := stack)
  rw [h] at hsplit
  have hhead : seen.contains v = false := by
    have := List.head?_dropWhile_not seen.contains stack
    simpa [h] using this
  refine ⟨?_,?_,fun u hu => ?_,fun u hu => ?_⟩
  · rw [← Std.TreeSet.contains_iff_mem, hhead]
    exact Bool.false_ne_true
  · rw [← hsplit]
    simp
  · rw [← hsplit]
    simp [hu]
  · rw [← hsplit, List.mem_append, List.mem_cons] at hu
    rcases hu with hu | hu
    · exact .inl (Std.TreeSet.contains_iff_mem.mp (List.mem_takeWhile_imp hu))
    · exact .inr hu

theorem search_true {steps : Nat} {seen : Std.TreeSet Nat} {stack : List Nat}
    (h : g.search start target stop steps seen stack = .ok true) :
    ∃ u ∈ stack, g.Walk start stop u target := by
  induction steps generalizing seen stack with
  | zero => cases h
  | succ steps ih =>
    rw [search] at h
    cases hd : stack.dropWhile seen.contains with
    | nil => rw [hd] at h; cases h
    | cons v rest =>
      obtain ⟨_,hv,hrest,_⟩ := exists_of_dropWhile hd
      rw [hd] at h
      dsimp only at h
      split at h
      · cases h
      · rename_i k hk
        split at h
        · rename_i heq
          exact ⟨v,hv,(beq_iff_eq.mp heq) ▸ .refl v⟩
        · split at h
          · obtain ⟨u,hu,hw⟩ := ih h
            exact ⟨u,hrest u hu,hw⟩
          · rename_i hopen
            cases ho : g.operands? v with
            | none => rw [ho] at h; cases h
            | some vs =>
              rw [ho] at h
              obtain ⟨u,hu,hw⟩ := ih h
              rcases List.mem_append.mp hu with hu | hu
              · refine ⟨v,hv,.step ?_ ?_ hw⟩
                · by_cases hs : v = start
                  · exact .inl hs
                  · exact .inr fun hr => hopen (by simp [hr.1, hr.2, hs])
                · simpa [links, ho] using hu
              · exact ⟨u,hrest u hu,hw⟩

/-- What a search knows of the vertices it has seen. -/
structure Explored (g : Graph) (start target : Nat) (stop : Bool) (seen : Std.TreeSet Nat)
    (stack : List Nat) : Prop where
  lt_size : ∀ u ∈ seen, u < g.size
  ne_target : ∀ u ∈ seen, u ≠ target
  links : ∀ u ∈ seen, u = start ∨ g.isOpen stop u → ∀ w ∈ g.links u, w ∈ seen ∨ w ∈ stack

/-- Nothing that is left to look at leads to the target if everything has been seen. -/
theorem Explored.not_walk {seen : Std.TreeSet Nat} {stack : List Nat}
    (h : g.Explored start target stop seen stack) (hstack : ∀ u ∈ stack, u ∈ seen)
    (hv : v ∈ seen ∨ v ∈ stack) : ¬ g.Walk start stop v target := by
  intro hw
  replace hv : v ∈ seen := hv.elim id (hstack v)
  induction hw with
  | refl v => exact h.ne_target v hv rfl
  | step ho hw _ ih => exact ih h ((h.links _ hv ho _ hw).elim id (hstack _))

theorem size_le_of_lt {seen : Std.TreeSet Nat} {n : Nat} (h : ∀ u ∈ seen, u < n) : seen.size ≤ n := by
  have hnodup : seen.toList.Nodup :=
    (Std.TreeSet.distinct_toList (t := seen)).imp fun hab heq => hab (by rw [heq]; exact Std.ReflCmp.compare_self)
  have hsub : seen.toList ⊆ List.range n := fun u hu =>
    List.mem_range.mpr (h u (Std.TreeSet.mem_toList.mp hu))
  have hle := (List.subperm_of_subset hnodup hsub).length_le
  simpa [Std.TreeSet.length_toList] using hle

theorem Explored.insert {seen : Std.TreeSet Nat} {stack rest : List Nat}
    (h : g.Explored start target stop seen stack) (more : List Nat)
    (hd : stack.dropWhile seen.contains = v :: rest) (hlt : v < g.size) (hne : v ≠ target)
    (hmore : v = start ∨ g.isOpen stop v → ∀ w ∈ g.links v, w ∈ more) :
    g.Explored start target stop (seen.insert v) (more ++ rest) := by
  obtain ⟨_,_,_,hall⟩ := exists_of_dropWhile hd
  refine ⟨fun u hu => ?_,fun u hu => ?_,fun u hu ho w hw => ?_⟩
  · rcases Std.TreeSet.mem_insert.mp hu with hu | hu
    · exact (compare_eq_iff_eq.mp hu) ▸ hlt
    · exact h.lt_size u hu
  · rcases Std.TreeSet.mem_insert.mp hu with hu | hu
    · exact (compare_eq_iff_eq.mp hu) ▸ hne
    · exact h.ne_target u hu
  · rcases Std.TreeSet.mem_insert.mp hu with hu | hu
    · cases compare_eq_iff_eq.mp hu
      exact .inr (List.mem_append_left _ (hmore ho w hw))
    · rcases h.links u hu ho w hw with hs | hs
      · exact .inl (Std.TreeSet.mem_insert.mpr (.inr hs))
      · rcases hall w hs with hs | rfl | hs
        · exact .inl (Std.TreeSet.mem_insert.mpr (.inr hs))
        · exact .inl Std.TreeSet.mem_insert_self
        · exact .inr (List.mem_append_right _ hs)

theorem search_false {steps : Nat} {seen : Std.TreeSet Nat} {stack : List Nat}
    (hseen : g.Explored start target stop seen stack) (hsteps : g.size < steps + seen.size)
    (h : g.search start target stop steps seen stack = .ok false) (hv : v ∈ seen ∨ v ∈ stack) :
    ¬ g.Walk start stop v target := by
  induction steps generalizing seen stack with
  | zero =>
    have := size_le_of_lt hseen.lt_size
    omega
  | succ steps ih =>
    rw [search] at h
    cases hd : stack.dropWhile seen.contains with
    | nil =>
      refine hseen.not_walk (fun u hu => ?_) hv
      exact Std.TreeSet.contains_iff_mem.mp (List.dropWhile_eq_nil_iff.mp hd u hu)
    | cons u rest =>
      obtain ⟨hu,_,_,hall⟩ := exists_of_dropWhile hd
      rw [hd] at h
      dsimp only at h
      have hcount : g.size < steps + (seen.insert u).size := by
        rw [Std.TreeSet.size_insert, if_neg (by simpa using hu)]
        omega
      have hv' : ∀ more, v ∈ seen.insert u ∨ v ∈ more ++ rest := by
        intro more
        rcases hv with hv | hv
        · exact .inl (Std.TreeSet.mem_insert.mpr (.inr hv))
        · rcases hall v hv with hv | rfl | hv
          · exact .inl (Std.TreeSet.mem_insert.mpr (.inr hv))
          · exact .inl Std.TreeSet.mem_insert_self
          · exact .inr (List.mem_append_right _ hv)
      split at h
      · cases h
      · rename_i k hk
        have hlt : u < g.size := lt_size_of_kind (by simpa using hk)
        split at h
        · cases h
        · rename_i hne
          have hne : u ≠ target := by simpa using hne
          split at h
          · rename_i hclosed
            refine ih (hseen.insert [] hd hlt hne fun ho => ?_) hcount h (hv' [])
            simp only [Bool.and_eq_true, bne_iff_ne] at hclosed
            rcases ho with rfl | ho
            · exact absurd rfl hclosed.2
            · exact absurd hclosed.1 ho
          · cases ho : g.operands? u with
            | none => rw [ho] at h; cases h
            | some vs =>
              rw [ho] at h
              refine ih (hseen.insert vs.reverse hd hlt hne fun _ w hw => ?_) hcount h (hv' _)
              simpa [links, ho] using hw

theorem nodeReaches_eq {b : Bool} (h : g.nodeReaches v target stop = .ok b) :
    b = true ↔ g.Leads stop v target := by
  rw [nodeReaches] at h
  rw [← walk_iff]
  cases b with
  | true =>
    obtain ⟨u,hu,hw⟩ := search_true h
    rw [List.mem_singleton] at hu
    exact iff_of_true rfl (hu ▸ hw)
  | false =>
    have hempty : g.Explored v target stop ∅ [v] :=
      ⟨fun u hu => absurd hu (by simp),fun u hu => absurd hu (by simp),
        fun u hu => absurd hu (by simp)⟩
    have hnot := search_false hempty (by simp) h (v := v) (.inr (by simp))
    exact iff_of_false Bool.false_ne_true hnot

theorem leads_iff_of_ne (hne : v ≠ target) : g.Leads stop v target ↔
    ∃ w ∈ g.links v, (w = target ∨ g.isOpen stop w) ∧ g.Leads stop w target := by
  constructor
  · intro h
    cases h with
    | refl => exact absurd rfl hne
    | step hw ho h => exact ⟨_,hw,ho,h⟩
  · rintro ⟨w,hw,ho,h⟩
    exact .step hw ho h

/-- One of the members is the target or an open vertex that depends on it. A search that stops at
reducers fails at a collection among the members; any other one needs members that are none. -/
theorem anyReaches_eq {inside : List Nat → Except Fault Bool} {ms : List Nat} {b : Bool}
    (hms : stop = true ∨ ∀ m ∈ ms, (g.kind m).members? = none)
    (h : g.anyReaches target stop inside ms = .ok b) :
    b = true ↔ ∃ m ∈ ms, (m = target ∨ g.isOpen stop m) ∧ g.Leads stop m target := by
  induction ms with
  | nil =>
    cases h
    simp
  | cons m ms ih =>
    have hms' : stop = true ∨ ∀ m ∈ ms, (g.kind m).members? = none :=
      hms.imp id fun hms m' hm' => hms m' (by simp [hm'])
    rw [anyReaches] at h
    simp only [List.exists_mem_cons_iff]
    split at h
    · cases h
    · by_cases hm : m = target
      · subst hm
        simp only [BEq.rfl, if_true, pure, Except.pure, Except.ok.injEq] at h
        exact iff_of_true h.symm (.inl ⟨.inl rfl,.refl m⟩)
      · simp only [beq_iff_eq, hm, if_false, false_or] at h ⊢
        split at h
        · rename_i inner hk
          rcases hms with rfl | hms
          · cases h
          · have hnone := hms m (by simp)
            rw [hk] at hnone
            cases hnone
        · cases hr : stop && (g.kind m).isReducer with
          | true =>
            have hclosed : ¬ g.isOpen stop m := fun ho => ho (by simpa using hr)
            simp only [hr, if_true, bind, Except.bind, Bool.false_eq_true, if_false] at h
            rw [ih hms' h]
            simp [hclosed]
          | false =>
            have hopen : g.isOpen stop m := fun ho => by simp [ho.1, ho.2] at hr
            simp only [hr, Bool.false_eq_true, if_false] at h
            cases hn : g.nodeReaches m target stop with
            | error f => simp [hn, bind, Except.bind] at h
            | ok c =>
              have hc := nodeReaches_eq hn
              cases c with
              | true =>
                simp only [hn, bind, Except.bind, pure, Except.pure, if_true, Except.ok.injEq] at h
                exact iff_of_true h.symm (.inl ⟨hopen,hc.mp rfl⟩)
              | false =>
                have hno : ¬ g.Leads stop m target := fun hl => Bool.false_ne_true (hc.mpr hl)
                simp only [hn, bind, Except.bind, Bool.false_eq_true, if_false] at h
                rw [ih hms' h]
                simp [hno]

/-- A vertex depends on a node without looking into reducers if a path leads there that passes
through none. -/
theorem reaches_eq {b : Bool} (ht : (g.kind target).members? = none)
    (h : g.reaches v target true = .ok b) : b = true ↔ g.Leads true v target := by
  rw [reaches] at h
  split at h
  · cases h
  · rename_i ms hk
    have hne : v ≠ target := by
      rintro rfl
      simp [hk, Kind.members?] at ht
    have hlinks : g.links v = ms := by simp [links, operands?, hk, Kind.parts?, Kind.members?]
    rw [leads_iff_of_ne hne, hlinks]
    exact anyReaches_eq (.inl rfl) h
  · exact nodeReaches_eq h

end Graph

end FitCode
