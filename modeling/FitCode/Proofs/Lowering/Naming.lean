import FitCode.Proofs.Lowering.History
import Mathlib.Data.List.Perm.Subperm

/-! # Names that are bound

A fresh number is found, since there are more candidates than names that are taken. What binding a
name does to a draft is said once, by `Binds`: where its statement goes and which names are taken
afterwards.
-/
namespace FitCode

open Emit

theorem numbered_injective (stem : String) : Function.Injective (numbered stem) := by
  intro i j h
  have ht : toString i = toString j := by
    have hl := congrArg String.toList h
    simp only [numbered, String.toList_append, List.append_cancel_left_eq] at hl
    exact String.toList_inj.mp hl
  exact Nat.repr_injective (by simpa [Nat.toString_eq_repr] using ht)

theorem numbered_ne_empty (stem : String) (j : Nat) : numbered stem j ≠ "" := by
  intro h
  have hlist := congrArg String.toList h
  rw [numbered, String.toList_append, Text.toList_toString_nat] at hlist
  exact Nat.toDigits_ne_nil (List.append_eq_nil_iff.mp hlist).2

section

variable {stem : String} {taken : List String}

theorem firstFree_cases (steps k : Nat) : numbered stem (firstFree stem taken steps k) ∉ taken ∨
    ∀ j < steps, numbered stem (k + j) ∈ taken := by
  induction steps generalizing k with
  | zero => exact .inr fun j hj => absurd hj (Nat.not_lt_zero j)
  | succ steps ih =>
    rw [firstFree]
    by_cases hk : numbered stem k ∈ taken
    · rw [if_pos (by simpa using hk)]
      refine (ih (k + 1)).imp_right fun hall j hj => ?_
      cases j with
      | zero => exact hk
      | succ j =>
        have hmem := hall j (by omega)
        rwa [show k + 1 + j = k + (j + 1) by omega] at hmem
    · rw [if_neg (by simpa using hk)]
      exact .inl hk

theorem firstFree_free (k : Nat) :
    numbered stem (firstFree stem taken (taken.length + 1) k) ∉ taken := by
  rcases firstFree_cases (taken.length + 1) k with h | (hall : ∀ j < taken.length + 1, numbered stem (k + j) ∈ taken)
  · exact h
  · exfalso
    let names := (List.range (taken.length + 1)).map fun j => numbered stem (k + j)
    have hnodup : names.Nodup := by
      refine List.Nodup.map (fun i j h => ?_) List.nodup_range
      exact Nat.add_left_cancel (numbered_injective stem h)
    have hsub : names ⊆ taken := by
      intro n hn
      obtain ⟨j,hj,rfl⟩ := List.mem_map.mp hn
      exact hall j (List.mem_range.mp hj)
    have hle := (hnodup.subperm hsub).length_le
    rw [List.length_map, List.length_range] at hle
    omega

end

namespace Draft

variable {c c₀ c' : Draft} {e : Event}

/-- The draft with lines written or staged as the event says. -/
inductive Adds (c : Draft) : Event → Draft → Prop
  | written {c' : Draft} (ls : List Line) (hb : c'.body = c.body ++ ls) (hs : c'.stack = c.stack)
    (hl : c'.loops = c.loops) : Adds c (.written ls) c'
  | staged {c' : Draft} {i : Nat} (hi : i ∈ c.stack) (ls : List Line) (hb : c'.body = c.body)
    (hs : c'.stack = c.stack)
    (hl : c'.loops = c.loops.modify i fun l => { l with queued := l.queued ++ ls }) :
    Adds c (.staged i ls) c'

/-- What binding a name by a statement does. A name that is not given consists of a stem and a
number. -/
structure Binds (o : Options) (c : Draft) (given : Option String) (name statement : String)
    (c' : Draft) : Prop where
  adds : c.Adds (c.placed (c'.bindingDepth name) statement) c'
  taken : ∀ n, n ∈ c'.taken ↔ n = name ∨ n ∈ c.taken
  loopCount : c'.loopCount = c.loopCount
  free : name ∉ c.taken
  named : match Setting.explicitName given with
    | some n => name = n
    | none => ∃ k, name = numbered o.tempStem k ∨ name = numbered o.arrayStem k

theorem taken_introduce (c : Draft) (o : Options) (name statement : String) (d : Nat) :
    (c.introduce o name statement d).taken = name :: c.taken ∧
      (c.introduce o name statement d).loopCount = c.loopCount := by
  simp only [introduce, queueAt]
  generalize (if o.hoist = true then d else c.depth) = D
  split
  · exact ⟨rfl,rfl⟩
  · split <;> exact ⟨rfl,rfl⟩

theorem adds_introduce (c : Draft) (o : Options) (name statement : String) {d : Nat} (hd : d ≤ c.depth) :
    c.Adds (c.placed ((c.introduce o name statement d).bindingDepth name) statement)
      (c.introduce o name statement d) := by
  rw [bindingDepth_introduce, placed]
  have hle : (if o.hoist then d else c.depth) ≤ c.depth := by
    split
    · exact hd
    · exact Nat.le_refl _
  simp only [introduce]
  generalize (if o.hoist = true then d else c.depth) = D at hle
  by_cases hD : D = c.depth
  · have hget : c.stack[D]? = none := List.getElem?_eq_none (Nat.le_of_eq hD.symm)
    rw [hget]
    dsimp only
    split
    · exact .written _ rfl rfl rfl
    · rename_i hne
      exact absurd hD hne
  · have hlt : D < c.depth := Nat.lt_of_le_of_ne hle hD
    have hget := List.getElem?_eq_getElem hlt
    rw [hget]
    dsimp only
    split
    · rename_i heq
      exact absurd heq hD
    · rw [queueAt, hget]
      exact .staged (List.getElem_mem hlt) _ rfl rfl rfl

theorem Adds.of_eq (h : c₀.Adds e c') (hb : c₀.body = c.body) (hs : c₀.stack = c.stack)
    (hl : c₀.loops = c.loops) : c.Adds e c' := by
  cases h with
  | written ls hb' hs' hl' => exact .written ls (hb ▸ hb') (hs ▸ hs') (hl ▸ hl')
  | staged hi ls hb' hs' hl' => exact .staged (hs ▸ hi) ls (hb ▸ hb') (hs ▸ hs') (hl ▸ hl')

theorem Adds.congr {c'' : Draft} (h : c.Adds e c') (hb : c''.body = c'.body) (hs : c''.stack = c'.stack)
    (hl : c''.loops = c'.loops) : c.Adds e c'' := by
  cases h with
  | written ls hb' hs' hl' => exact .written ls (hb.trans hb') (hs.trans hs') (hl.trans hl')
  | staged hi ls hb' hs' hl' => exact .staged hi ls (hb.trans hb') (hs.trans hs') (hl.trans hl')

theorem placed_of_eq (hs : c₀.stack = c.stack) (d : Nat) (statement : String) :
    c₀.placed d statement = c.placed d statement := by
  rw [placed, placed, hs]

/-- Binding a name that is not taken, after notes about names only. -/
theorem binds_introduce {o : Options} {given : Option String} {name statement : String} {d : Nat}
    (hb : c₀.body = c.body) (hs : c₀.stack = c.stack) (hl : c₀.loops = c.loops)
    (hc : c₀.loopCount = c.loopCount) (ht : ∀ n, n ∈ c₀.taken → n = name ∨ n ∈ c.taken)
    (ht' : ∀ n ∈ c.taken, n ∈ c₀.taken) (hd : d ≤ c.depth) (hfree : name ∉ c.taken)
    (hm : match Setting.explicitName given with
      | some n => name = n
      | none => ∃ k, name = numbered o.tempStem k ∨ name = numbered o.arrayStem k) :
    c.Binds o given name statement (c₀.introduce o name statement d) where
  adds := by
    have hdepth : d ≤ c₀.depth := by rw [depth, hs]; exact hd
    have h := (adds_introduce c₀ o name statement hdepth).of_eq hb hs hl
    rwa [placed_of_eq hs] at h
  taken := fun n => by
    rw [(taken_introduce c₀ o name statement d).1, List.mem_cons]
    constructor
    · rintro (h | h)
      · exact .inl h
      · exact ht n h
    · exact fun h => h.imp_right (ht' n)
  loopCount := by rw [(taken_introduce c₀ o name statement d).2, hc]
  free := hfree
  named := hm

theorem Binds.of_eq {o : Options} {given : Option String} {name statement : String} {c'' : Draft}
    (h : c.Binds o given name statement c') (hb : c''.body = c'.body) (hs : c''.stack = c'.stack)
    (hl : c''.loops = c'.loops) (ht : c''.taken = c'.taken) (hc : c''.loopCount = c'.loopCount)
    (hd : c''.bindingDepths = c'.bindingDepths) : c.Binds o given name statement c'' where
  adds := by
    have hdepth : c''.bindingDepth name = c'.bindingDepth name := by rw [bindingDepth, hd]; rfl
    rw [hdepth]
    exact h.adds.congr hb hs hl
  taken := fun n => by rw [ht, h.taken]
  loopCount := hc.trans h.loopCount
  free := h.free
  named := h.named

end Draft

namespace Setting

variable {s : Setting} {c c' : Draft}

theorem not_mem_freshTemp (c : Draft) (o : Options) : (c.freshTemp o).1 ∉ c.taken := firstFree_free _

theorem not_mem_freshArray (c : Draft) (o : Options) : (c.freshArray o).1 ∉ c.taken := firstFree_free _

theorem binds_bindTemp {node : Datum} {expr name : String} {given : Option String}
    (h : (s.bindTemp node expr given).Gives c name c') :
    c.Binds s.options given name (name ++ " = " ++ expr) c' := by
  unfold bindTemp at h
  rw [gives_get_bind] at h
  cases hname : explicitName given with
  | none =>
    rw [hname] at h
    simp only [gives_set_bind, gives_pure] at h
    obtain ⟨rfl,rfl⟩ := h
    refine Draft.binds_introduce rfl rfl rfl rfl ?_ ?_ (Draft.depthOf_le _ _) (not_mem_freshTemp _ _) ?_
    · exact fun n hn => List.mem_cons.mp hn
    · exact fun n hn => List.mem_cons_of_mem _ hn
    · rw [hname]
      exact ⟨_,.inl rfl⟩
  | some name' =>
    rw [hname] at h
    by_cases htaken : c.taken.contains name' = true
    · simp only [htaken, if_true, gives_bind] at h
      obtain ⟨_,_,_,⟨_,_,hthrow,_⟩⟩ := h
      exact absurd hthrow not_gives_throw
    · simp only [htaken, Bool.false_eq_true, if_false, gives_set_bind, gives_pure] at h
      obtain ⟨rfl,rfl⟩ := h
      refine Draft.binds_introduce rfl rfl rfl rfl (fun _ => .inr) (fun _ hn => hn) (c.depthOf_le expr) ?_ ?_
      · simpa using htaken
      · rw [hname]

theorem binds_introduceArray {id : Identity} {texts : List String} {name : String}
    {given : Option String} (h : (s.introduceArray id texts given).Gives c name c') :
    c.Binds s.options given name (name ++ " = " ++ arrayCode texts) c' := by
  unfold introduceArray at h
  rw [gives_get_bind] at h
  cases hname : explicitName given with
  | none =>
    rw [hname] at h
    simp only [gives_pure_bind, gives_set_bind, gives_pure] at h
    obtain ⟨rfl,rfl⟩ := h
    have hb : c.Binds s.options given (c.freshArray s.options).1
        ((c.freshArray s.options).1 ++ " = " ++ arrayCode texts)
        ((c.freshArray s.options).2.introduce s.options (c.freshArray s.options).1
          ((c.freshArray s.options).1 ++ " = " ++ arrayCode texts)
          ((c.freshArray s.options).2.depthOf (arrayCode texts))) :=
      Draft.binds_introduce rfl rfl rfl rfl (fun _ => .inr) (fun _ hn => hn) (Draft.depthOf_le _ _)
        (not_mem_freshArray _ _) (by rw [hname]; exact ⟨_,.inr rfl⟩)
    exact hb.of_eq rfl rfl rfl rfl rfl rfl
  | some name' =>
    rw [hname] at h
    by_cases htaken : c.taken.contains name' = true
    · simp only [htaken, if_true, gives_bind] at h
      obtain ⟨_,_,hthrow,_⟩ := h
      exact absurd hthrow not_gives_throw
    · simp only [htaken, Bool.false_eq_true, if_false, gives_pure_bind, gives_set_bind, gives_pure] at h
      obtain ⟨rfl,rfl⟩ := h
      have hb : c.Binds s.options given name (name ++ " = " ++ arrayCode texts)
          (c.introduce s.options name (name ++ " = " ++ arrayCode texts) (c.depthOf (arrayCode texts))) := by
        refine Draft.binds_introduce rfl rfl rfl rfl (fun _ => .inr) (fun _ hn => hn) (c.depthOf_le _) ?_ ?_
        · simpa using htaken
        · rw [hname]
      exact hb.of_eq rfl rfl rfl rfl rfl rfl

end Setting

end FitCode
