import FitCode.Lowering.Draft
import Mathlib.Data.List.Basic

/-! # Entries of a cache

A cache keeps its texts and their depths in two tables. Looking an entry up sees both at once, and
everything else is said of the entries.
-/
namespace FitCode

namespace Cache

theorem contains_eq_isSome (m : Cache) (k : Nat) : m.contains k = m[k]?.isSome := by
  have h := m.same k
  rw [contains, Std.TreeMap.contains_eq_isSome_getElem?] at *
  rw [Std.TreeMap.contains_eq_isSome_getElem?] at h
  change _ = (m.find? k).isSome
  rw [find?]
  cases ht : m.texts[k]? with
  | none => rfl
  | some t =>
    rw [ht] at h
    simpa using h

theorem getElem?_eq_none {m : Cache} {k : Nat} (h : m.contains k = false) : m[k]? = none := by
  rw [contains_eq_isSome] at h
  exact Option.isSome_eq_false_iff.mp h |> Option.isNone_iff_eq_none.mp

@[simp] theorem getElem?_empty (k : Nat) : (∅ : Cache)[k]? = none := by
  change (∅ : Cache).find? k = none
  rw [find?, show (∅ : Cache).texts = ∅ from rfl, Std.TreeMap.getElem?_emptyc]
  rfl

theorem getElem?_insert (m : Cache) (k : Nat) (e : Entry) (k' : Nat) :
    (m.insert k e)[k']? = if k = k' then some e else m[k']? := by
  change (m.insert k e).find? k' = if k = k' then some e else m.find? k'
  rw [find?, insert, Std.TreeMap.getElem?_insert, Std.TreeMap.getElem?_insert]
  by_cases hk : k = k'
  · subst hk
    simp
  · rw [if_neg (by simpa using hk), if_neg (by simpa using hk), if_neg hk, find?]

theorem getElem?_insert_self (m : Cache) (k : Nat) (e : Entry) : (m.insert k e)[k]? = some e := by
  rw [getElem?_insert, if_pos rfl]

theorem getElem?_erase (m : Cache) (k k' : Nat) :
    (m.erase k)[k']? = if k = k' then none else m[k']? := by
  change (m.erase k).find? k' = if k = k' then none else m.find? k'
  rw [find?, erase, Std.TreeMap.getElem?_erase, Std.TreeMap.getElem?_erase]
  by_cases hk : k = k'
  · subst hk
    simp
  · rw [if_neg (by simpa using hk), if_neg (by simpa using hk), if_neg hk, find?]

theorem getElem?_below (m : Cache) (d k : Nat) :
    (m.below d)[k]? = m[k]?.filter fun e => decide (e.depth < d) := by
  change (m.below d).find? k = (m.find? k).filter _
  rw [find?, find?, below, Std.TreeMap.getElem?_filter', Std.TreeMap.getElem?_filter']
  cases m.texts[k]? with
  | none => rfl
  | some t =>
    cases m.depths[k]? with
    | none => rfl
    | some depth => by_cases h : depth < d <;> simp [Option.filter, h]

theorem mem_toList {m : Cache} {k : Nat} {e : Entry} : (k, e) ∈ m.toList ↔ m[k]? = some e := by
  change _ ↔ m.find? k = some e
  simp only [toList, List.mem_filterMap, Prod.exists, Option.map_eq_some_iff, Prod.mk.injEq, find?,
    Option.bind_eq_some_iff, Std.TreeMap.mem_toList_iff_getElem?_eq_some]
  constructor
  · rintro ⟨l,t,ht,d,hd,rfl,rfl⟩
    exact ⟨t,ht,d,hd,rfl⟩
  · rintro ⟨t,ht,d,hd,rfl⟩
    exact ⟨k,t,ht,d,hd,rfl,rfl⟩

theorem lookup_toList (m : Cache) (k : Nat) : m.toList.lookup k = m[k]? := by
  cases hl : m.toList.lookup k with
  | some e =>
    obtain ⟨as,bs,hm,_⟩ := List.lookup_eq_some_iff.mp hl
    exact (mem_toList.mp (by simp [hm])).symm
  | none =>
    cases hk : m[k]? with
    | none => rfl
    | some e =>
      have := List.lookup_eq_none_iff.mp hl _ (mem_toList.mpr hk)
      simp at this

theorem getElem?_orElse (m other : Cache) (k : Nat) : (m.orElse other)[k]? = m[k]?.or other[k]? := by
  have hfold : ∀ (es : List (Nat × Entry)) (m : Cache),
      (es.foldl (fun m t => if m.contains t.1 then m else m.insert t.1 t.2) m)[k]? =
        m[k]?.or (es.lookup k) := by
    intro es
    induction es with
    | nil => simp
    | cons e es ih =>
      intro m
      rw [List.foldl_cons, ih, List.lookup_cons]
      by_cases hk : k = e.1
      · subst hk
        cases hm : m[e.1]? with
        | none => simp [contains_eq_isSome, hm, getElem?_insert_self]
        | some a => simp [contains_eq_isSome, hm]
      · have hb : (k == e.1) = false := beq_false_of_ne hk
        split
        · simp [hb]
        · simp [hb, getElem?_insert, Ne.symm hk]
  rw [orElse, hfold, lookup_toList]

end Cache

end FitCode
