import FitCode.Proofs.Lowering.Shelves

/-! # What a closed loop leaves

An entry that was cached before a loop opened is cached again when the loop closes, or it waits in an
enclosing loop over one of its observables. It can be lost only if some loop sets the same vertex aside
twice: the second entry then takes the place of the first.

The invariant follows one entry. It is cached and no open loop has set its vertex aside, or it waits in
the outermost open loop that has.
-/
namespace FitCode

open Emit

/-- An entry for a vertex. -/
structure Filed where
  shelf : Shelf
  vertex : Nat
  entry : Entry

namespace Filed

def In (f : Filed) (m : Shelf → Cache) : Prop := (m f.shelf)[f.vertex]? = some f.entry

/-- How often a loop has set the vertex aside. -/
def times (f : Filed) (log : List Shelving) (i : Nat) : Nat := log.count ⟨i, f.shelf, f.vertex⟩

end Filed

namespace Draft

variable {c c' : Draft}

theorem Sound.depth_le (h : c.Sound) {f : Filed} (hf : f.In c.cache) : f.entry.depth ≤ c.depth := by
  obtain ⟨shelf,v,e⟩ := f
  cases shelf with
  | results => exact h.results v e hf
  | arrays => exact h.arrays v e hf

/-- The entry is cached, and no open loop has set its vertex aside. -/
def Home (f : Filed) (log : List Shelving) (c : Draft) : Prop :=
  f.In c.cache ∧ ∀ i ∈ c.stack, f.times log i = 0

/-- The entry waits in the outermost open loop that has set its vertex aside. -/
def Held (s : Setting) (f : Filed) (log : List Shelving) (c : Draft) : Prop :=
  ∃ (p i : Nat) (l : Loop), c.stack[p]? = some i ∧ c.loops[i]? = some l ∧ f.In l.aside ∧
    f.times log i ≠ 0 ∧ s.Iterates c f.vertex l ∧ ∀ q j : Nat, q < p → c.stack[q]? = some j → f.times log j = 0

/-- The entry is at home or held. Loops from `base` on hold nothing for its vertex until they set it
aside. -/
structure Tracks (s : Setting) (f : Filed) (base : Nat) (log : List Shelving) (c : Draft) : Prop where
  valid : ∀ i ∈ c.stack, i < c.loops.length
  fresh : ∀ i, c.loops.length ≤ i → f.times log i = 0
  empty : ∀ (p i : Nat) (l : Loop), base ≤ p → c.stack[p]? = some i → c.loops[i]? = some l → f.times log i = 0 →
    (l.aside f.shelf)[f.vertex]? = none
  place : c.Home f log ∨ c.Held s f log

namespace Tracks

variable {s : Setting} {f : Filed} {base : Nat} {log : List Shelving}

theorem start (hc : c.Sound) (hf : f.In c.cache) : c.Tracks s f c.depth [] where
  valid := fun _ hi => hc.lt_length hi
  fresh := fun _ _ => rfl
  empty := fun _ _ _ hp hi => absurd (List.getElem?_eq_some_iff.mp hi).1 (Nat.not_lt.mpr hp)
  place := .inl ⟨hf,fun _ _ => rfl⟩

theorem keeps (h : c.Tracks s f base log) {log' : List Shelving} (ht : ∀ i, f.times log' i = f.times log i)
    (hs : c'.stack = c.stack) (hcolumns : c'.columns = c.columns)
    (hloops : ∀ (i : Nat) (l : Loop), c.loops[i]? = some l → ∃ l', c'.loops[i]? = some l' ∧
      l'.vars = l.vars ∧ (l'.aside f.shelf)[f.vertex]? = (l.aside f.shelf)[f.vertex]?)
    (he : c.Home f log → f.In c'.cache) : c'.Tracks s f base log' := by
  have hcount : ∀ i < c.loops.length, i < c'.loops.length := fun i hi => by
    obtain ⟨l',hl',-⟩ := hloops i _ (List.getElem?_eq_getElem hi)
    exact (List.getElem?_eq_some_iff.mp hl').1
  refine ⟨fun i hi => hcount i (h.valid i (hs ▸ hi)),fun i hi => ?_,fun p i m hp hi hm htimes => ?_,?_⟩
  · exact (ht i).trans (h.fresh i (Nat.le_of_not_lt fun hlt => Nat.not_lt.mpr hi (hcount i hlt)))
  · rw [hs] at hi
    obtain ⟨l,hl⟩ : ∃ l, c.loops[i]? = some l :=
      ⟨_,List.getElem?_eq_getElem (h.valid i (List.mem_of_getElem? hi))⟩
    obtain ⟨l',hl',-,haside⟩ := hloops i l hl
    obtain rfl := Option.some.inj (hl'.symm.trans hm)
    rw [haside]
    exact h.empty p i l hp hi hl (ht i ▸ htimes)
  · rcases h.place with hhome | ⟨p,i,l,hi,hl,hin,htimes,hiter,hout⟩
    · exact .inl ⟨he hhome,fun i hi => (ht i).trans (hhome.2 i (hs ▸ hi))⟩
    · obtain ⟨l',hl',hvars,haside⟩ := hloops i l hl
      exact .inr ⟨p,i,l',hs ▸ hi,hl',haside.trans hin,by rwa [ht],hiter.congr hcolumns hvars,
        fun q j hq hj => (ht j).trans (hout q j hq (hs ▸ hj))⟩

theorem frames (h : c.Tracks s f base log) (hf : c.Frames c') (he : c.Home f log → f.In c'.cache) :
    c'.Tracks s f base log := by
  refine h.keeps (fun _ => rfl) hf.stack hf.columns (fun i l hl => ?_) he
  obtain ⟨queued,hl'⟩ := hf.loops i l hl
  exact ⟨_,hl',rfl,by rw [Loop.aside_queued]⟩

theorem opens (h : c.Tracks s f base log) (o : Options) (vars : List Identity) (length : Nat) :
    (c.withLoop o vars length).Tracks s f base log := by
  have hstack : (c.withLoop o vars length).stack = c.stack ++ [c.loops.length] := rfl
  have hloops : (c.withLoop o vars length).loops = c.loops ++ [c.nextLoop o vars length] := rfl
  have hnew : f.times log c.loops.length = 0 := h.fresh _ (Nat.le_refl _)
  have hold : ∀ {p i : Nat}, c.stack[p]? = some i → (c.withLoop o vars length).stack[p]? = some i := by
    intro p i hi
    rw [hstack, List.getElem?_append_left (List.getElem?_eq_some_iff.mp hi).1, hi]
  have hback : ∀ {p i : Nat}, (c.withLoop o vars length).stack[p]? = some i →
      c.stack[p]? = some i ∨ i = c.loops.length := by
    intro p i hi
    rw [hstack, List.getElem?_append] at hi
    split at hi
    · exact .inl hi
    · exact .inr (List.mem_singleton.mp (List.mem_of_getElem? hi))
  have hget : ∀ {i : Nat}, i < c.loops.length → (c.withLoop o vars length).loops[i]? = c.loops[i]? :=
    fun hi => by rw [hloops, List.getElem?_append_left hi]
  refine ⟨fun i hi => ?_,fun i hi => ?_,fun p i l hp hi hl ht => ?_,?_⟩
  · rw [hstack, List.mem_append, List.mem_singleton] at hi
    rw [hloops, List.length_append, List.length_singleton]
    rcases hi with hi | rfl
    · exact Nat.lt_succ_of_lt (h.valid i hi)
    · exact Nat.lt_succ_self _
  · rw [hloops, List.length_append] at hi
    exact h.fresh i (Nat.le_trans (Nat.le_add_right _ _) hi)
  · rcases hback hi with hi | rfl
    · rw [hget (h.valid i (List.mem_of_getElem? hi))] at hl
      exact h.empty p i l hp hi hl ht
    · rw [hloops, List.getElem?_concat_length] at hl
      cases hl
      cases f.shelf <;> exact Cache.getElem?_empty _
  · rcases h.place with ⟨hin,hout⟩ | ⟨p,i,l,hi,hl,hin,ht,hiter,hout⟩
    · refine .inl ⟨?_,fun i hi => ?_⟩
      · rw [Filed.In] at hin ⊢
        rw [← hin]
        cases f.shelf <;> rfl
      · rw [hstack, List.mem_append, List.mem_singleton] at hi
        rcases hi with hi | rfl
        · exact hout i hi
        · exact hnew
    · refine .inr ⟨p,i,l,hold hi,?_,hin,ht,hiter.congr rfl rfl,fun q j hq hj => ?_⟩
      · rw [hget (h.valid i (List.mem_of_getElem? hi)), hl]
      · rcases hback hj with hj | rfl
        · exact hout q j hq hj
        · exact hnew

/-- A loop from `base` on is closed. It gives back the entry if it is the one that holds it. -/
theorem closes (h : c.Tracks s f base log) (hc : c.Sound) (hf : f.entry.depth ≤ base) {i : Nat} {l : Loop}
    (hb : base < c.depth) (hi : c.stack.getLast? = some i) (hl : c.loops[i]? = some l) (body : Listing) :
    ({ c with body }.withoutLoop i l).Tracks s f base log := by
  obtain ⟨hlast,-⟩ := getElem?_stack_last hi
  have hdepth : l.depth = c.depth := by
    rw [(hc.loops _ l ⟨i,hlast,hl⟩).depth]
    omega
  have hstack : ({ c with body }.withoutLoop i l).stack = c.stack.dropLast := rfl
  have hat : ∀ p j : Nat, ({ c with body }.withoutLoop i l).stack[p]? = some j ↔
      c.stack[p]? = some j ∧ p < c.depth - 1 := by
    intro p j
    rw [hstack, List.getElem?_dropLast]
    split
    · exact ⟨fun h => ⟨h,by assumption⟩,fun h => h.1⟩
    · exact ⟨nofun,fun h => absurd h.2 (by assumption)⟩
  have hne : ∀ {p j : Nat}, c.stack[p]? = some j → p < c.depth - 1 → j ≠ i := by
    rintro p j hj hp rfl
    exact Nat.ne_of_lt hp (hc.stack_inj hj hlast)
  have hget : ∀ {j : Nat}, j ≠ i → ({ c with body }.withoutLoop i l).loops[j]? = c.loops[j]? := fun hj => by
    rw [getElem?_loops_withoutLoop c body i _ hl, if_neg hj]
  have hcount : ({ c with body }.withoutLoop i l).loops.length = c.loops.length := List.length_modify _ _ _
  have hmem : ∀ j ∈ c.stack.dropLast, j ∈ c.stack := fun j => List.mem_of_mem_dropLast
  refine ⟨fun j hj => ?_,fun j hj => ?_,fun p j m hp hj hm ht => ?_,?_⟩
  · rw [hcount]
    exact h.valid j (hmem j hj)
  · rw [hcount] at hj
    exact h.fresh j hj
  · obtain ⟨hj,hp'⟩ := (hat p j).mp hj
    rw [hget (hne hj hp')] at hm
    exact h.empty p j m hp hj hm ht
  · have hcache := getElem?_cache_withoutLoop c body i l f.shelf f.vertex
    rcases h.place with ⟨hin,hout⟩ | ⟨p,j,m,hj,hm,hin,ht,hiter,hout⟩
    · refine .inl ⟨?_,fun j hj => hout j (hmem j hj)⟩
      have hnone := h.empty (c.depth - 1) i l (by omega) hlast hl (hout i (List.mem_of_getElem? hlast))
      have hdeep : ∀ e, (c.cache f.shelf)[f.vertex]? = some e → e.depth < l.depth := fun e he => by
        obtain rfl := Option.some.inj (hin.symm.trans he)
        omega
      rw [Filed.In, hcache, hnone, Option.none_or, Cache.getElem?_below_of_le hdeep]
      exact hin
    · have hp : p < c.depth := (List.getElem?_eq_some_iff.mp hj).1
      by_cases hlt : p < c.depth - 1
      · exact .inr ⟨p,j,m,(hat p j).mpr ⟨hj,hlt⟩,(hget (hne hj hlt)).trans hm,hin,ht,hiter.congr rfl rfl,
          fun q j' hq hj' => hout q j' hq ((hat q j').mp hj').1⟩
      · -- The loop that closes is the one that holds the entry.
        obtain rfl : p = c.depth - 1 := by omega
        obtain rfl := Option.some.inj (hj.symm.trans hlast)
        obtain rfl := Option.some.inj (hm.symm.trans hl)
        refine .inl ⟨?_,fun j' hj' => ?_⟩
        · rw [Filed.In, hcache, hin]
          rfl
        · obtain ⟨q,hq⟩ := List.mem_iff_getElem?.mp hj'
          obtain ⟨hq,hlt⟩ := (hat q j').mp hq
          exact hout q j' hlt hq

end Tracks

end Draft

namespace Setting

open Draft

variable {s : Setting} {P : String → Prop} {f : Filed}

end Setting

end FitCode
