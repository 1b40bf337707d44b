import FitCode.Proofs.Graph.Typed
import FitCode.Proofs.Lowering.Requests

/-! # Lowering fails for known reasons only

In an acyclic graph whose parameters and observables are bound, asking for the result of a node can
fail only because observables of different sizes meet in a loop or because calls nest too deep. What
keeps the other failures away is that bound parameters and scalar observables stay cached outside of
all loops, and that asking for an operand does not touch the node that asks.
-/
namespace FitCode

open Text

namespace Emit

variable {α β : Type} {A : Fault → Prop} {P Q : α → Draft → Prop} {x : Emit α} {c : Draft}

/-- The step succeeds with a result as described, or fails for an allowed reason. -/
def Safe (A : Fault → Prop) (x : Emit α) (c : Draft) (Q : α → Draft → Prop) : Prop :=
  match x.outcome c with
  | (.ok a, c') => Q a c'
  | (.error e, _) => A e

namespace Safe

theorem mono (h : x.Safe A c P) (hPQ : ∀ a c', P a c' → Q a c') : x.Safe A c Q := by
  unfold Safe at h ⊢
  split
  · rename_i a c' hr
    rw [hr] at h
    exact hPQ a c' h
  · rename_i e c' hr
    rw [hr] at h
    exact h

theorem bind {f : α → Emit β} {Q : β → Draft → Prop} (hx : x.Safe A c P)
    (hf : ∀ a c', P a c' → (f a).Safe A c' Q) : (x >>= f).Safe A c Q := by
  unfold Safe at hx
  unfold Safe
  rw [outcome_bind]
  rcases hr : x.outcome c with ⟨r,c'⟩
  rw [hr] at hx
  cases r with
  | error e => exact hx
  | ok a => exact hf a c' hx

theorem pure {a : α} (h : Q a c) : (pure a : Emit α).Safe A c Q := h

theorem throw {e : Fault} (h : A e) : (throw e : Emit α).Safe A c Q := h

theorem ofExcept_bind {a : α} {r : Except Fault α} (hr : r = .ok a) {f : α → Emit β}
    {Q : β → Draft → Prop} (hf : (f a).Safe A c Q) : (Emit.ofExcept r >>= f).Safe A c Q := by
  subst hr
  exact hf

theorem get_bind {f : Draft → Emit β} {Q : β → Draft → Prop} (hf : (f c).Safe A c Q) :
    (get >>= f).Safe A c Q := hf

theorem moves {T : Nat → Prop} (h : x.Safe A c Q) (hx : x.Balances T) (hc : c.Sound) :
    x.Safe A c fun a c' => Q a c' ∧ c.Moves T c' := by
  have hm := hx c hc
  unfold Safe at h ⊢
  rcases hr : x.outcome c with ⟨r,c'⟩
  rw [hr] at h hm
  cases r with
  | error e => exact h
  | ok a => exact ⟨h,hm⟩

/-- A step that keeps an invariant, taken for each item of a list. -/
theorem mapM {I : Draft → Prop} {R : β → Prop} {f : α → Emit β} {as : List α}
    (hf : ∀ a ∈ as, ∀ c, I c → (f a).Safe A c fun b c' => R b ∧ I c') (hc : I c) :
    (as.mapM f).Safe A c fun bs c' => (bs.length = as.length ∧ ∀ b ∈ bs, R b) ∧ I c' := by
  induction as generalizing c with
  | nil => exact ⟨⟨rfl,by simp⟩,hc⟩
  | cons a as ih =>
    rw [List.mapM_cons]
    refine (hf a (by simp) c hc).bind fun b c₁ hb => ?_
    refine (ih (fun a' ha' => hf a' (by simp [ha'])) hb.2).bind fun bs c₂ hbs => ?_
    exact .pure ⟨⟨by simp [hbs.1.1],by simpa using ⟨hb.1,hbs.1.2⟩⟩,hbs.2⟩

end Safe

end Emit

open Emit

/-- What lowering below `root` relies on. -/
structure Setting.Ready (s : Setting) (root : Nat) (rank : Nat → Nat) (pinned : Nat → Prop)
    (columns : IdMap Int) : Prop where
  options : s.options.Valid
  typed : s.graph.Typed
  rank_lt : ∀ v, ∀ w ∈ s.graph.links v, rank w < rank v
  sizes : ∃ given, Sizes.Inferred s.graph root given s.sizes ∧
    ∀ x, given x → 1 < s.sizes.size (s.graph.idOf x) → ∃ n, (s.graph.idOf x, n) ∈ columns
  parameter : ∀ v x, s.graph.Leads false root v → s.graph.kind v = .parameter x false → pinned v
  observable : ∀ v, s.graph.Leads false root v → s.graph.kind v = .observable →
    pinned v ∨ (columns.get? (s.graph.idOf v)).isSome
  vectors : ∀ e ∈ columns, s.graph.kind e.1.serial = .observable
  isNode : ∀ u, pinned u → (s.graph.kind u).isNode = true
  leaf : ∀ u, pinned u → s.graph.links u = []
  apart : ∀ u, pinned u → ∀ e ∈ columns, e.1.serial ≠ u

/-- Bound parameters and scalar observables are cached outside of all loops and never set aside. -/
structure Draft.Keeps (pinned : Nat → Prop) (columns : IdMap Int) (c : Draft) : Prop where
  sound : c.Sound
  columns : c.columns = columns
  cached : ∀ u, pinned u → ∃ e : Entry, c.results[u]? = some e ∧ e.depth = 0
  aside : ∀ u, pinned u → ∀ k l, c.Opens k l → l.results[u]? = none

namespace Draft.Keeps

variable {pinned T : Nat → Prop} {columns : IdMap Int} {c c' : Draft}

theorem running (h : c.Keeps pinned columns) (ids : List Identity) :
    Draft.Keeps pinned columns { c with running := ids } :=
  ⟨h.sound.running ids,h.columns,h.cached,h.aside⟩

theorem moves (h : c.Keeps pinned columns) (hm : c.Moves T c') (hT : ∀ u, pinned u → ¬ T u) :
    c'.Keeps pinned columns where
  sound := hm.sound
  columns := hm.balanced.columns.trans h.columns
  cached := fun u hu => by
    obtain ⟨e,he,hd⟩ := h.cached u hu
    exact ⟨e,(hm.balanced.results u (hT u hu)).trans he,hd⟩
  aside := fun u hu k l' hl' => by
    obtain ⟨l,hl,hs⟩ := hm.balanced.follows.opens h.sound.valid hl'
    rw [hs.results u (hT u hu)]
    exact h.aside u hu k l hl

theorem withLoop (h : c.Keeps pinned columns) {o : Options} (ho : o.Valid) {vars : List Identity}
    (hfree : ∀ id ∈ vars, c.bindings[id.serial]? = none)
    (hreg : ∀ id ∈ vars, (c.columns.get? id).isSome) (length : Nat) :
    (c.withLoop o vars length).Keeps pinned columns where
  sound := h.sound.withLoop ho hfree hreg length
  columns := h.columns
  cached := h.cached
  aside := fun u hu k l hl => by
    rcases (opens_withLoop h.sound).mp hl with hl | ⟨_,rfl⟩
    · exact h.aside u hu k l hl
    · simp [nextLoop]

theorem withoutLoop (h : c.Keeps pinned columns) {i : Nat} {l : Loop}
    (hi : c.stack.getLast? = some i) (hl : c.loops[i]? = some l) :
    ({ c with body := closedBody c.body l }.withoutLoop i l).Keeps pinned columns where
  sound := h.sound.withoutLoop hi hl
  columns := h.columns
  cached := fun u hu => by
    have hopen : c.Opens (c.depth - 1) l := ⟨i,(getElem?_stack_last hi).1,hl⟩
    obtain ⟨e,he,hd⟩ := h.cached u hu
    refine ⟨e,?_,hd⟩
    have hget : ({ c with body := closedBody c.body l }.withoutLoop i l).results =
        l.results.orElse (c.results.below l.depth) := rfl
    rw [hget, Cache.getElem?_orElse, h.aside u hu _ l hopen, Option.none_or,
      Cache.getElem?_below_of_le, he]
    intro e' he'
    cases he.symm.trans he'
    rw [hd, (h.sound.loops _ l hopen).depth]
    exact Nat.succ_pos _
  aside := fun u hu k m hm => h.aside u hu k m ((opens_withoutLoop h.sound hi _).mp hm).1

theorem atTop (h : c.Keeps pinned columns) : c.atTop.Keeps pinned columns where
  sound := sound_atTop c
  columns := h.columns
  cached := fun u hu => by
    obtain ⟨e,he,hd⟩ := h.cached u hu
    refine ⟨e,?_,hd⟩
    have hget : c.atTop.results = c.results.below 1 := rfl
    rw [hget, Cache.getElem?_below_of_le, he]
    intro e' he'
    cases he.symm.trans he'
    exact hd ▸ Nat.one_pos
  aside := fun u hu k l hl => by
    obtain ⟨i,hi,_⟩ := hl
    cases hi

theorem backTo (h : c.Keeps pinned columns) (hm : c.atTop.Moves T c') :
    (c'.backTo c).Keeps pinned columns where
  sound := (Moves.backTo h.sound hm).sound
  columns := hm.balanced.columns.trans h.columns
  cached := h.cached
  aside := fun u hu k l hl => h.aside u hu k l (opens_backTo h.sound hm.balanced hl)

theorem adopt (h : c.Keeps pinned columns) (hm : c.atTop.Moves T c') :
    ((c'.backTo c).adopt c').Keeps pinned columns := by
  have hsound := (Moves.adopt h.sound hm).sound
  have hback := h.backTo hm
  have hqueue : ((c'.backTo c).queueAt 0 c'.body).Keeps pinned columns :=
    hback.moves (T := fun _ => False) (.queueAt hback.sound 0 _) fun _ _ => id
  refine ⟨hsound,hqueue.columns,fun u hu => ?_,hqueue.aside⟩
  obtain ⟨e,he,hd⟩ := h.cached u hu
  refine ⟨e,?_,hd⟩
  have hget : ((c'.backTo c).adopt c').results = c.results.orElse c'.results := rfl
  rw [hget, Cache.getElem?_orElse, he]
  rfl

end Draft.Keeps

/-- While a node is lowered it has no result. -/
structure Draft.Awaits (pinned : Nat → Prop) (columns : IdMap Int) (v : Nat) (c : Draft) : Prop
    extends Draft.Keeps pinned columns c where
  fresh : c.results[v]? = none

namespace Draft.Awaits

variable {pinned T : Nat → Prop} {columns : IdMap Int} {v : Nat} {c c' : Draft}

theorem moves (h : c.Awaits pinned columns v) (hm : c.Moves T c') (hT : ∀ u, pinned u → ¬ T u)
    (hv : ¬ T v) : c'.Awaits pinned columns v :=
  ⟨h.toKeeps.moves hm hT,(hm.balanced.results v hv).trans h.fresh⟩

theorem not_pinned (h : c.Awaits pinned columns v) : ¬ pinned v := by
  intro hv
  obtain ⟨e,he,_⟩ := h.cached v hv
  cases h.fresh.symm.trans he

theorem insert (h : c.Awaits pinned columns v) (text : String) :
    { c with results := c.results.insert v ⟨text, c.depthOf text⟩ }.Keeps pinned columns ∧
      (c.results.insert v (⟨text, c.depthOf text⟩ : Entry))[v]?.isSome = true := by
  constructor
  · refine h.toKeeps.moves (T := Eq v) (.insertResult h.sound rfl (c.depthOf_le text)) ?_
    rintro _ hu rfl
    exact h.not_pinned hu
  · rw [Cache.getElem?_insert, if_pos rfl]
    rfl

end Draft.Awaits

namespace Setting

variable {s : Setting} {root : Nat} {rank : Nat → Nat} {pinned : Nat → Prop} {columns : IdMap Int}
  {A : Fault → Prop} {c : Draft} {v : Nat}

theorem Ready.inputs (hs : s.Ready root rank pinned columns) (hc : c.columns = columns)
    (hv : (s.graph.kind v).isNode = true ∨ ∃ ms, (s.graph.kind v).members? = some ms) :
    ∃ ids, s.inputs c (.object v) = .ok ids ∧
      ∀ id, id ∈ ids ↔ (∃ n, (id, n) ∈ columns) ∧ s.graph.Leads true v id.serial := by
  subst hc
  exact hs.typed.sorted.inputs hs.vectors hv

/-- A bound parameter or scalar observable depends on no vector observable. -/
theorem Ready.not_leads (hs : s.Ready root rank pinned columns) {u : Nat} (hu : pinned u)
    {e : Identity × Int} (he : e ∈ columns) : ¬ s.graph.Leads true u e.1.serial := by
  intro h
  cases h with
  | refl => exact hs.apart _ hu e he rfl
  | step hw _ _ =>
    rw [hs.leaf u hu] at hw
    cases hw

theorem mem_openLoops {l : Loop} (h : l ∈ c.openLoops) : ∃ k, c.Opens k l := by
  rw [Draft.openLoops, List.mem_filterMap] at h
  obtain ⟨i,hi,hl⟩ := h
  obtain ⟨k,hk⟩ := List.mem_iff_getElem?.mp hi
  exact ⟨k,i,hk,hl⟩

/-- Whether a reducer is lifted is known, and one that is not has an input left to iterate. -/
theorem Ready.isLiftable (hs : s.Ready root rank pinned columns) (hc : c.Keeps pinned columns)
    (hv : (s.graph.kind v).isNode = true ∨ ∃ ms, (s.graph.kind v).members? = some ms) :
    ∃ b, s.isLiftable c (.object v) = .ok b := by
  obtain ⟨ids,hids,_⟩ := hs.inputs hc.columns hv
  exact Setting.exists_isLiftable hids

theorem Ready.iterationDepth (hs : s.Ready root rank pinned columns) (hc : c.Keeps pinned columns)
    (hv : (s.graph.kind v).isNode = true ∨ ∃ ms, (s.graph.kind v).members? = some ms) :
    ∃ d, s.iterationDepth c (.object v) = .ok d ∧ d ≤ c.depth ∧ (pinned v → d = 0) := by
  obtain ⟨b,hb⟩ := hs.isLiftable hc hv
  obtain ⟨ids,hids,hmem⟩ := hs.inputs hc.columns hv
  rw [Setting.iterationDepth]
  split
  · exact ⟨0,rfl,Nat.zero_le _,fun _ => rfl⟩
  · rw [hb]
    cases b with
    | true => exact ⟨0,rfl,Nat.zero_le _,fun _ => rfl⟩
    | false =>
      refine ⟨_,by rw [hids]; rfl,?_,fun hp => ?_⟩
      · cases hf : c.openLoops.reverse.find? fun l => l.vars.any fun v => ids.any fun i => i.same v with
        | none => exact Nat.zero_le _
        | some l =>
          obtain ⟨k,hk⟩ := mem_openLoops (List.mem_reverse.mp (List.mem_of_find?_eq_some hf))
          have hlt := Draft.opens_lt hk
          have hd := (hc.sound.loops k l hk).depth
          simp only [Option.map_some, Option.getD_some]
          omega
      · have hnil : ids = [] := by
          refine List.eq_nil_iff_forall_not_mem.mpr fun id hid => ?_
          obtain ⟨⟨n,hn⟩,hl⟩ := (hmem id).mp hid
          exact hs.not_leads hp hn hl
        have hnone : c.openLoops.reverse.find? (fun l => l.vars.any fun v => ids.any fun i => i.same v) = none := by
          simp [hnil]
        rw [hnone]
        rfl

end Setting

namespace Setting

variable {s : Setting} {root : Nat} {rank : Nat → Nat} {pinned : Nat → Prop} {columns : IdMap Int}
  {A : Fault → Prop} {l : Lowerer} {trail : Trail} {c : Draft} {v w : Nat}

theorem Ready.mem_links (hs : s.Ready root rank pinned columns) {w : Nat}
    (hw : w ∈ (s.graph.kind v).nodeParts) : w ∈ s.graph.links v :=
  hs.typed.sorted.mem_links (Kind.mem_targets_of_nodeParts hw)
    (Graph.mem_expand.mpr (.inl ⟨Graph.members_of_isNode (hs.typed.nodes v w hw),rfl⟩))

end Setting

end FitCode
