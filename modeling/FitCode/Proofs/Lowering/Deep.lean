import FitCode.Proofs.Graph.Typed
import FitCode.Proofs.Lowering.Anchored

/-! # Entries that are deep enough

A cached entry is used again if it is as deep as the loops over what its vertex depends on. The depth of
the entry comes from the names in its text, and the depth that is asked for from a search through the
graph. The two are compared by what the text mentions: an entry that can be used mentions a name of the
innermost loop that its vertex varies in, and one whose text mentions the names of its operands can be used.
-/
namespace FitCode

open Emit Text

namespace Graph

variable {g : Graph} {v w x : Nat}

/-- At an entry of `x`, what the vertex stands for depends on that entry. -/
def Varies (g : Graph) (v x : Nat) : Prop := (v = x ∨ g.isOpen true v) ∧ g.Leads true v x

/-- One of the operands or members varies. -/
def Needs (g : Graph) (v x : Nat) : Prop := ∃ w ∈ (g.kind v).targets, g.Varies w x

/-- The search for `x` goes through an operand, and through a collection to one of its members. -/
theorem needs_of_leads (h : g.Leads true v x) (hne : v ≠ x) : g.Needs v x := by
  obtain ⟨u,hu,hopen,hleads⟩ := (leads_iff_of_ne hne).mp h
  rw [links, operands?] at hu
  cases hp : (g.kind v).parts? with
  | none =>
    rw [hp, Option.map_none, Option.getD_none] at hu
    exact ⟨u,by simp [Kind.targets, hu],hopen,hleads⟩
  | some ws =>
    rw [hp, Option.map_some, Option.getD_some, List.mem_flatMap] at hu
    obtain ⟨w,hw,hu⟩ := hu
    refine ⟨w,by simp [Kind.targets, hp, hw],?_⟩
    rcases mem_expand.mp hu with ⟨-,rfl⟩ | ⟨ms,hms,hmem⟩
    · exact ⟨hopen,hleads⟩
    · have hk := kind_of_members hms
      have hlink : u ∈ g.links w := by simpa [links, operands?, hk, Kind.parts?, Kind.members?] using hmem
      exact ⟨.inr fun hr => by simp [hk, Kind.isReducer] at hr,.step hlink hopen hleads⟩

end Graph

namespace Draft

/-- Sound, with anchored entries, and with columns for observables only. -/
structure Poised (s : Setting) (c : Draft) : Prop where
  sound : c.Sound
  anchored : c.Anchored s.options
  vectors : ∀ e ∈ c.columns, s.graph.kind e.1.serial = .observable

/-- What a request does to a draft. -/
structure Passes (s : Setting) (c c' : Draft) : Prop where
  moves : c.Moves (fun _ => True) c'
  anchored : c'.Anchored s.options
  rises : c.Rises c'

/-- The text is bound in all loops over what `A` holds of. -/
def Deep (c : Draft) (A : Nat → Prop) (text : String) : Prop :=
  ∀ k l, c.Opens k l → ∀ id ∈ l.vars, A id.serial → l.depth ≤ c.mentioned text

variable {s : Setting} {c c' c'' : Draft} {A : Nat → Prop} {text text' name : String} {k v : Nat} {l : Loop}
  {id : Identity}

theorem Poised.running (h : c.Poised s) (ids : List Identity) : Poised s { c with running := ids } :=
  ⟨h.sound.running ids,h.anchored.notes (.of_eq rfl rfl rfl rfl rfl rfl rfl rfl rfl),h.vectors⟩

theorem Passes.refl (h : c.Poised s) : c.Passes s c := ⟨.refl h.sound,h.anchored,.refl c⟩

theorem Passes.trans (h : c.Passes s c') (h' : c'.Passes s c'') : c.Passes s c'' :=
  ⟨h.moves.trans h'.moves,h'.anchored,h.rises.trans h'.rises⟩

theorem Passes.opens (h : c.Passes s c') (hc : c.Sound) {l' : Loop} (hl : c'.Opens k l') :
    ∃ l, c.Opens k l ∧ l'.vars = l.vars ∧ l'.depth = l.depth := by
  obtain ⟨l,hl,hs⟩ := h.moves.balanced.follows.opens hc.valid hl
  exact ⟨l,hl,hs.vars,hs.depth⟩

theorem Rises.depthOf (h : c.Rises c') (hd : c'.depth = c.depth) (text : String) :
    c.depthOf text ≤ c'.depthOf text := by
  have hle := h.mentioned text
  rw [depthOf_eq, depthOf_eq, hd]
  omega

/-- A name for an expression is bound as deep as the expression, if not deeper. -/
theorem depthOf_le_introduce (c : Draft) (o : Options) (name statement text : String) :
    c.depthOf text ≤ (c.introduce o name statement (c.depthOf text)).bindingDepth name := by
  rw [bindingDepth_introduce]
  split
  · exact Nat.le_refl _
  · exact c.depthOf_le text

theorem Sound.loop_le_depth (hc : c.Sound) (hl : c.Opens k l) : l.depth ≤ c.depth := by
  rw [(hc.loops k l hl).depth]
  exact opens_lt hl

theorem Sound.ne_of_unbound (hc : c.Sound) (hl : c.Opens k l) (hid : id ∈ l.vars)
    (hv : c.bindings[v]? = none) : v ≠ id.serial := by
  rintro rfl
  have hsome := (hc.bindings id.serial).mpr ⟨k,l,hl,List.mem_map_of_mem hid⟩
  rw [hv] at hsome
  cases hsome

namespace Poised

theorem passes (h : c.Poised s) (hp : c.Passes s c') : c'.Poised s :=
  ⟨hp.moves.sound,hp.anchored,hp.moves.balanced.columns ▸ h.vectors⟩

theorem gives (h : c.Poised s) (ho : s.options.Legible) {α : Type} {x : Emit α} {a : α}
    (hx : s.Shelved s.options.IsPlainName x) (hgives : x.Gives c a c') : c.Passes s c' := by
  obtain ⟨hm,hlog⟩ := hx c h.sound
  obtain ⟨es,hes⟩ := hlog 0 (Nat.zero_le _)
  obtain ⟨ha,hr⟩ := hes.anchored ho h.anchored
  rw [hgives] at hm ha hr
  exact ⟨hm,ha,hr⟩

theorem setAside (h : c.Poised s) (shelf : Shelf) {e : Entry} {n : Nat} {d : Datum}
    (he : (c.cache shelf)[v]? = some e) (hn : s.iterationDepth c d = .ok n) (hlt : e.depth < n) :
    c.Passes s (c.setAside v e n shelf) := by
  obtain ⟨-,rfl⟩ | ⟨-,hpos⟩ := Setting.iterationDepth_spec h.sound hn
  · exact absurd hlt (Nat.not_lt_zero _)
  obtain ⟨_,i,_,-,hi,-⟩ := hpos (Nat.zero_lt_of_lt hlt)
  have hdepths := (setAside_eq shelf v e hi).2.2.2.2.2.2
  exact ⟨Setting.moves_setAside h.sound hlt,h.anchored.setAside he hi,.of_eq hdepths⟩

theorem observable_of_bound (h : c.Poised s) (hv : c.bindings[v]? = some text) :
    s.graph.kind v = .observable := by
  obtain ⟨k,l,hl,hmem⟩ := (h.sound.bindings v).mp (by rw [hv]; rfl)
  obtain ⟨id,hid,rfl⟩ := List.mem_map.mp hmem
  obtain ⟨e,he,heq⟩ := IdMap.exists_mem_of_isSome (h.sound.registered k l hl id hid)
  exact heq ▸ h.vectors e he

theorem unbound_of_members (h : c.Poised s) {ms : List Nat} (hv : (s.graph.kind v).members? = some ms) :
    c.bindings[v]? = none := by
  cases hb : c.bindings[v]? with
  | none => rfl
  | some text =>
    rw [h.observable_of_bound hb] at hv
    cases hv

end Poised

namespace Deep

theorem passes (h : c.Deep A text) (hc : c.Poised s) (hp : c.Passes s c') : c'.Deep A text := by
  intro k l' hl' id hid hA
  obtain ⟨l,hl,hvars,hdepth⟩ := hp.opens hc.sound hl'
  rw [hvars] at hid
  rw [hdepth]
  exact Nat.le_trans (h k l hl id hid hA) (hp.rises.mentioned text)

theorem mono (h : c.Deep A text) (hn : ∀ n ∈ Text.names text, n ∈ Text.names text') : c.Deep A text' :=
  fun k l hl id hid hA => Nat.le_trans (h k l hl id hid hA) (mentioned_mono hn)

/-- A name is bound in the loops that were open when it was bound, as far as they matter. -/
theorem of_name (hc : c.Poised s) (hp : c.Passes s c') (hname : Text.names name = [name])
    (h : ∀ k l, c.Opens k l → ∀ id ∈ l.vars, A id.serial → l.depth ≤ c'.bindingDepth name) :
    c'.Deep A name := by
  intro k l' hl' id hid hA
  obtain ⟨l,hl,hvars,hdepth⟩ := hp.opens hc.sound hl'
  rw [hvars] at hid
  rw [hdepth, mentioned_name hname]
  exact h k l hl id hid hA

theorem of_expr (h : c.Deep A text) (hc : c.Poised s) (hp : c.Passes s c')
    (hname : Text.names name = [name]) (hd : c.depthOf text ≤ c'.bindingDepth name) : c'.Deep A name := by
  refine of_name hc hp hname fun k l hl id hid hA => Nat.le_trans (Nat.le_min.mpr ⟨?_,?_⟩) hd
  · exact h k l hl id hid hA
  · exact hc.sound.loop_le_depth hl

theorem needs {g : Graph} (h : ∀ w ∈ (g.kind v).targets, c.Deep (g.Varies w) text) :
    c.Deep (g.Needs v) text := by
  rintro k l hl id hid ⟨w,hw,hvaries⟩
  exact h w hw k l hl id hid hvaries

end Deep

end Draft

namespace Setting

open Draft

variable {s : Setting} {c c' : Draft} {v : Nat} {d : Datum} {text : String} {shelf : Shelf}

/-- The entry is cached and deep enough to be used as it is. -/
def Usable (s : Setting) (c : Draft) (shelf : Shelf) (d : Datum) (k : Nat) (text : String) : Prop :=
  ∃ e n, (c.cache shelf)[k]? = some e ∧ e.text = text ∧ s.iterationDepth c d = .ok n ∧ n ≤ e.depth

/-- The text of a value is known: it is iterated or has a usable result. -/
def AtHand (s : Setting) (c : Draft) (d : Datum) (text : String) : Prop :=
  ∃ id, s.graph.identityOf d = .ok id ∧ (c.bindings[id.serial]? = some text ∨
    c.bindings[id.serial]? = none ∧ s.Usable c .results d id.serial text)

/-- Asking for a result that is at hand gives it and does nothing else. -/
theorem AtHand.again (h : s.AtHand c d text) (emit : Trail → Datum → Emit Unit) {trail : Trail}
    (ht : trail.calls ≤ s.options.machine.calls) : (s.resolve emit trail d).outcome c = (.ok text, c) := by
  obtain ⟨id,hid,h⟩ := h
  rw [resolve, if_neg (Nat.not_lt.mpr ht)]
  rcases h with hb | ⟨hb,e,n,he,rfl,hn,hle⟩
  · simp only [identityOf, hid, Emit.ofExcept, pure_bind, outcome_get_bind, hb]
    rfl
  · have he : c.results[id.serial]? = some e := he
    simp only [identityOf, hid, Emit.ofExcept, pure_bind, outcome_get_bind, hb, he, hn, if_pos hle]
    rfl

theorem Usable.again {id : Identity} (hid : s.graph.identityOf d = .ok id)
    (h : s.Usable c .arrays d id.serial text) (l : Lowerer) (trail : Trail) (given : Option String) :
    (s.arrayOf l trail d given).outcome c = (.ok text, c) := by
  obtain ⟨e,n,he,rfl,hn,hle⟩ := h
  have he : c.arrays[id.serial]? = some e := he
  rw [arrayOf]
  simp only [identityOf, hid, Emit.ofExcept, pure_bind, outcome_get_bind, he, hn, if_pos hle]
  rfl

theorem isReducer_of_isLiftable (h : s.isLiftable c (.object v) = .ok true) :
    (s.graph.kind v).isReducer = true := by
  rw [isLiftable] at h
  split at h
  · cases h
  · rename_i hnot
    simp only [Bool.or_eq_true, not_or, Bool.not_eq_true, Bool.not_eq_false'] at hnot
    exact hnot.2

section

variable (hg : s.graph.Sorted) (hc : c.Poised s)
  (hv : (s.graph.kind v).isNode = true ∨ ∃ ms, (s.graph.kind v).members? = some ms)

include hg hc hv

theorem iterates_iff {k : Nat} {l : Loop} (hl : c.Opens k l) :
    s.Iterates c v l ↔ ∃ id ∈ l.vars, s.graph.Leads true v id.serial := by
  obtain ⟨ids,hids,hmem⟩ := hg.inputs hc.vectors hv
  constructor
  · rintro ⟨ids',hids',id,hid,i,hi,hsame⟩
    cases hids.symm.trans hids'
    have heq : i.serial = id.serial := by simpa [Identity.same] using hsame
    exact ⟨id,hid,heq ▸ ((hmem i).mp hi).2⟩
  · rintro ⟨id,hid,hleads⟩
    obtain ⟨⟨i,n⟩,he,heq⟩ := IdMap.exists_mem_of_isSome (hc.sound.registered k l hl id hid)
    have heq : i.serial = id.serial := heq
    exact ⟨ids,hids,id,hid,i,(hmem i).mpr ⟨⟨n,he⟩,heq ▸ hleads⟩,by simp [Identity.same, heq]⟩

theorem exists_iterationDepth : ∃ n, s.iterationDepth c (.object v) = .ok n := by
  obtain ⟨ids,hids,-⟩ := hg.inputs hc.vectors hv
  obtain ⟨b,hb⟩ := exists_isLiftable hids
  rw [iterationDepth]
  split
  · exact ⟨0,rfl⟩
  · rw [hb]
    cases b with
    | true => exact ⟨0,rfl⟩
    | false => exact ⟨_,by rw [hids]; rfl⟩

/-- A usable entry is as deep as the loops over what its vertex depends on, for its text mentions a name
that deep. -/
theorem Usable.deep (h : s.Usable c shelf (.object v) v text) (hfree : c.bindings[v]? = none) :
    c.Deep (s.graph.Varies v) text := by
  obtain ⟨e,n,he,rfl,hn,hle⟩ := h
  rintro k l hl id hid ⟨hopen,hleads⟩
  have hdepth : l.depth = k + 1 := (hc.sound.loops k l hl).depth
  have hanchor : e.depth ≤ c.mentioned e.text := hc.anchored.entries shelf v e he
  rcases iterationDepth_spec hc.sound hn with ⟨hlift,-⟩ | ⟨hno,-⟩
  · -- What is lifted is a reducer and does not vary.
    rcases hopen with heq | hopen
    · exact absurd heq (hc.sound.ne_of_unbound hl hid hfree)
    · exact absurd ⟨rfl,isReducer_of_isLiftable hlift⟩ hopen
  · have hlt : k < n := by
      refine Nat.lt_of_not_le fun hle => hno v k l rfl hle hl ?_
      exact (iterates_iff hg hc hv hl).mpr ⟨id,hid,hleads⟩
    omega

/-- An entry is usable if its text is bound in the loops over what the operands depend on. -/
theorem usable_of_deep (hfree : c.bindings[v]? = none) {depth : Nat}
    (he : (c.cache shelf)[v]? = some ⟨text, depth⟩) (hd : c.depthOf text ≤ depth)
    (h : c.Deep (s.graph.Needs v) text) : s.Usable c shelf (.object v) v text := by
  obtain ⟨n,hn⟩ := exists_iterationDepth hg hc hv
  refine ⟨_,n,he,rfl,hn,?_⟩
  rcases iterationDepth_spec hc.sound hn with ⟨-,rfl⟩ | ⟨-,hpos⟩
  · exact Nat.zero_le _
  rcases Nat.eq_zero_or_pos n with rfl | hn
  · exact Nat.zero_le _
  -- The innermost loop over an input is at this depth, and the text is bound in it.
  obtain ⟨_,i,l,heq,hi,hl,hiter⟩ := hpos hn
  cases heq
  have hopen : c.Opens (n - 1) l := ⟨i,hi,hl⟩
  obtain ⟨id,hid,hleads⟩ := (iterates_iff hg hc hv hopen).mp hiter
  have hneeds := Graph.needs_of_leads hleads (hc.sound.ne_of_unbound hopen hid hfree)
  have hle : l.depth ≤ c.depthOf text :=
    Nat.le_min.mpr ⟨h _ l hopen id hid hneeds,hc.sound.loop_le_depth hopen⟩
  have hdepth := (hc.sound.loops _ l hopen).depth
  have hle : l.depth ≤ depth := Nat.le_trans hle hd
  change n ≤ depth
  omega

end

theorem deep_of_bound (hc : c.Poised s) (hv : c.bindings[v]? = some text) :
    c.Deep (s.graph.Varies v) text := by
  rintro k l hl id hid ⟨-,hleads⟩
  have hk := hc.observable_of_bound hv
  obtain rfl : v = id.serial := by
    cases hleads with
    | refl => rfl
    | step hw => simp [Graph.links, Graph.operands?, hk, Kind.parts?] at hw
  obtain ⟨text',htext',hmem⟩ := hc.anchored.accesses k l hl id hid
  cases hv.symm.trans htext'
  exact Nat.le_trans (hc.anchored.loops k l hl) (le_mentioned hmem)

theorem AtHand.deep (hg : s.graph.Sorted) (hc : c.Poised s) (hv : (s.graph.kind v).isNode = true)
    (h : s.AtHand c (.object v) text) : c.Deep (s.graph.Varies v) text := by
  obtain ⟨id,hid,h⟩ := h
  cases hid
  rcases h with hb | ⟨hb,h⟩
  · exact deep_of_bound hc hb
  · exact h.deep hg hc (.inl hv) hb

end Setting

end FitCode
