import FitCode.Lowering.Session
import FitCode.Proofs.Graph.Dependence
import FitCode.Proofs.Lowering.LoopSteps

/-! # Sound drafts and balanced steps

A draft is sound if its caches, its open loops and the accesses they bind fit together. A step is
balanced if it leaves the same loops open: it may append code, queue lines, cache results and set
others aside, but only for the vertices it touches, and every loop it opens it closes. Both hold
whether a step succeeds or fails, so nothing here assumes that a graph can be lowered.
-/
namespace FitCode

open Text

section

variable {T : Nat → Prop} {m : Cache} {v k : Nat} {e e' : Entry}

/-- Changing the entry of one vertex of a set leaves everything outside of the set alone. -/
theorem Cache.getElem?_insert_off (hv : T v) (hk : ¬ T k) : (m.insert v e)[k]? = m[k]? := by
  rw [getElem?_insert, if_neg]
  rintro rfl
  exact hk hv

theorem Cache.getElem?_erase_off (hv : T v) (hk : ¬ T k) : (m.erase v)[k]? = m[k]? := by
  rw [getElem?_erase, if_neg]
  rintro rfl
  exact hk hv

theorem Cache.eq_or_of_insert (h : (m.insert v e)[k]? = some e') : e' = e ∨ m[k]? = some e' := by
  rw [getElem?_insert] at h
  split at h
  · exact .inl (Option.some.inj h).symm
  · exact .inr h

theorem Cache.of_erase (h : (m.erase v)[k]? = some e) : m[k]? = some e := by
  rw [getElem?_erase] at h
  split at h
  · cases h
  · exact h

end

theorem Graph.mem_expand {g : Graph} {v w : Nat} : w ∈ g.expand v ↔
    (g.kind v).members? = none ∧ w = v ∨ ∃ ms, (g.kind v).members? = some ms ∧ w ∈ ms := by
  cases hm : (g.kind v).members? <;> simp [Graph.expand, hm]

/-- The vertices that asking for a vertex can touch, collections included. -/
inductive Graph.Touches (g : Graph) : Nat → Nat → Prop
  | refl (v : Nat) : Touches g v v
  | step {v w u : Nat} (hw : w ∈ (g.kind v).targets) (h : Touches g w u) : Touches g v u

/-- The vertices that asking for a value can touch. -/
def Graph.touched (g : Graph) : Datum → Nat → Prop
  | .object v, u => g.Touches v u
  | .identity id, u => u = id.serial
  | .argument _ d, u => g.touched d u
  | _, _ => False

/-- What can change in an open loop: lines are queued, and entries of touched vertices set aside. -/
structure Loop.Stays (T : Nat → Prop) (l l' : Loop) : Prop where
  vars : l'.vars = l.vars
  index : l'.index = l.index
  depth : l'.depth = l.depth
  length : l'.length = l.length
  start : l'.start = l.start
  closed : l'.closed = l.closed
  queued : l.queued <+: l'.queued
  results : ∀ k, ¬ T k → l'.results[k]? = l.results[k]?
  arrays : ∀ k, ¬ T k → l'.arrays[k]? = l.arrays[k]?

namespace Loop.Stays

variable {T T' : Nat → Prop} {l l' l'' : Loop}

theorem refl (l : Loop) : l.Stays T l :=
  ⟨rfl,rfl,rfl,rfl,rfl,rfl,List.prefix_rfl,fun _ _ => rfl,fun _ _ => rfl⟩

theorem trans (h : l.Stays T l') (h' : l'.Stays T l'') : l.Stays T l'' where
  vars := h'.vars.trans h.vars
  index := h'.index.trans h.index
  depth := h'.depth.trans h.depth
  length := h'.length.trans h.length
  start := h'.start.trans h.start
  closed := h'.closed.trans h.closed
  queued := h.queued.trans h'.queued
  results := fun k hk => (h'.results k hk).trans (h.results k hk)
  arrays := fun k hk => (h'.arrays k hk).trans (h.arrays k hk)

theorem mono (h : l.Stays T l') (hT : ∀ k, T k → T' k) : l.Stays T' l' :=
  { h with
    results := fun k hk => h.results k fun hT' => hk (hT k hT')
    arrays := fun k hk => h.arrays k fun hT' => hk (hT k hT') }

end Loop.Stays

/-- The same loops are open before and after, and what was opened in between is closed. -/
structure Draft.Balanced (T : Nat → Prop) (c c' : Draft) : Prop where
  stack : c'.stack = c.stack
  running : c'.running = c.running
  bindings : ∀ k : Nat, c'.bindings[k]? = c.bindings[k]?
  columns : c'.columns = c.columns
  preamble : c'.preamble = c.preamble
  finished : c'.finished = c.finished
  opened : c'.opened = c.opened
  body : c.body <+: c'.body
  loops : ∀ h l, c.loops[h]? = some l →
    ∃ l', c'.loops[h]? = some l' ∧ l.Stays T l' ∧ (h ∉ c.stack → l' = l)
  new : ∀ h l, c.loops.length ≤ h → c'.loops[h]? = some l → l.closed = true
  results : ∀ k, ¬ T k → c'.results[k]? = c.results[k]?
  arrays : ∀ k, ¬ T k → c'.arrays[k]? = c.arrays[k]?

namespace Draft

/-- The `k`-th open loop, the outermost being the first. -/
def Opens (c : Draft) (k : Nat) (l : Loop) : Prop :=
  ∃ h, c.stack[k]? = some h ∧ c.loops[h]? = some l

/-- The open loops stay, with what they bind; the code grows. -/
structure Follows (T : Nat → Prop) (c c' : Draft) : Prop where
  stack : c'.stack = c.stack
  bindings : ∀ k : Nat, c'.bindings[k]? = c.bindings[k]?
  columns : c'.columns = c.columns
  body : c.body <+: c'.body
  loops : ∀ (h : Nat) (l : Loop), c.loops[h]? = some l → ∃ l', c'.loops[h]? = some l' ∧ l.Stays T l'

namespace Follows

variable {T : Nat → Prop} {c c' : Draft}

theorem depth_eq (h : c.Follows T c') : c'.depth = c.depth := congrArg List.length h.stack

theorem opens (h : c.Follows T c') {k : Nat} {l' : Loop} (hv : ∀ k < c.depth, ∃ l, c.Opens k l)
    (hl : c'.Opens k l') : ∃ l, c.Opens k l ∧ l.Stays T l' := by
  obtain ⟨i,hk,hi⟩ := hl
  rw [h.stack] at hk
  have hlt : k < c.depth := (List.getElem?_eq_some_iff.mp hk).1
  obtain ⟨l,j,hj,hl⟩ := hv k hlt
  obtain rfl : i = j := Option.some.inj (hk.symm.trans hj)
  obtain ⟨l'',hl'',hs⟩ := h.loops i l hl
  obtain rfl : l'' = l' := Option.some.inj (hl''.symm.trans hi)
  exact ⟨l,⟨i,hj,hl⟩,hs⟩

theorem opens_of_opens (h : c.Follows T c') {k : Nat} {l : Loop} (hl : c.Opens k l) :
    ∃ l', c'.Opens k l' ∧ l.Stays T l' := by
  obtain ⟨i,hk,hi⟩ := hl
  obtain ⟨l',hl',hs⟩ := h.loops i l hi
  exact ⟨l',⟨i,h.stack ▸ hk,hl'⟩,hs⟩

end Follows

namespace Balanced

variable {T T' : Nat → Prop} {c c' c'' : Draft}

theorem refl (c : Draft) : c.Balanced T c where
  stack := rfl
  running := rfl
  bindings := fun _ => rfl
  columns := rfl
  preamble := rfl
  finished := rfl
  opened := rfl
  body := List.prefix_rfl
  loops := fun _ l hl => ⟨l,hl,.refl l,fun _ => rfl⟩
  new := fun h l hle hl => by
    rw [List.getElem?_eq_none hle] at hl
    cases hl
  results := fun _ _ => rfl
  arrays := fun _ _ => rfl

theorem trans (h : c.Balanced T c') (h' : c'.Balanced T c'') : c.Balanced T c'' where
  stack := h'.stack.trans h.stack
  running := h'.running.trans h.running
  bindings := fun k => (h'.bindings k).trans (h.bindings k)
  columns := h'.columns.trans h.columns
  preamble := h'.preamble.trans h.preamble
  finished := h'.finished.trans h.finished
  opened := h'.opened.trans h.opened
  body := h.body.trans h'.body
  loops := fun i l hl => by
    obtain ⟨l',hl',hs,he⟩ := h.loops i l hl
    obtain ⟨l'',hl'',hs',he'⟩ := h'.loops i l' hl'
    refine ⟨l'',hl'',hs.trans hs',fun hn => ?_⟩
    rw [he' (h.stack ▸ hn), he hn]
  new := fun i l hle hl => by
    by_cases hi : c'.loops.length ≤ i
    · exact h'.new i l hi hl
    · -- A loop that was there after the first part is closed by then and stays so.
      have hget := List.getElem?_eq_getElem (Nat.lt_of_not_le hi)
      obtain ⟨l'',hl'',hs,_⟩ := h'.loops i _ hget
      obtain rfl : l'' = l := Option.some.inj (hl''.symm.trans hl)
      exact hs.closed.trans (h.new i _ hle hget)
  results := fun k hk => (h'.results k hk).trans (h.results k hk)
  arrays := fun k hk => (h'.arrays k hk).trans (h.arrays k hk)

theorem mono (h : c.Balanced T c') (hT : ∀ k, T k → T' k) : c.Balanced T' c' :=
  { h with
    loops := fun i l hl => by
      obtain ⟨l',hl',hs,he⟩ := h.loops i l hl
      exact ⟨l',hl',hs.mono hT,he⟩
    results := fun k hk => h.results k fun hT' => hk (hT k hT')
    arrays := fun k hk => h.arrays k fun hT' => hk (hT k hT') }

theorem of_eq (hs : c'.stack = c.stack) (hn : c'.running = c.running)
    (hb : c'.bindings = c.bindings) (hc : c'.columns = c.columns)
    (hp : c'.preamble = c.preamble) (hf : c'.finished = c.finished) (ho : c'.opened = c.opened)
    (hbody : c'.body = c.body) (hl : c'.loops = c.loops) (hr : c'.results = c.results)
    (ha : c'.arrays = c.arrays) : c.Balanced T c' where
  stack := hs
  running := hn
  bindings := fun _ => by rw [hb]
  columns := hc
  preamble := hp
  finished := hf
  opened := ho
  body := hbody ▸ List.prefix_rfl
  loops := fun i l hi => ⟨l,by rw [hl, hi],.refl l,fun _ => rfl⟩
  new := fun i l hle hi => by
    rw [hl, List.getElem?_eq_none hle] at hi
    cases hi
  results := fun _ _ => by rw [hr]
  arrays := fun _ _ => by rw [ha]

theorem follows (h : c.Balanced T c') : c.Follows T c' where
  stack := h.stack
  bindings := h.bindings
  columns := h.columns
  body := h.body
  loops := fun i l hl => by
    obtain ⟨l',hl',hs,_⟩ := h.loops i l hl
    exact ⟨l',hl',hs⟩

theorem depth_eq (h : c.Balanced T c') : c'.depth = c.depth := h.follows.depth_eq

end Balanced

end Draft

/-- The text of a loop's opening line. -/
def Loop.opening (l : Loop) : String := "for " ++ l.index ++ " in range(" ++ toString l.length ++ "):"

/-- What holds of the `k`-th open loop. -/
structure Loop.Sound (c : Draft) (k : Nat) (l : Loop) : Prop where
  closed : l.closed = false
  depth : l.depth = k + 1
  line : c.body[l.start]? = some ⟨k, l.opening⟩

namespace Draft

/-- No entry is bound deeper than the loops that are open around it. -/
structure Bounded (c : Draft) : Prop where
  results : ∀ (v : Nat) (e : Entry), c.results[v]? = some e → e.depth ≤ c.depth
  arrays : ∀ (v : Nat) (e : Entry), c.arrays[v]? = some e → e.depth ≤ c.depth
  resultsAside : ∀ k l, c.Opens k l → ∀ (v : Nat) (e : Entry), l.results[v]? = some e → e.depth < l.depth
  arraysAside : ∀ k l, c.Opens k l → ∀ (v : Nat) (e : Entry), l.arrays[v]? = some e → e.depth < l.depth

/-- The caches, the open loops and the accesses they bind fit together. -/
structure Sound (c : Draft) : Prop extends Bounded c where
  valid : ∀ k < c.depth, ∃ l, c.Opens k l
  loops : ∀ k l, c.Opens k l → l.Sound c k
  starts : ∀ i j l m, i < j → c.Opens i l → c.Opens j m → l.start < m.start
  disjoint : ∀ i j l m, i < j → c.Opens i l → c.Opens j m →
    ∀ a ∈ l.vars, ∀ b ∈ m.vars, a.serial ≠ b.serial
  bindings : ∀ v : Nat, c.bindings[v]?.isSome ↔ ∃ k l, c.Opens k l ∧ v ∈ l.vars.map (·.serial)
  registered : ∀ k l, c.Opens k l → ∀ id ∈ l.vars, (c.columns.get? id).isSome

namespace Sound

variable {T : Nat → Prop} {c c' : Draft}

/-- Steps that keep the open loops keep a draft sound, if its entries stay within bounds. -/
theorem follows (h : c.Sound) (hb : c.Follows T c') (hc : c'.Bounded) : c'.Sound where
  toBounded := hc
  valid := fun k hk => by
    obtain ⟨l,hl⟩ := h.valid k (hb.depth_eq ▸ hk)
    obtain ⟨l',hl',_⟩ := hb.opens_of_opens hl
    exact ⟨l',hl'⟩
  loops := fun k l' hl' => by
    obtain ⟨l,hl,hs⟩ := hb.opens h.valid hl'
    have hl := h.loops k l hl
    refine ⟨hs.closed.trans hl.closed,hs.depth.trans hl.depth,?_⟩
    obtain ⟨more,hmore⟩ := hb.body
    have hlt := (List.getElem?_eq_some_iff.mp hl.line).1
    rw [hs.start, ← hmore, List.getElem?_append_left hlt, hl.line, Loop.opening, Loop.opening,
      hs.index, hs.length]
  starts := fun i j l' m' hij hl' hm' => by
    obtain ⟨l,hl,hs⟩ := hb.opens h.valid hl'
    obtain ⟨m,hm,hs'⟩ := hb.opens h.valid hm'
    rw [hs.start, hs'.start]
    exact h.starts i j l m hij hl hm
  disjoint := fun i j l' m' hij hl' hm' => by
    obtain ⟨l,hl,hs⟩ := hb.opens h.valid hl'
    obtain ⟨m,hm,hs'⟩ := hb.opens h.valid hm'
    rw [hs.vars, hs'.vars]
    exact h.disjoint i j l m hij hl hm
  bindings := fun v => by
    rw [hb.bindings, h.bindings]
    constructor
    · rintro ⟨k,l,hl,hv⟩
      obtain ⟨l',hl',hs⟩ := hb.opens_of_opens hl
      exact ⟨k,l',hl',hs.vars ▸ hv⟩
    · rintro ⟨k,l',hl',hv⟩
      obtain ⟨l,hl,hs⟩ := hb.opens h.valid hl'
      exact ⟨k,l,hl,hs.vars ▸ hv⟩
  registered := fun k l' hl' id hid => by
    obtain ⟨l,hl,hs⟩ := hb.opens h.valid hl'
    rw [hb.columns]
    exact h.registered k l hl id (hs.vars ▸ hid)

end Sound

/-- A balanced change to a sound draft. -/
structure Moves (T : Nat → Prop) (c c' : Draft) : Prop where
  sound : c'.Sound
  balanced : c.Balanced T c'

theorem Bounded.of_eq {c c' : Draft} (h : c.Bounded) (hs : c'.stack = c.stack)
    (hl : c'.loops = c.loops) (hr : c'.results = c.results) (ha : c'.arrays = c.arrays) :
    c'.Bounded := by
  have hopens : ∀ {k l}, c'.Opens k l → c.Opens k l := fun ⟨i,hk,hi⟩ => ⟨i,hs ▸ hk,hl ▸ hi⟩
  refine ⟨fun v e he => ?_,fun v e he => ?_,fun k l hkl => h.resultsAside k l (hopens hkl),
    fun k l hkl => h.arraysAside k l (hopens hkl)⟩
  · rw [depth, hs]
    exact h.results v e (hr ▸ he)
  · rw [depth, hs]
    exact h.arrays v e (ha ▸ he)

theorem depthOf_le (c : Draft) (expr : String) : c.depthOf expr ≤ c.depth := Nat.min_le_right _ _

namespace Moves

variable {T T' : Nat → Prop} {c c' c'' : Draft}

theorem refl (h : c.Sound) : c.Moves T c := ⟨h,.refl c⟩

theorem trans (h : c.Moves T c') (h' : c'.Moves T c'') : c.Moves T c'' :=
  ⟨h'.sound,h.balanced.trans h'.balanced⟩

theorem mono (h : c.Moves T c') (hT : ∀ k, T k → T' k) : c.Moves T' c' :=
  ⟨h.sound,h.balanced.mono hT⟩

theorem of_bounded (h : c.Sound) (hb : c.Balanced T c') (hc : c'.Bounded) : c.Moves T c' :=
  ⟨h.follows hb.follows hc,hb⟩

theorem of_eq (h : c.Sound) (hs : c'.stack = c.stack) (hn : c'.running = c.running)
    (hb : c'.bindings = c.bindings) (hc : c'.columns = c.columns)
    (hp : c'.preamble = c.preamble) (hf : c'.finished = c.finished) (ho : c'.opened = c.opened)
    (hbody : c'.body = c.body) (hl : c'.loops = c.loops) (hr : c'.results = c.results)
    (ha : c'.arrays = c.arrays) : c.Moves T c' :=
  of_bounded h (.of_eq hs hn hb hc hp hf ho hbody hl hr ha) (h.toBounded.of_eq hs hl hr ha)

theorem write (h : c.Sound) (ls : List Line) : c.Moves T { c with body := c.body ++ ls } := by
  have hb : c.Balanced T { c with body := c.body ++ ls } :=
    { Balanced.refl c with body := List.prefix_append _ _ }
  exact of_bounded h hb (h.toBounded.of_eq rfl rfl rfl rfl)

theorem modifyLoop (h : c.Sound) {d i : Nat} (hi : c.stack[d]? = some i) {f : Loop → Loop}
    (hf : ∀ l : Loop, l.Stays T (f l))
    (hr : ∀ l, l.depth = d + 1 → ∀ (v : Nat) (e : Entry), (f l).results[v]? = some e →
      l.results[v]? = some e ∨ e.depth ≤ d)
    (ha : ∀ l, l.depth = d + 1 → ∀ (v : Nat) (e : Entry), (f l).arrays[v]? = some e →
      l.arrays[v]? = some e ∨ e.depth ≤ d) : c.Moves T (c.modifyLoop i f) := by
  have hget : ∀ j l, c.loops[j]? = some l →
      (c.modifyLoop i f).loops[j]? = some (if i = j then f l else l) := by
    intro j l hl
    rw [Draft.modifyLoop, List.getElem?_modify, hl]
    split <;> rfl
  have hb : c.Balanced T (c.modifyLoop i f) :=
    { Balanced.refl c with
      loops := fun j l hl => by
        refine ⟨_,hget j l hl,?_,fun hn => ?_⟩
        · split
          · exact hf l
          · exact .refl l
        · rw [if_neg]
          rintro rfl
          exact hn (List.mem_of_getElem? hi)
      new := fun j l hle hl => by
        have hnone : (c.modifyLoop i f).loops[j]? = none := by
          rw [Draft.modifyLoop, List.getElem?_modify, List.getElem?_eq_none hle]
          rfl
        rw [hnone] at hl
        cases hl }
  -- An open loop is the changed one or as before; the changed one has the depth of its place.
  have hopens : ∀ k l', (c.modifyLoop i f).Opens k l' → ∃ l, c.Opens k l ∧
      (l' = l ∨ l' = f l ∧ l.depth = d + 1 ∧ (f l).depth = d + 1) := by
    rintro k l' ⟨j,hj,hl'⟩
    obtain ⟨l,j',hj',hl⟩ := h.valid k (List.getElem?_eq_some_iff.mp hj).1
    obtain rfl : j = j' := Option.some.inj (hj.symm.trans hj')
    have heq := Option.some.inj (hl'.symm.trans (hget j l hl))
    refine ⟨l,⟨j,hj,hl⟩,?_⟩
    by_cases hij : i = j
    · subst hij
      have hd := (h.loops d l ⟨i,hi,hl⟩).depth
      rw [if_pos rfl] at heq
      exact .inr ⟨heq,hd,(hf l).depth.trans hd⟩
    · rw [if_neg hij] at heq
      exact .inl heq
  refine of_bounded h hb ⟨h.results,h.arrays,fun k l' hl' v e he => ?_,fun k l' hl' v e he => ?_⟩
  · obtain ⟨l,hl,rfl | ⟨rfl,hd,hd'⟩⟩ := hopens k l' hl'
    · exact h.resultsAside k _ hl v e he
    · rcases hr l hd v e he with he | he
      · rw [hd', ← hd]
        exact h.resultsAside k l hl v e he
      · omega
  · obtain ⟨l,hl,rfl | ⟨rfl,hd,hd'⟩⟩ := hopens k l' hl'
    · exact h.arraysAside k _ hl v e he
    · rcases ha l hd v e he with he | he
      · rw [hd', ← hd]
        exact h.arraysAside k l hl v e he
      · omega

theorem queueAt (h : c.Sound) (d : Nat) (ls : List Line) : c.Moves T (c.queueAt d ls) := by
  rw [Draft.queueAt]
  split
  · rename_i i hi
    exact modifyLoop h hi (fun l => { Loop.Stays.refl (T := T) l with queued := List.prefix_append _ _ })
      (fun _ _ _ _ he => .inl he) fun _ _ _ _ he => .inl he
  · exact refl h

theorem introduce (h : c.Sound) (o : Options) (name statement : String) (d : Nat) :
    c.Moves T (c.introduce o name statement d) := by
  simp only [Draft.introduce]
  generalize (if o.hoist then d else c.depth) = d
  have hnames : c.Moves T { c with
      taken := name :: c.taken
      bindingDepths := (name, d) :: c.bindingDepths } :=
    of_eq h rfl rfl rfl rfl rfl rfl rfl rfl rfl rfl rfl
  split
  · exact hnames.trans (write hnames.sound _)
  · exact hnames.trans (queueAt hnames.sound _ _)

theorem freshTemp (h : c.Sound) (o : Options) : c.Moves T (c.freshTemp o).2 :=
  of_eq h rfl rfl rfl rfl rfl rfl rfl rfl rfl rfl rfl

theorem freshArray (h : c.Sound) (o : Options) : c.Moves T (c.freshArray o).2 :=
  of_eq h rfl rfl rfl rfl rfl rfl rfl rfl rfl rfl rfl

theorem bindFresh (h : c.Sound) (o : Options) (expr : String) :
    c.Moves T (c.bindFresh o expr).2 :=
  (freshTemp h o).trans (introduce (freshTemp (T := T) h o).sound _ _ _ _)

theorem insertResult (h : c.Sound) {v : Nat} (hv : T v) {e : Entry} (he : e.depth ≤ c.depth) :
    c.Moves T { c with results := c.results.insert v e } := by
  have hb : c.Balanced T { c with results := c.results.insert v e } :=
    { Balanced.refl c with results := fun _ hk => Cache.getElem?_insert_off hv hk }
  refine of_bounded h hb ⟨fun k e' he' => ?_,h.arrays,h.resultsAside,h.arraysAside⟩
  rcases Cache.eq_or_of_insert he' with rfl | he'
  · exact he
  · exact h.results k e' he'

theorem insertArray (h : c.Sound) {v : Nat} (hv : T v) {e : Entry} (he : e.depth ≤ c.depth) :
    c.Moves T { c with arrays := c.arrays.insert v e } := by
  have hb : c.Balanced T { c with arrays := c.arrays.insert v e } :=
    { Balanced.refl c with arrays := fun _ hk => Cache.getElem?_insert_off hv hk }
  refine of_bounded h hb ⟨h.results,fun k e' he' => ?_,h.resultsAside,h.arraysAside⟩
  rcases Cache.eq_or_of_insert he' with rfl | he'
  · exact he
  · exact h.arrays k e' he'

theorem setResultAside (h : c.Sound) {v : Nat} (hv : T v) {e : Entry} {d : Nat}
    (he : e.depth < d) : c.Moves T (c.setResultAside v e d) := by
  rw [Draft.setResultAside]
  split
  · rename_i i hi
    have hstays : ∀ l : Loop, l.Stays T { l with results := l.results.insert v e } := fun l =>
      { Loop.Stays.refl (T := T) l with results := fun _ hk => Cache.getElem?_insert_off hv hk }
    have hm := modifyLoop h hi hstays (fun l _ k e' he' => ?_) fun _ _ _ _ he => .inl he
    · refine hm.trans (of_bounded hm.sound ?_ ?_)
      · exact { Balanced.refl _ with results := fun _ hk => Cache.getElem?_erase_off hv hk }
      · exact ⟨fun k e' he' => h.results k e' (Cache.of_erase he'),hm.sound.arrays,
          hm.sound.resultsAside,hm.sound.arraysAside⟩
    · rcases Cache.eq_or_of_insert he' with rfl | he'
      · exact .inr (by omega)
      · exact .inl he'
  · exact refl h

theorem setArrayAside (h : c.Sound) {v : Nat} (hv : T v) {e : Entry} {d : Nat}
    (he : e.depth < d) : c.Moves T (c.setArrayAside v e d) := by
  rw [Draft.setArrayAside]
  split
  · rename_i i hi
    have hstays : ∀ l : Loop, l.Stays T { l with arrays := l.arrays.insert v e } := fun l =>
      { Loop.Stays.refl (T := T) l with arrays := fun _ hk => Cache.getElem?_insert_off hv hk }
    have hm := modifyLoop h hi hstays (fun _ _ _ _ he => .inl he) fun l _ k e' he' => ?_
    · refine hm.trans (of_bounded hm.sound ?_ ?_)
      · exact { Balanced.refl _ with arrays := fun _ hk => Cache.getElem?_erase_off hv hk }
      · exact ⟨hm.sound.results,fun k e' he' => h.arrays k e' (Cache.of_erase he'),
          hm.sound.resultsAside,hm.sound.arraysAside⟩
    · rcases Cache.eq_or_of_insert he' with rfl | he'
      · exact .inr (by omega)
      · exact .inl he'
  · exact refl h

end Moves

end Draft

end FitCode
