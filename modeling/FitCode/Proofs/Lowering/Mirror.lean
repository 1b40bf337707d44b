import FitCode.Proofs.Graph.Renaming
import FitCode.Proofs.Lowering.Nesting

/-! # Two lowerings side by side

Drafts of isomorphic graphs mirror each other if they have the same code, names and counters, and the
same entries for corresponding vertices. Labels are nowhere in the code, and nothing depends on the
order of serial numbers: caches are only looked up, and what is listed stays in order.
-/
namespace FitCode

variable {e : Nat ≃ Nat}

section

variable {α β γ : Type} {R : α → β → Prop} {as : List α} {bs : List β}

theorem forall₂_getElem? (h : List.Forall₂ R as bs) (i : Nat) : Option.Rel R as[i]? bs[i]? := by
  induction h generalizing i with
  | nil => exact .none
  | cons hab _ ih =>
    cases i with
    | zero => exact .some hab
    | succ i => exact ih i

theorem forall₂_modify {f : α → α} {f' : β → β} (h : List.Forall₂ R as bs)
    (hf : ∀ a b, R a b → R (f a) (f' b)) (i : Nat) : List.Forall₂ R (as.modify i f) (bs.modify i f') := by
  induction h generalizing i with
  | nil => simp
  | cons hab h ih =>
    cases i with
    | zero => exact .cons (hf _ _ hab) h
    | succ i => exact .cons hab (ih i)

theorem forall₂_map_eq {f : α → γ} {f' : β → γ} (h : List.Forall₂ R as bs)
    (hf : ∀ a b, R a b → f' b = f a) : bs.map f' = as.map f := by
  induction h with
  | nil => rfl
  | cons hab _ ih => rw [List.map_cons, List.map_cons, ih, hf _ _ hab]

variable {p : α → Bool} {q : β → Bool} (h : List.Forall₂ R as bs) (hpq : ∀ a b, R a b → q b = p a)

include h hpq

theorem forall₂_all : bs.all q = as.all p := by
  have hmap := congrArg (·.all id) (forall₂_map_eq h hpq)
  simpa only [List.all_map, Function.id_comp] using hmap

theorem forall₂_any : bs.any q = as.any p := by
  have hmap := congrArg (·.any id) (forall₂_map_eq h hpq)
  simpa only [List.any_map, Function.id_comp] using hmap

theorem forall₂_find? : Option.Rel R (as.find? p) (bs.find? q) := by
  induction h with
  | nil => exact .none
  | @cons a b as bs hab _ ih =>
    rw [List.find?_cons, List.find?_cons, hpq a b hab]
    cases p a with
    | true => exact .some hab
    | false => exact ih

theorem forall₂_dropWhile : List.Forall₂ R (as.dropWhile p) (bs.dropWhile q) := by
  induction h with
  | nil => exact .nil
  | @cons a b as bs hab h ih =>
    rw [List.dropWhile_cons, List.dropWhile_cons, hpq a b hab]
    split
    · exact ih
    · exact .cons hab h

end

theorem Identity.Renames.same {a a' b b' : Identity} (ha : Identity.Renames e a a')
    (hb : Identity.Renames e b b') : a'.same b' = a.same b := by
  rw [Identity.same, Identity.same, ha, hb, beq_rename]

/-- The same entries for corresponding vertices. -/
def SameEntries {M α : Type} {valid : M → Nat → Prop} [GetElem? M Nat α valid] (e : Nat ≃ Nat)
    (m m' : M) : Prop := ∀ v : Nat, m'[e v]? = m[v]?

namespace SameEntries

section

variable {α : Type} {m m' : Std.TreeMap Nat α} {ids ids' : List Identity}

theorem empty : SameEntries e (∅ : Std.TreeMap Nat α) ∅ := by
  intro v
  rw [Std.TreeMap.getElem?_emptyc, Std.TreeMap.getElem?_emptyc]

theorem insert (h : SameEntries e m m') (v : Nat) (x : α) :
    SameEntries e (m.insert v x) (m'.insert (e v) x) := by
  intro w
  simp only [Std.TreeMap.getElem?_insert, compare_eq_iff_eq, e.apply_eq_iff_eq, h w]

theorem erase (h : SameEntries e m m') (v : Nat) : SameEntries e (m.erase v) (m'.erase (e v)) := by
  intro w
  simp only [Std.TreeMap.getElem?_erase, compare_eq_iff_eq, e.apply_eq_iff_eq, h w]

theorem foldl_insert {F F' : Identity → α} (h : SameEntries e m m')
    (hids : List.Forall₂ (Identity.Renames e) ids ids') (hF : ∀ a b, Identity.Renames e a b → F' b = F a) :
    SameEntries e (ids.foldl (fun m id => m.insert id.serial (F id)) m)
      (ids'.foldl (fun m id => m.insert id.serial (F' id)) m') := by
  induction hids generalizing m m' with
  | nil => exact h
  | cons hab _ ih =>
    rw [List.foldl_cons, List.foldl_cons, hF _ _ hab, hab]
    exact ih (h.insert _ _)

theorem foldl_erase (h : SameEntries e m m') (hids : List.Forall₂ (Identity.Renames e) ids ids') :
    SameEntries e (ids.foldl (fun m id => m.erase id.serial) m)
      (ids'.foldl (fun m id => m.erase id.serial) m') := by
  induction hids generalizing m m' with
  | nil => exact h
  | cons hab _ ih =>
    rw [List.foldl_cons, List.foldl_cons, hab]
    exact ih (h.erase _)

theorem get {M : Type} {valid : M → Nat → Prop} [GetElem? M Nat α valid] {m m' : M}
    (h : SameEntries e m m') {a b : Identity} (hab : Identity.Renames e a b) :
    m'[b.serial]? = m[a.serial]? := by
  rw [hab, h]

theorem contains (h : SameEntries e m m') (v : Nat) : m'.contains (e v) = m.contains v := by
  rw [Std.TreeMap.contains_eq_isSome_getElem?, Std.TreeMap.contains_eq_isSome_getElem?, h v]

end

section

variable {m m' n n' : Cache}

theorem noEntries : SameEntries e (∅ : Cache) ∅ := by
  intro v
  rw [Cache.getElem?_empty, Cache.getElem?_empty]

theorem cache (h : SameEntries e m m') (v : Nat) (x : Entry) :
    SameEntries e (m.insert v x) (m'.insert (e v) x) := by
  intro w
  simp only [Cache.getElem?_insert, e.apply_eq_iff_eq, h w]

theorem uncache (h : SameEntries e m m') (v : Nat) : SameEntries e (m.erase v) (m'.erase (e v)) := by
  intro w
  simp only [Cache.getElem?_erase, e.apply_eq_iff_eq, h w]

theorem cached (h : SameEntries e m m') (v : Nat) : m'.contains (e v) = m.contains v := by
  rw [Cache.contains_eq_isSome, Cache.contains_eq_isSome, h v]

theorem below (h : SameEntries e m m') (d : Nat) : SameEntries e (m.below d) (m'.below d) := by
  intro w
  rw [Cache.getElem?_below, Cache.getElem?_below, h w]

theorem orElse (h : SameEntries e m m') (h' : SameEntries e n n') :
    SameEntries e (m.orElse n) (m'.orElse n') := by
  intro w
  rw [Cache.getElem?_orElse, Cache.getElem?_orElse, h w, h' w]

end

end SameEntries

structure Loop.Mirrors (e : Nat ≃ Nat) (l l' : Loop) : Prop where
  vars : List.Forall₂ (Identity.Renames e) l.vars l'.vars
  index : l'.index = l.index
  depth : l'.depth = l.depth
  length : l'.length = l.length
  start : l'.start = l.start
  queued : l'.queued = l.queued
  results : SameEntries e l.results l'.results
  arrays : SameEntries e l.arrays l'.arrays
  closed : l'.closed = l.closed

/-- The same code and names, and corresponding entries. The nodes that were called, the loops that
commands opened and the next serial number are in no text, so that they may differ. -/
structure Draft.Mirrors (e : Nat ≃ Nat) (c c' : Draft) : Prop where
  results : SameEntries e c.results c'.results
  arrays : SameEntries e c.arrays c'.arrays
  columns : c.columns.Renames e c'.columns
  bindings : SameEntries e c.bindings c'.bindings
  preamble : c'.preamble = c.preamble
  body : c'.body = c.body
  loops : List.Forall₂ (Loop.Mirrors e) c.loops c'.loops
  stack : c'.stack = c.stack
  tempCount : c'.tempCount = c.tempCount
  arrayCount : c'.arrayCount = c.arrayCount
  loopCount : c'.loopCount = c.loopCount
  taken : c'.taken = c.taken
  bindingDepths : c'.bindingDepths = c.bindingDepths
  finished : c'.finished = c.finished

namespace Draft.Mirrors

variable {c c' : Draft} (h : c.Mirrors e c')

include h

theorem depth : c'.depth = c.depth := congrArg List.length h.stack

theorem bindingDepth (name : String) : c'.bindingDepth name = c.bindingDepth name := by
  rw [Draft.bindingDepth, Draft.bindingDepth, h.bindingDepths]

theorem depthOf (expr : String) : c'.depthOf expr = c.depthOf expr := by
  have hdepth : c'.bindingDepth = c.bindingDepth := by
    funext name
    exact h.bindingDepth name
  rw [Draft.depthOf, Draft.depthOf, hdepth, h.depth]

theorem freeNumber (stem : String) (k : Nat) : c'.freeNumber stem k = c.freeNumber stem k := by
  rw [Draft.freeNumber, Draft.freeNumber, h.taken]

theorem loop? (i : Nat) : Option.Rel (Loop.Mirrors e) (c.loop? i) (c'.loop? i) :=
  forall₂_getElem? h.loops i

theorem openLoops : List.Forall₂ (Loop.Mirrors e) c.openLoops c'.openLoops := by
  rw [Draft.openLoops, Draft.openLoops, h.stack]
  exact List.rel_filterMap (R := Eq) (fun i j hij => hij ▸ h.loop? i) (List.forall₂_refl _)

theorem innermost? : Option.Rel (Loop.Mirrors e) c.innermost? c'.innermost? := by
  rw [Draft.innermost?, Draft.innermost?, h.stack]
  cases c.stack.getLast? with
  | none => exact .none
  | some i => exact h.loop? i

theorem innermost_index : c'.innermost?.map (·.index) = c.innermost?.map (·.index) := by
  have hi := h.innermost?
  generalize c.innermost? = l at hi ⊢
  generalize c'.innermost? = l' at hi ⊢
  cases hi with
  | none => rfl
  | some hl => exact congrArg some hl.index

theorem indexed (o : Options) (index : String) {a b : Identity} (hab : Identity.Renames e a b) :
    c'.indexed o index b = c.indexed o index a := by
  rw [Draft.indexed, Draft.indexed, h.columns.get? hab]

theorem modifyLoop {f k : Loop → Loop} (hf : ∀ l l', l.Mirrors e l' → (f l).Mirrors e (k l')) (i : Nat) :
    (c.modifyLoop i f).Mirrors e (c'.modifyLoop i k) :=
  { h with loops := forall₂_modify h.loops hf i }

theorem queueAt (d : Nat) (ls : List Line) : (c.queueAt d ls).Mirrors e (c'.queueAt d ls) := by
  rw [Draft.queueAt, Draft.queueAt, h.stack]
  cases c.stack[d]? with
  | none => exact h
  | some i =>
    refine h.modifyLoop (fun l l' hl => ?_) i
    exact { hl with queued := congrArg (· ++ ls) hl.queued }

theorem freshTemp (o : Options) :
    (c'.freshTemp o).1 = (c.freshTemp o).1 ∧ (c.freshTemp o).2.Mirrors e (c'.freshTemp o).2 := by
  have hname := h.freeNumber o.tempStem c.tempCount
  rw [Draft.freshTemp, Draft.freshTemp, h.tempCount, hname, h.depth, h.taken, h.bindingDepths]
  exact ⟨rfl,{ h with tempCount := rfl, taken := rfl, bindingDepths := rfl }⟩

theorem freshArray (o : Options) :
    (c'.freshArray o).1 = (c.freshArray o).1 ∧ (c.freshArray o).2.Mirrors e (c'.freshArray o).2 := by
  have hname := h.freeNumber o.arrayStem c.arrayCount
  rw [Draft.freshArray, Draft.freshArray, h.arrayCount, hname]
  exact ⟨rfl,{ h with arrayCount := rfl }⟩

theorem introduce (o : Options) (name statement : String) (d : Nat) :
    (c.introduce o name statement d).Mirrors e (c'.introduce o name statement d) := by
  rw [Draft.introduce, Draft.introduce, h.depth, h.taken, h.bindingDepths]
  generalize (if o.hoist = true then d else c.depth) = d
  have hm : Mirrors e { c with taken := name :: c.taken, bindingDepths := (name, d) :: c.bindingDepths }
      { c' with taken := name :: c.taken, bindingDepths := (name, d) :: c.bindingDepths } :=
    { h with taken := rfl, bindingDepths := rfl }
  dsimp only
  rw [hm.depth]
  split
  · exact { hm with body := congrArg (· ++ _) hm.body }
  · exact hm.queueAt _ _

theorem bindFresh (o : Options) (expr : String) :
    (c'.bindFresh o expr).1 = (c.bindFresh o expr).1 ∧
      (c.bindFresh o expr).2.Mirrors e (c'.bindFresh o expr).2 := by
  obtain ⟨hname,hm⟩ := h.freshTemp o
  refine ⟨hname,?_⟩
  rw [Draft.bindFresh, Draft.bindFresh]
  dsimp only
  rw [hname, hm.depthOf]
  exact hm.introduce o _ _ _

theorem withLoop (o : Options) {vars vars' : List Identity}
    (hvars : List.Forall₂ (Identity.Renames e) vars vars') (length : Nat) :
    (c.withLoop o vars length).Mirrors e (c'.withLoop o vars' length) := by
  have hindex : numbered o.loopStem c'.loopCount = numbered o.loopStem c.loopCount := by rw [h.loopCount]
  rw [Draft.withLoop, Draft.withLoop, hindex, h.loopCount, h.depth, h.body, h.stack, h.taken,
    h.bindingDepths, ← h.loops.length_eq]
  exact { h with
    loopCount := rfl
    body := rfl
    loops := List.rel_append h.loops (.cons ⟨hvars,rfl,rfl,rfl,rfl,rfl,.noEntries,.noEntries,rfl⟩ .nil)
    stack := rfl
    bindingDepths := rfl
    taken := rfl
    bindings := h.bindings.foldl_insert hvars fun a b => h.indexed o _ }

theorem withoutLoop (i : Nat) {l l' : Loop} (hl : l.Mirrors e l') :
    (c.withoutLoop i l).Mirrors e (c'.withoutLoop i l') := by
  have hm := h.modifyLoop (f := fun l => { l with closed := true }) (k := fun l => { l with closed := true })
    (fun l l' hl => { hl with closed := rfl }) i
  rw [Draft.withoutLoop, Draft.withoutLoop, hl.depth]
  exact { hm with
    stack := congrArg List.dropLast hm.stack
    bindings := hm.bindings.foldl_erase hl.vars
    results := hl.results.orElse (hm.results.below _)
    arrays := hl.arrays.orElse (hm.arrays.below _) }

theorem atTop : c.atTop.Mirrors e c'.atTop :=
  { h with
    stack := rfl
    bindings := .empty
    body := rfl
    results := h.results.below 1
    arrays := h.arrays.below 1 }

theorem backTo {outer outer' : Draft} (ho : outer.Mirrors e outer') :
    (c.backTo outer).Mirrors e (c'.backTo outer') :=
  { h with
    stack := ho.stack
    bindings := ho.bindings
    body := ho.body
    results := ho.results
    arrays := ho.arrays }

theorem adopt {inner inner' : Draft} (hi : inner.Mirrors e inner') :
    (c.adopt inner).Mirrors e (c'.adopt inner') := by
  rw [Draft.adopt, Draft.adopt, hi.body]
  exact { h.queueAt 0 inner.body with
    results := h.results.orElse hi.results
    arrays := h.arrays.orElse hi.arrays }

variable {a b : Identity} (hab : Identity.Renames e a b)

include hab

theorem insertResult (x : Entry) : Mirrors e { c with results := c.results.insert a.serial x }
    { c' with results := c'.results.insert b.serial x } := by
  rw [hab]
  exact { h with results := h.results.cache a.serial x }

theorem insertArray (x : Entry) : Mirrors e { c with arrays := c.arrays.insert a.serial x }
    { c' with arrays := c'.arrays.insert b.serial x } := by
  rw [hab]
  exact { h with arrays := h.arrays.cache a.serial x }

theorem setResultAside (x : Entry) (d : Nat) :
    (c.setResultAside a.serial x d).Mirrors e (c'.setResultAside b.serial x d) := by
  rw [Draft.setResultAside, Draft.setResultAside, h.stack, hab]
  cases c.stack[d - 1]? with
  | none => exact h
  | some i =>
    have hm := h.modifyLoop (f := fun l => { l with results := l.results.insert a.serial x })
      (k := fun l => { l with results := l.results.insert (e a.serial) x })
      (fun l l' hl => { hl with results := hl.results.cache a.serial x }) i
    exact { hm with results := h.results.uncache a.serial }

theorem setArrayAside (x : Entry) (d : Nat) :
    (c.setArrayAside a.serial x d).Mirrors e (c'.setArrayAside b.serial x d) := by
  rw [Draft.setArrayAside, Draft.setArrayAside, h.stack, hab]
  cases c.stack[d - 1]? with
  | none => exact h
  | some i =>
    have hm := h.modifyLoop (f := fun l => { l with arrays := l.arrays.insert a.serial x })
      (k := fun l => { l with arrays := l.arrays.insert (e a.serial) x })
      (fun l l' hl => { hl with arrays := hl.arrays.cache a.serial x }) i
    exact { hm with arrays := h.arrays.uncache a.serial }

end Draft.Mirrors

end FitCode
