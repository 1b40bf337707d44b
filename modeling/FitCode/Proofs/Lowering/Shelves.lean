import FitCode.Proofs.Lowering.Naming

/-! # What a step sets aside

An entry that holds a whole column is set aside in the innermost loop over one of its observables until
that loop closes. `Shelves` says what a step does to names, entries and open loops, read off the way it is
put together, and lists what it sets aside. It covers steps that fail. Every request is such a step.
-/
namespace FitCode

open Emit

/-- Results and arrays are cached alike. -/
inductive Shelf where
  | results
  | arrays
  deriving DecidableEq

/-- What a loop has set aside. -/
def Loop.aside (l : Loop) : Shelf → Cache
  | .results => l.results
  | .arrays => l.arrays

/-- The entry of a vertex is set aside in a loop. -/
structure Shelving where
  loop : Nat
  shelf : Shelf
  vertex : Nat
  deriving DecidableEq

namespace Draft

def cache (c : Draft) : Shelf → Cache
  | .results => c.results
  | .arrays => c.arrays

def setAside (c : Draft) (k : Nat) (e : Entry) (depth : Nat) : Shelf → Draft
  | .results => c.setResultAside k e depth
  | .arrays => c.setArrayAside k e depth

/-- The loops stay open, with what they iterate and have set aside; lines may be queued for them. -/
structure Frames (c c' : Draft) : Prop where
  stack : c'.stack = c.stack
  bindings : c'.bindings = c.bindings
  columns : c'.columns = c.columns
  loopCount : c'.loopCount = c.loopCount
  count : c'.loops.length = c.loops.length
  loops : ∀ (i : Nat) (l : Loop), c.loops[i]? = some l →
    ∃ queued, c'.loops[i]? = some { l with queued }

/-- Names and entries stay. -/
structure Notes (c c' : Draft) : Prop extends Frames c c' where
  taken : c'.taken = c.taken
  bindingDepths : c'.bindingDepths = c.bindingDepths
  results : c'.results = c.results
  arrays : c'.arrays = c.arrays

/-- One more name is bound. -/
structure Coins (P : String → Prop) (c : Draft) (name : String) (c' : Draft) : Prop extends
    Frames c c' where
  allowed : P name
  free : name ∉ c.taken
  taken : ∀ n, n ∈ c'.taken ↔ n = name ∨ n ∈ c.taken
  others : ∀ n, n ≠ name → c'.bindingDepth n = c.bindingDepth n
  results : c'.results = c.results
  arrays : c'.arrays = c.arrays

end Draft

namespace Setting

/-- What a step sets aside while loops at depth `b` and outside of it stay open. All names it binds are
allowed ones. What is set aside at top level concerns no loop outside. -/
inductive Shelves (s : Setting) (P : String → Prop) :
    Nat → {α : Type} → Emit α → Draft → List Shelving → Prop
  | note {b : Nat} {α : Type} {x : Emit α} {c : Draft} (h : c.Notes (x.outcome c).2) :
    Shelves s P b x c []
  | coin {b : Nat} {α : Type} {x : Emit α} {c : Draft} {name : String}
    (h : c.Coins P name (x.outcome c).2) : Shelves s P b x c []
  | register {b : Nat} {α : Type} {x : Emit α} {c : Draft} {k : Nat} {text : String}
    (hnew : c.results[k]? = none)
    (h : (x.outcome c).2 = { c with results := c.results.insert k ⟨text, c.depthOf text⟩ }) :
    Shelves s P b x c []
  | build {b : Nat} {α β : Type} {x : Emit α} {f : α → Emit β} {c c' c'' : Draft} {a : α} {k : Nat}
    {name : String} {es : List Shelving} (hnew : c.arrays[k]? = none) (hx : x.Gives c a c')
    (hs : c'.stack = c.stack) (h : Shelves s P b x c es) (hname : c'.Coins P name c'')
    (hf : ((f a).outcome c').2 =
      { c'' with arrays := c''.arrays.insert k ⟨name, c''.bindingDepth name⟩ }) :
    Shelves s P b (x >>= f) c es
  | bind {b : Nat} {α β : Type} {x : Emit α} {f : α → Emit β} {c c' : Draft} {a : α}
    {es fs : List Shelving} (hx : x.Gives c a c') (h : Shelves s P b x c es)
    (hf : Shelves s P b (f a) c' fs) : Shelves s P b (x >>= f) c (es ++ fs)
  | stop {b : Nat} {α β : Type} {x : Emit α} {f : α → Emit β} {c c' : Draft} {e : Fault}
    {es : List Shelving} (hx : x.outcome c = (.error e, c')) (h : Shelves s P b x c es) :
    Shelves s P b (x >>= f) c es
  | attempt {b : Nat} {α : Type} {x : Emit α} {c : Draft} {es : List Shelving}
    (h : Shelves s P b x c es) : Shelves s P b (Emit.attempt x) c es
  | aside {b : Nat} {c : Draft} {shelf : Shelf} {k d i : Nat} {e : Entry} (hc : c.Sound)
    (he : (c.cache shelf)[k]? = some e) (hd : s.iterationDepth c (.object k) = .ok d)
    (hlt : e.depth < d) (hi : c.stack[d - 1]? = some i) :
    Shelves s P b (set (c.setAside k e d shelf)) c [⟨i, shelf, k⟩]
  | opens {b : Nat} {node : Datum} {vars : List Identity} {length : Nat} {c : Draft} (hc : c.Sound)
    (h : (s.openLoop node).Gives c c.loops.length (c.withLoop s.options vars length))
    (hfree : ∀ id ∈ vars, c.bindings[id.serial]? = none) : Shelves s P b (s.openLoop node) c []
  | closes {b i : Nat} {l : Loop} {c : Draft} (hc : c.Sound) (hb : b < c.depth)
    (hi : c.stack.getLast? = some i) (hl : c.loops[i]? = some l) : Shelves s P b (closeLoop i) c []
  | lifted {b : Nat} {x : Emit Unit} {c inner : Draft} {T : Nat → Prop} {es : List Shelving}
    (hc : c.Sound) (hx : x.Gives c.atTop ⟨⟩ inner) (hm : c.atTop.Moves T inner)
    (h : Shelves s P 0 x c.atTop es) : Shelves s P b (atTopLevel x) c []
  | dropped {b : Nat} {x : Emit Unit} {c inner : Draft} {e : Fault} {T : Nat → Prop}
    {es : List Shelving} (hc : c.Sound) (hx : x.outcome c.atTop = (.error e, inner))
    (hm : c.atTop.Moves T inner) (h : Shelves s P 0 x c.atTop es) : Shelves s P b (atTopLevel x) c []

end Setting

namespace Draft

variable {P : String → Prop} {c c₀ c' c'' : Draft}

theorem Frames.of_eq (hs : c'.stack = c.stack) (hb : c'.bindings = c.bindings)
    (hc : c'.columns = c.columns) (hn : c'.loopCount = c.loopCount) (hl : c'.loops = c.loops) :
    c.Frames c' := ⟨hs,hb,hc,hn,by rw [hl],fun i l h => ⟨l.queued,hl ▸ h⟩⟩

theorem Frames.trans (h : c.Frames c') (h' : c'.Frames c'') : c.Frames c'' where
  stack := h'.stack.trans h.stack
  bindings := h'.bindings.trans h.bindings
  columns := h'.columns.trans h.columns
  loopCount := h'.loopCount.trans h.loopCount
  count := h'.count.trans h.count
  loops := fun i l hl => by
    obtain ⟨q,hq⟩ := h.loops i l hl
    obtain ⟨q',hq'⟩ := h'.loops i _ hq
    exact ⟨q',hq'⟩

theorem frames_queue (c : Draft) (i : Nat) (ls : List Line) :
    c.Frames (c.modifyLoop i fun l => { l with queued := l.queued ++ ls }) where
  stack := rfl
  bindings := rfl
  columns := rfl
  loopCount := rfl
  count := List.length_modify _ _ _
  loops := fun j l hl => by
    rw [modifyLoop, List.getElem?_modify, hl]
    by_cases hij : i = j
    · exact ⟨l.queued ++ ls,by simp [hij]⟩
    · exact ⟨l.queued,by simp [hij]⟩

theorem Notes.of_eq (hs : c'.stack = c.stack) (hb : c'.bindings = c.bindings)
    (hc : c'.columns = c.columns) (hn : c'.loopCount = c.loopCount) (hl : c'.loops = c.loops)
    (ht : c'.taken = c.taken) (hd : c'.bindingDepths = c.bindingDepths) (hr : c'.results = c.results)
    (ha : c'.arrays = c.arrays) : c.Notes c' := ⟨.of_eq hs hb hc hn hl,ht,hd,hr,ha⟩

theorem Notes.refl (c : Draft) : c.Notes c := .of_eq rfl rfl rfl rfl rfl rfl rfl rfl rfl

theorem notes_queue (c : Draft) (i : Nat) (ls : List Line) :
    c.Notes (c.modifyLoop i fun l => { l with queued := l.queued ++ ls }) :=
  ⟨frames_queue c i ls,rfl,rfl,rfl,rfl⟩

theorem notes_queueAt (c : Draft) (d : Nat) (ls : List Line) : c.Notes (c.queueAt d ls) := by
  rw [queueAt]
  split
  · exact notes_queue _ _ _
  · exact .refl c

theorem introduce_frames (c : Draft) (o : Options) (name statement : String) (d : Nat) :
    c.Frames (c.introduce o name statement d) ∧
      (c.introduce o name statement d).results = c.results ∧
      (c.introduce o name statement d).arrays = c.arrays ∧
      (c.introduce o name statement d).bindingDepths =
        (name, if o.hoist then d else c.depth) :: c.bindingDepths := by
  simp only [introduce]
  generalize (if o.hoist = true then d else c.depth) = D
  split
  · exact ⟨.of_eq rfl rfl rfl rfl rfl,rfl,rfl,rfl⟩
  · have hnamed : c.Frames { c with taken := name :: c.taken, bindingDepths := (name, D) :: c.bindingDepths } :=
      .of_eq rfl rfl rfl rfl rfl
    have hqueue := notes_queueAt { c with
      taken := name :: c.taken, bindingDepths := (name, D) :: c.bindingDepths } D (Line.ofSnippet statement D)
    exact ⟨hnamed.trans hqueue.toFrames,hqueue.results,hqueue.arrays,hqueue.bindingDepths⟩

theorem coins_introduce {name : String} (hf : c.Frames c₀) (hr : c₀.results = c.results)
    (ha : c₀.arrays = c.arrays) (ht : ∀ n, n ∈ c₀.taken → n = name ∨ n ∈ c.taken)
    (ht' : ∀ n ∈ c.taken, n ∈ c₀.taken)
    (hd : ∀ n, n ≠ name → c₀.bindingDepth n = c.bindingDepth n) (hP : P name) (hfree : name ∉ c.taken)
    (o : Options) (statement : String) (d : Nat) :
    c.Coins P name (c₀.introduce o name statement d) := by
  obtain ⟨hframes,hresults,harrays,hdepths⟩ := introduce_frames c₀ o name statement d
  refine ⟨hf.trans hframes,hP,hfree,fun n => ?_,fun n hn => ?_,hresults.trans hr,harrays.trans ha⟩
  · rw [(taken_introduce c₀ o name statement d).1, List.mem_cons]
    constructor
    · rintro (h | h)
      · exact .inl h
      · exact ht n h
    · exact fun h => h.imp_right (ht' n)
  · rw [← hd n hn, bindingDepth, bindingDepth, hdepths, List.lookup_cons, beq_false_of_ne hn]

theorem coins_freshTemp (c : Draft) (o : Options) (hP : ∀ k, P (numbered o.tempStem k)) :
    c.Coins P (c.freshTemp o).1 (c.freshTemp o).2 where
  toFrames := .of_eq rfl rfl rfl rfl rfl
  allowed := hP _
  free := firstFree_free _
  taken := fun n => List.mem_cons
  others := fun n hn => by
    rw [bindingDepth, bindingDepth]
    change (((c.freshTemp o).1, c.depth) :: c.bindingDepths |>.lookup n).getD 0 = _
    rw [List.lookup_cons, beq_false_of_ne hn]
  results := rfl
  arrays := rfl

theorem coins_bindFresh (c : Draft) (o : Options) (hP : ∀ k, P (numbered o.tempStem k)) (expr : String) :
    c.Coins P (c.bindFresh o expr).1 (c.bindFresh o expr).2 := by
  have hfresh := coins_freshTemp c o hP
  exact coins_introduce hfresh.toFrames rfl rfl (fun n => (hfresh.taken n).mp)
    (fun n hn => (hfresh.taken n).mpr (.inr hn)) hfresh.others hfresh.allowed hfresh.free o _ _

end Draft

/-- A loop that has set an entry aside. -/
def Loop.shelve (l : Loop) (k : Nat) (e : Entry) : Shelf → Loop
  | .results => { l with results := l.results.insert k e }
  | .arrays => { l with arrays := l.arrays.insert k e }

theorem Loop.getElem?_aside_shelve (l : Loop) (k : Nat) (e : Entry) (shelf shelf' : Shelf) (k' : Nat) :
    ((l.shelve k e shelf).aside shelf')[k']? =
      if shelf = shelf' ∧ k = k' then some e else (l.aside shelf')[k']? := by
  cases shelf <;> cases shelf' <;> simp [shelve, aside, Cache.getElem?_insert]

theorem Loop.aside_queued (l : Loop) (queued : List Line) (shelf : Shelf) :
    ({ l with queued }.aside shelf) = l.aside shelf := by
  cases shelf <;> rfl

theorem Loop.vars_shelve (l : Loop) (k : Nat) (e : Entry) (shelf : Shelf) : (l.shelve k e shelf).vars = l.vars := by
  cases shelf <;> rfl

namespace Draft

variable {c c' inner : Draft} {T : Nat → Prop}

theorem setAside_eq (shelf : Shelf) (k : Nat) {d i : Nat} (e : Entry) (hi : c.stack[d - 1]? = some i) :
    (c.setAside k e d shelf).loops = c.loops.modify i (·.shelve k e shelf) ∧
      (c.setAside k e d shelf).stack = c.stack ∧ (c.setAside k e d shelf).bindings = c.bindings ∧
      (c.setAside k e d shelf).columns = c.columns ∧ (c.setAside k e d shelf).loopCount = c.loopCount ∧
      (c.setAside k e d shelf).taken = c.taken ∧ (c.setAside k e d shelf).bindingDepths = c.bindingDepths := by
  cases shelf <;> simp only [setAside, setResultAside, setArrayAside, hi] <;>
    exact ⟨rfl,rfl,rfl,rfl,rfl,rfl,rfl⟩

theorem getElem?_cache_setAside {shelf : Shelf} {k d i : Nat} (e : Entry) (hi : c.stack[d - 1]? = some i)
    (shelf' : Shelf) (k' : Nat) : ((c.setAside k e d shelf).cache shelf')[k']? =
      if shelf = shelf' ∧ k = k' then none else (c.cache shelf')[k']? := by
  cases shelf <;> cases shelf' <;>
    simp [setAside, setResultAside, setArrayAside, hi, cache, modifyLoop, Cache.getElem?_erase]

theorem cache_congr (hr : c'.results = c.results) (ha : c'.arrays = c.arrays) : c'.cache = c.cache := by
  funext shelf
  cases shelf with
  | results => exact hr
  | arrays => exact ha

theorem getElem?_cache_insertResult (c : Draft) (k : Nat) (e : Entry) (shelf : Shelf) (k' : Nat) :
    ({ c with results := c.results.insert k e }.cache shelf)[k']? =
      if shelf = .results ∧ k = k' then some e else (c.cache shelf)[k']? := by
  cases shelf <;> simp [cache, Cache.getElem?_insert]

theorem getElem?_cache_insertArray (c : Draft) (k : Nat) (e : Entry) (shelf : Shelf) (k' : Nat) :
    ({ c with arrays := c.arrays.insert k e }.cache shelf)[k']? =
      if shelf = .arrays ∧ k = k' then some e else (c.cache shelf)[k']? := by
  cases shelf <;> simp [cache, Cache.getElem?_insert]

theorem getElem?_cache_withoutLoop (c : Draft) (body : Listing) (i : Nat) (l : Loop) (shelf : Shelf) (k : Nat) :
    (({ c with body }.withoutLoop i l).cache shelf)[k]? =
      ((l.aside shelf)[k]?).or (((c.cache shelf).below l.depth)[k]?) := by
  cases shelf <;> exact Cache.getElem?_orElse _ _ _

theorem getElem?_cache_adopt (shelf : Shelf) (k : Nat) :
    (((inner.backTo c).adopt inner).cache shelf)[k]? = ((c.cache shelf)[k]?).or ((inner.cache shelf)[k]?) := by
  cases shelf with
  | results =>
    have h := Cache.getElem?_orElse (inner.backTo c).results inner.results k
    exact h
  | arrays =>
    have h := Cache.getElem?_orElse (inner.backTo c).arrays inner.arrays k
    exact h

end Draft

namespace Setting

/-- The loop iterates an observable that the vertex depends on. -/
def Iterates (s : Setting) (c : Draft) (k : Nat) (l : Loop) : Prop :=
  ∃ ids, s.inputs c (.object k) = .ok ids ∧ ∃ v ∈ l.vars, ∃ i ∈ ids, i.same v = true

variable {s : Setting} {P : String → Prop} {c : Draft}

theorem inputs_congr (s : Setting) {c c' : Draft} (h : c'.columns = c.columns) (d : Datum) :
    s.inputs c' d = s.inputs c d := by
  cases d with
  | object v => simp only [inputs, h]
  | _ => rfl

theorem Iterates.congr {c' : Draft} {k : Nat} {l l' : Loop} (h : s.Iterates c k l)
    (hc : c'.columns = c.columns) (hl : l'.vars = l.vars) : s.Iterates c' k l' := by
  obtain ⟨ids,hids,v,hv,i,hi,hsame⟩ := h
  exact ⟨ids,(s.inputs_congr hc _).trans hids,v,hl ▸ hv,i,hi,hsame⟩

theorem getElem?_openLoops (hc : c.Sound) (p : Nat) (l : Loop) :
    c.openLoops[p]? = some l ↔ c.Opens p l := by
  have hget : ∀ hs : List Nat, (∀ i ∈ hs, (c.loop? i).isSome = true) →
      (hs.filterMap c.loop?)[p]? = hs[p]?.bind c.loop? := by
    intro hs
    induction hs generalizing p with
    | nil => simp
    | cons i hs ih =>
      intro hsome
      obtain ⟨l,hl⟩ := Option.isSome_iff_exists.mp (hsome i (by simp))
      rw [List.filterMap_cons, hl]
      cases p with
      | zero => simp [hl]
      | succ p => simpa using ih p fun j hj => hsome j (by simp [hj])
  rw [Draft.openLoops, hget c.stack]
  · exact Option.bind_eq_some_iff
  · intro i hi
    rw [Draft.loop?, List.getElem?_eq_getElem (hc.lt_length hi)]
    rfl

/-- The depth at which a value is bound is that of the innermost loop over one of its observables, unless
it is lifted. -/
theorem iterationDepth_spec (hc : c.Sound) {d : Datum} {n : Nat} (hd : s.iterationDepth c d = .ok n) :
    (s.isLiftable c d = .ok true ∧ n = 0) ∨
      (∀ v p l, d = .object v → n ≤ p → c.Opens p l → ¬ s.Iterates c v l) ∧
      (0 < n → ∃ v i l, d = .object v ∧ c.stack[n - 1]? = some i ∧ c.loops[i]? = some l ∧ s.Iterates c v l) := by
  rw [iterationDepth] at hd
  split at hd
  · rename_i hempty
    cases hd
    refine .inr ⟨fun v p l _ _ hl => ?_,fun hn => absurd hn (Nat.lt_irrefl 0)⟩
    have hlt := Draft.opens_lt hl
    rw [Draft.depth, List.isEmpty_iff.mp hempty] at hlt
    cases hlt
  cases hlift : s.isLiftable c d with
  | error e => simp [hlift, bind, Except.bind] at hd
  | ok lift =>
    simp only [hlift, bind, Except.bind] at hd
    split at hd
    · cases hd
      exact .inl ⟨by rw [‹lift = true›],rfl⟩
    refine .inr ?_
    cases hids : s.inputs c d with
    | error e => simp [hids] at hd
    | ok ids =>
      simp only [hids, pure, Except.pure, Except.ok.injEq] at hd
      have hiter : ∀ l : Loop, (l.vars.any fun v => ids.any fun i => i.same v) = true ↔
          ∃ v ∈ l.vars, ∃ i ∈ ids, i.same v = true := fun l => by simp [List.any_eq_true]
      cases hfind : c.openLoops.reverse.find? fun l => l.vars.any fun v => ids.any fun i => i.same v with
      | none =>
        rw [hfind] at hd
        cases hd
        refine ⟨?_,fun hn => absurd hn (Nat.lt_irrefl 0)⟩
        rintro v p l rfl _ hl ⟨ids',hids',hiter'⟩
        cases hids.symm.trans hids'
        have hmem := List.mem_of_getElem? ((getElem?_openLoops hc p l).mpr hl)
        exact List.find?_eq_none.mp hfind l (List.mem_reverse.mpr hmem) ((hiter l).mpr hiter')
      | some l =>
        rw [hfind] at hd
        obtain ⟨hl,as,bs,hsplit,has⟩ := List.find?_eq_some_iff_append.mp hfind
        have hopen : c.openLoops = bs.reverse ++ l :: as.reverse := by
          rw [← List.reverse_reverse c.openLoops, hsplit]
          simp
        have hat : c.Opens bs.length l := by
          refine (getElem?_openLoops hc _ _).mp ?_
          rw [hopen, List.getElem?_append_right (by simp)]
          simp
        have hdepth : n = bs.length + 1 := by
          rw [← hd]
          exact (hc.loops _ l hat).depth
        refine ⟨?_,fun _ => ?_⟩
        · -- A loop further inside was passed over.
          rintro v p l' rfl hp hl' ⟨ids',hids',hiter'⟩
          cases hids.symm.trans hids'
          have hmem : l' ∈ as := by
            have hget' := (getElem?_openLoops hc p l').mpr hl'
            rw [hopen, List.getElem?_append_right (by simp; omega), List.length_reverse,
              List.getElem?_cons, if_neg (by omega)] at hget'
            exact List.mem_reverse.mp (List.mem_of_getElem? hget')
          have hno := has l' hmem
          rw [(hiter l').mpr hiter'] at hno
          cases hno
        · obtain ⟨v,rfl⟩ : ∃ v, d = .object v := by
            cases d with
            | object v => exact ⟨v,rfl⟩
            | _ =>
              cases hids
              simp at hl
          obtain ⟨i,hi,hget⟩ := hat
          exact ⟨v,i,l,rfl,by rw [hdepth]; exact hi,hget,ids,hids,(hiter l).mp hl⟩

/-- Names that are minted are allowed. -/
structure Allows (s : Setting) (P : String → Prop) : Prop where
  temp : ∀ k, P (numbered s.options.tempStem k)
  array : ∀ k, P (numbered s.options.arrayStem k)

variable {α β : Type}

theorem Shelves.get_bind {b : Nat} {es : List Shelving} {f : Draft → Emit α} (h : s.Shelves P b (f c) c es) :
    s.Shelves P b (get >>= f) c es := by
  have hget : Gives (get : Emit Draft) c c c := rfl
  have hlog : s.Shelves P b (get >>= f) c ([] ++ es) := .bind hget (.note (.refl c)) h
  exact hlog

/-- From `c` the step is balanced, and there is a list of what it sets aside. -/
def ShelvedAt (s : Setting) (P : String → Prop) (x : Emit α) (c : Draft) : Prop :=
  c.Moves (fun _ => True) (x.outcome c).2 ∧ ∀ b ≤ c.depth, ∃ es, s.Shelves P b x c es

/-- So it is from every sound draft. -/
def Shelved (s : Setting) (P : String → Prop) (x : Emit α) : Prop := ∀ c : Draft, c.Sound → s.ShelvedAt P x c

theorem ShelvedAt.of_notes {x : Emit α} (hm : c.Moves (fun _ => True) (x.outcome c).2)
    (h : c.Notes (x.outcome c).2) : s.ShelvedAt P x c := ⟨hm,fun _ _ => ⟨[],.note h⟩⟩

theorem ShelvedAt.of_coins {x : Emit α} {name : String} (hm : c.Moves (fun _ => True) (x.outcome c).2)
    (h : c.Coins P name (x.outcome c).2) : s.ShelvedAt P x c := ⟨hm,fun _ _ => ⟨[],.coin h⟩⟩

theorem ShelvedAt.of_same {x : Emit α} (hc : c.Sound) (h : (x.outcome c).2 = c) : s.ShelvedAt P x c :=
  .of_notes (h.symm ▸ .refl hc) (h.symm ▸ .refl c)

theorem ShelvedAt.bind {x : Emit α} {f : α → Emit β} (hx : s.ShelvedAt P x c)
    (hf : ∀ a c', x.Gives c a c' → c.Moves (fun _ => True) c' → s.ShelvedAt P (f a) c') :
    s.ShelvedAt P (x >>= f) c := by
  obtain ⟨hm,hlog⟩ := hx
  rw [ShelvedAt, outcome_bind]
  rcases hr : x.outcome c with ⟨r,c'⟩
  rw [hr] at hm
  cases r with
  | error e => exact ⟨hm,fun b hb => (hlog b hb).imp fun es hes => .stop hr hes⟩
  | ok a =>
    obtain ⟨hm',hlog'⟩ := hf a c' hr hm
    refine ⟨hm.trans hm',fun b hb => ?_⟩
    obtain ⟨es,hes⟩ := hlog b hb
    obtain ⟨fs,hfs⟩ := hlog' b (hm.balanced.depth_eq ▸ hb)
    exact ⟨es ++ fs,.bind hr hes hfs⟩

namespace Shelved

variable {x : Emit α} {f : α → Emit β}

theorem pure (a : α) : s.Shelved P (pure a : Emit α) := fun _ hc => .of_same hc rfl

theorem throw (e : Fault) : s.Shelved P (throw e : Emit α) := fun _ hc => .of_same hc rfl

theorem bind (hx : s.Shelved P x) (hf : ∀ a, s.Shelved P (f a)) : s.Shelved P (x >>= f) :=
  fun c hc => (hx c hc).bind fun a c' _ hm => hf a c' hm.sound

theorem attempt (hx : s.Shelved P x) : s.Shelved P (Emit.attempt x) := by
  intro c hc
  obtain ⟨hm,hlog⟩ := hx c hc
  exact ⟨hm,fun b hb => (hlog b hb).imp fun es hes => .attempt hes⟩

theorem get_bind {f : Draft → Emit α} (hf : ∀ c : Draft, c.Sound → s.ShelvedAt P (f c) c) :
    s.Shelved P (get >>= f) := by
  intro c hc
  obtain ⟨hm,hlog⟩ := hf c hc
  exact ⟨hm,fun b hb => (hlog b hb).imp fun es hes => .get_bind hes⟩

theorem composes (s : Setting) (P : String → Prop) : Composes (s.Shelved P) where
  pure := pure
  throw := throw
  bind := bind
  get_bind hf := get_bind fun c hc => hf c c hc

theorem ofExcept (r : Except Fault α) : s.Shelved P (Emit.ofExcept r) := (composes s P).ofExcept r

theorem throw_bind (e : Fault) (f : α → Emit β) : s.Shelved P (MonadExcept.throw e >>= f) :=
  (composes s P).throw_bind e f

theorem ofExcept_bind {r : Except Fault α} (hf : ∀ a, r = .ok a → s.Shelved P (f a)) :
    s.Shelved P (Emit.ofExcept r >>= f) := (composes s P).ofExcept_bind hf

theorem mapM {as : List α} (hf : ∀ a, s.Shelved P (f a)) : s.Shelved P (as.mapM f) :=
  (composes s P).mapM fun a _ => hf a

theorem ite {p : Prop} [Decidable p] {y : Emit α} (hx : s.Shelved P x) (hy : s.Shelved P y) :
    s.Shelved P (if p then x else y) := iteInduction (fun _ => hx) fun _ => hy

end Shelved

theorem shelved_write (s : Setting) (text : String) : s.Shelved P (s.write text) := fun c hc =>
  .of_notes (s.balances_write text c hc) (.of_eq rfl rfl rfl rfl rfl rfl rfl rfl rfl)

theorem shelved_freshTemp (hP : s.Allows P) : s.Shelved P s.freshTemp := fun c hc =>
  .of_coins (s.balances_freshTemp c hc) (c.coins_freshTemp s.options hP.temp)

theorem bindTemp_coins (hP : s.Allows P) {node : Datum} {expr name : String} {given : Option String}
    (hgiven : ∀ name, explicitName given = some name → P name) {c' : Draft}
    (h : (s.bindTemp node expr given).Gives c name c') : c.Coins P name c' := by
  rw [bindTemp, Gives, outcome_get_bind] at h
  cases hname : explicitName given with
  | none =>
    rw [hname] at h
    cases h
    exact c.coins_bindFresh s.options hP.temp expr
  | some n =>
    rw [hname] at h
    by_cases htaken : c.taken.contains n = true
    · simp only [htaken, if_true, identityOf] at h
      cases hid : s.graph.identityOf node <;> rw [hid] at h <;> cases h
    · simp only [htaken] at h
      cases h
      exact Draft.coins_introduce (.of_eq rfl rfl rfl rfl rfl) rfl rfl (fun n => .inr) (fun n hn => hn)
        (fun n _ => rfl) (hgiven name hname) (by simpa using htaken) _ _ _

theorem shelved_bindTemp (hP : s.Allows P) (node : Datum) (expr : String) {given : Option String}
    (hgiven : ∀ name, explicitName given = some name → P name) :
    s.Shelved P (s.bindTemp node expr given) := by
  intro c hc
  rcases s.bindTemp_cases node expr given c with ⟨e,he⟩ | ⟨name,c',h⟩
  · exact .of_same hc (by rw [he])
  · have hname : c.Coins P name ((s.bindTemp node expr given).outcome c).2 := by
      rw [h]
      exact bindTemp_coins hP hgiven h
    exact .of_coins (s.balances_bindTemp node expr given c hc) hname

theorem shelved_register (hP : s.Allows P) (node : Datum) (expr : String) (save : Bool) :
    s.Shelved P (s.register node expr save) := by
  refine .ofExcept_bind fun id _ => .get_bind fun c hc => ?_
  have hinsert : ∀ text (c : Draft), c.Sound → c.results[id.serial]? = none → s.ShelvedAt P (do
      modify fun c => { c with results := c.results.insert id.serial ⟨text, c.depthOf text⟩ }
      return text : Emit String) c := by
    intro text c hc hnew
    exact ⟨.insertResult hc trivial (c.depthOf_le text),fun b _ => ⟨[],.register hnew rfl⟩⟩
  cases hnew : c.results[id.serial]? with
  | some e => exact Shelved.throw_bind _ _ c hc
  | none =>
    cases save with
    | false => exact hinsert expr c hc hnew
    | true =>
      have hminted : ∀ name, explicitName none = some name → P name := fun _ h => by cases h
      refine (shelved_bindTemp hP node expr hminted c hc).bind fun name c' h hm => ?_
      have hresults := (bindTemp_coins hP hminted h).results
      exact hinsert name c' hm.sound (by rw [hresults]; exact hnew)

theorem shelves_leaveLoop {i : Nat} {l : Loop} (hc : c.Sound) (hi : c.stack.getLast? = some i)
    (hl : c.loops[i]? = some l) {b : Nat} (hb : b < c.depth) : s.Shelves P b (leaveLoop i) c [] := by
  have hopen : l.closed = false := (hc.loops _ l ⟨i,(Draft.getElem?_stack_last hi).1,hl⟩).closed
  refine .get_bind ?_
  rw [Draft.loop?, hl]
  simp only [hopen, Bool.not_false, if_true]
  exact .closes hc hb hi hl

theorem shelved_openLoop_bind (ho : s.options.Valid) (node : Datum) {x : Emit α} (hx : s.Shelved P x) :
    s.Shelved P (s.openLoop node >>= fun h => insideLoop h x) := by
  intro c hc
  refine ⟨balances_openLoop_bind ho node (fun c hc => (hx c hc).1) c hc,fun b hb => ?_⟩
  rcases s.openLoop_cases node c with ⟨e,he⟩ | ⟨vars,length,hopen,hfree,hreg⟩
  · exact ⟨[],.stop he (.note (he ▸ .refl c))⟩
  · have hin := hx _ (hc.withLoop ho hfree hreg length)
    obtain ⟨hm,hlog⟩ := hin
    obtain ⟨l,hlast,hl,-⟩ := Draft.Moves.loop hc hfree hm
    have hdepth : (c.withLoop s.options vars length).depth = c.depth + 1 := List.length_append
    obtain ⟨es,hes⟩ := hlog b (by omega)
    have hattempt : Gives (Emit.attempt x) (c.withLoop s.options vars length) _ _ := rfl
    refine ⟨_,.bind hopen (.opens hc hopen hfree) (.bind hattempt (.attempt hes)
      (.bind (leaveLoop_outcome hm.sound hlast hl) (shelves_leaveLoop hm.sound hlast hl ?_)
        (.note ?_)))⟩
    · rw [hm.balanced.depth_eq]
      omega
    · rw [outcome_ofExcept]
      exact .refl _

theorem shelved_atTopLevel {x : Emit Unit} (hx : s.Shelved P x) : s.Shelved P (atTopLevel x) := by
  intro c hc
  refine ⟨balances_atTopLevel (fun c hc => (hx c hc).1) c hc,fun b _ => ?_⟩
  obtain ⟨hm,hlog⟩ := hx c.atTop c.sound_atTop
  obtain ⟨es,hes⟩ := hlog 0 (Nat.zero_le _)
  rcases hr : x.outcome c.atTop with ⟨r,inner⟩
  rw [hr] at hm
  cases r with
  | error e => exact ⟨[],.dropped hc hr hm hes⟩
  | ok u => exact ⟨[],.lifted hc hr hm hes⟩

theorem moves_setAside (hc : c.Sound) {shelf : Shelf} {k d : Nat} {e : Entry} (hlt : e.depth < d) :
    c.Moves (fun _ => True) (c.setAside k e d shelf) := by
  cases shelf with
  | results => exact .setResultAside hc trivial hlt
  | arrays => exact .setArrayAside hc trivial hlt

theorem shelvedAt_setAside (shelf : Shelf) (hc : c.Sound) {d : Datum} {id : Identity} {e : Entry} {n : Nat}
    (hid : s.graph.identityOf d = .ok id) (he : (c.cache shelf)[id.serial]? = some e)
    (hd : s.iterationDepth c d = .ok n) (hlt : e.depth < n) {f : PUnit → Emit α}
    (hf : ∀ c' : Draft, c'.Sound → (c'.cache shelf)[id.serial]? = none → s.ShelvedAt P (f ⟨⟩) c') :
    s.ShelvedAt P (set (c.setAside id.serial e n shelf) >>= f) c := by
  obtain ⟨-,rfl⟩ | ⟨-,hpos⟩ := iterationDepth_spec hc hd
  · exact absurd hlt (Nat.not_lt_zero _)
  obtain ⟨v,i,l,rfl,hi,-⟩ := hpos (Nat.zero_lt_of_lt hlt)
  cases hid
  have hm : c.Moves (fun _ => True) (c.setAside v e n shelf) := moves_setAside hc hlt
  refine .bind (f := f) ⟨hm,fun b _ => ⟨_,.aside hc he hd hlt hi⟩⟩ fun _ c' h _ => ?_
  cases h
  refine hf _ hm.sound ?_
  rw [Draft.getElem?_cache_setAside e hi, if_pos ⟨rfl,rfl⟩]

section

variable {emit : Trail → Datum → Emit Unit} {node : Datum}

theorem shelved_registered (id : Identity) : s.Shelved P (do
    match (← get).results[id.serial]? with
    | some e => return e.text
    | none => throw (.noRegistration id.shown) : Emit String) := by
  refine .get_bind fun c hc => ?_
  cases c.results[id.serial]? with
  | some e => exact Shelved.pure _ c hc
  | none => exact Shelved.throw _ c hc

theorem shelved_whileLowering {x : Emit Unit} (hx : s.Shelved P x) (id : Identity) :
    s.Shelved P (whileLowering id x) := by
  intro c hc
  refine ⟨balances_whileLowering id (fun c hc => (hx c hc).1) c hc,fun b hb => ?_⟩
  obtain ⟨-,hlog⟩ := hx (c.entered id) (hc.running _)
  obtain ⟨es,hes⟩ := hlog b hb
  rcases hr : x.outcome (c.entered id) with ⟨r,c'⟩
  have hattempt : Gives (Emit.attempt x) (c.entered id) r c' := gives_attempt.mpr hr
  have henter : Gives (modify fun c => c.entered id : Emit PUnit) c ⟨⟩ (c.entered id) := rfl
  have hleave : Gives (modify fun c => c.left : Emit PUnit) c' ⟨⟩ c'.left := rfl
  refine ⟨_,.bind henter (.note (.of_eq rfl rfl rfl rfl rfl rfl rfl rfl rfl)) (.bind hattempt (.attempt hes)
    (.bind hleave (.note (.of_eq rfl rfl rfl rfl rfl rfl rfl rfl rfl)) (.note ?_)))⟩
  rw [outcome_ofExcept]
  exact .refl _

theorem shelved_lower (he : ∀ trail, s.Shelved P (emit trail node)) (trail : Trail) (id : Identity) :
    s.Shelved P (s.lower emit trail node id) := by
  have hend := shelved_registered (s := s) (P := P) id
  unfold lower
  refine .ite (.throw_bind _ _) (.ite (.throw_bind _ _) (.get_bind fun c hc => ?_))
  cases s.isLiftable c node with
  | error e => exact Shelved.throw e c hc
  | ok b =>
    cases b with
    | false => exact Shelved.bind (shelved_whileLowering (he _) id) (fun _ => hend) c hc
    | true => exact Shelved.bind (shelved_atTopLevel (shelved_whileLowering (he _) id)) (fun _ => hend) c hc

theorem shelved_resolve (he : ∀ trail, s.Shelved P (emit trail node)) (trail : Trail) :
    s.Shelved P (s.resolve emit trail node) := by
  unfold resolve
  refine .ite (.throw_bind _ _) (.ofExcept_bind fun id hid => .get_bind fun c hc => ?_)
  have hlower := shelved_lower he trail id
  cases c.bindings[id.serial]? with
  | some text => exact Shelved.pure text c hc
  | none =>
    cases hr : c.results[id.serial]? with
    | none => exact hlower c hc
    | some e =>
      cases hd : s.iterationDepth c node with
      | error e => exact Shelved.throw e c hc
      | ok depth =>
        change s.ShelvedAt P (if depth ≤ e.depth then _ else _) c
        split
        · exact Shelved.pure _ c hc
        · rename_i hle
          exact shelvedAt_setAside .results hc hid hr hd (Nat.lt_of_not_le hle)
            fun c' hc' _ => hlower c' hc'

end

section

variable {l : Lowerer}

theorem introduceArray_coins (hP : s.Allows P) (id : Identity) (texts : List String)
    {given : Option String} (hgiven : ∀ name, explicitName given = some name → P name) (c : Draft) :
    (∃ e, (s.introduceArray id texts given).outcome c = (.error e, c)) ∨
      ∃ name c'', c.Coins P name c'' ∧ ((s.introduceArray id texts given).outcome c) =
        (.ok name, { c'' with arrays := c''.arrays.insert id.serial ⟨name, c''.bindingDepth name⟩ }) := by
  unfold introduceArray
  rw [outcome_get_bind]
  cases hname : explicitName given with
  | some name =>
    by_cases htaken : c.taken.contains name = true
    · simp only [htaken, if_true]
      exact .inl ⟨_,rfl⟩
    · simp only [htaken]
      refine .inr ⟨name,_,?_,rfl⟩
      exact Draft.coins_introduce (.of_eq rfl rfl rfl rfl rfl) rfl rfl (fun n => .inr) (fun n hn => hn)
        (fun n _ => rfl) (hgiven name hname) (by simpa using htaken) _ _ _
  | none =>
    refine .inr ⟨(c.freshArray s.options).1,_,?_,rfl⟩
    have hframes : c.Frames (c.freshArray s.options).2 := .of_eq rfl rfl rfl rfl rfl
    have hfree : (c.freshArray s.options).1 ∉ c.taken := firstFree_free _
    exact Draft.coins_introduce hframes rfl rfl (fun n => .inr) (fun n hn => hn) (fun n _ => rfl)
      (hP.array _) hfree _ _ _

/-- The entries are lowered before the array is bound and cached. -/
theorem shelvedAt_build (hP : s.Allows P) {id : Identity} {x : Emit (List String)} {given : Option String}
    (hgiven : ∀ name, explicitName given = some name → P name) (hx : s.Shelved P x) (hc : c.Sound)
    (hnew : c.arrays[id.serial]? = none) :
    s.ShelvedAt P (x >>= fun texts => s.introduceArray id texts given) c := by
  obtain ⟨hm,hlog⟩ := hx c hc
  have hbalanced := Balances.bind (T := fun _ => True) (f := fun texts => s.introduceArray id texts given)
    (fun c hc => (hx c hc).1) (fun texts => balances_introduceArray trivial texts given) c hc
  refine ⟨hbalanced,fun b hb => ?_⟩
  obtain ⟨es,hes⟩ := hlog b hb
  rcases hr : x.outcome c with ⟨r,c'⟩
  rw [hr] at hm
  cases r with
  | error e => exact ⟨es,.stop hr hes⟩
  | ok texts =>
    rcases introduceArray_coins hP id texts hgiven c' with ⟨e,he⟩ | ⟨name,c'',hname,h⟩
    · exact ⟨es ++ [],.bind hr hes (.note (he ▸ .refl c'))⟩
    · exact ⟨es,.build hnew hr hm.balanced.stack hes hname (by rw [h])⟩

theorem shelved_arrayOf (hP : s.Allows P) (hl : ∀ trail d, s.Shelved P (l.resolve trail d)) (trail : Trail)
    (collection : Datum) {given : Option String} (hgiven : ∀ name, explicitName given = some name → P name) :
    s.Shelved P (s.arrayOf l trail collection given) := by
  refine .ofExcept_bind fun id hid => .get_bind fun c hc => ?_
  have hbuild : ∀ c : Draft, c.Sound → c.arrays[id.serial]? = none → s.ShelvedAt P (do
      let ms ← Emit.ofExcept (s.members collection)
      let texts ← ms.mapM fun m => l.resolve (trail.deeper 2) (s.graph.datum m)
      s.introduceArray id texts given : Emit String) c := by
    intro c hc hnew
    cases s.members collection with
    | error e => exact Shelved.throw e c hc
    | ok ms => exact shelvedAt_build hP hgiven (.mapM fun m => hl _ _) hc hnew
  cases ha : c.arrays[id.serial]? with
  | none => exact hbuild c hc ha
  | some e =>
    cases hd : s.iterationDepth c collection with
    | error e => exact Shelved.throw e c hc
    | ok depth =>
      change s.ShelvedAt P (if depth ≤ e.depth then _ else _) c
      split
      · exact Shelved.pure _ c hc
      · rename_i hle
        exact shelvedAt_setAside .arrays hc hid ha hd (Nat.lt_of_not_le hle) hbuild

theorem shelved_argumentCode (hP : s.Allows P) (hl : ∀ trail d, s.Shelved P (l.resolve trail d))
    (trail : Trail) (k : ArgumentKind) (d : Datum) : s.Shelved P (s.argumentCode l trail (k, d)) :=
  argumentCode_composes (Shelved.composes s P) (fun trail => hl trail d)
    (fun trail => shelved_arrayOf hP hl trail d fun _ h => by cases h) trail k

theorem shelved_argumentsCode (hP : s.Allows P) (hl : ∀ trail d, s.Shelved P (l.resolve trail d))
    (trail : Trail) (args : List Datum) : s.Shelved P (s.argumentsCode l trail args) :=
  argumentsCode_composes (Shelved.composes s P)
    (fun _ _ k d _ trail => shelved_argumentCode hP hl trail k d) trail

theorem shelved_callCode (hP : s.Allows P) (hl : ∀ trail d, s.Shelved P (l.resolve trail d)) (trail : Trail)
    (function : String) (args : List Datum) : s.Shelved P (s.callCode l trail function args) :=
  callCode_composes (Shelved.composes s P)
    (fun _ _ k d _ trail => shelved_argumentCode hP hl trail k d) trail function

theorem hooks_shelved (hP : s.Allows P) (ho : s.options.Valid) (v : Nat) : s.Hooks v (s.Shelved P) where
  toComposes := Shelved.composes s P
  count _ hc := .of_notes (.of_eq hc rfl rfl rfl rfl rfl rfl rfl rfl rfl rfl rfl)
    (.of_eq rfl rfl rfl rfl rfl rfl rfl rfl rfl)
  freshTemp := shelved_freshTemp hP
  write := s.shelved_write
  register := shelved_register hP _
  loop := shelved_openLoop_bind ho _

theorem shelved_emitNode (hP : s.Allows P) (ho : s.options.Valid) (hg : s.graph.Scriptless)
    (hl : ∀ trail d, s.Shelved P (l.resolve trail d)) (trail : Trail) (v : Nat) :
    s.Shelved P (s.emitNode l trail v) :=
  (hooks_shelved hP ho v).emitNode hg (fun _ _ trail => hl trail _)
    (fun _ _ trail => shelved_arrayOf hP hl trail _ fun _ h => by cases h) trail

theorem nested_shelved (hP : s.Allows P) (ho : s.options.Valid) (hg : s.graph.Scriptless) (n : Nat) :
    (∀ trail d, s.Shelved P ((s.nested n).resolve trail d)) ∧
      ∀ trail d, s.Shelved P ((s.nested n).emit trail d) := by
  induction n with
  | zero => exact ⟨fun _ _ => .throw _,fun _ _ => .throw _⟩
  | succ n ih =>
    have hemit : ∀ trail d, s.Shelved P (s.emit (s.nested n) trail d) := by
      intro trail d
      refine .ite (.throw_bind _ _) ?_
      cases d with
      | object v => exact shelved_emitNode hP ho hg ih.1 trail v
      | _ => exact .throw _
    exact ⟨fun trail d => shelved_resolve (fun trail => hemit trail d) trail,hemit⟩

end

end Setting

end FitCode
