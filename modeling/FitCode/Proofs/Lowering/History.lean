import FitCode.Proofs.Code.Layout
import FitCode.Proofs.Lowering.Invariant

/-! # The log of a session

A step is put together from few operations that emit something: they name, write, stage, open and
close. `Logs` reads the log of a step off the way it is put together, whether it succeeds or fails.
What a log implies is proved by induction on it; here we see that every session has one.
-/
namespace FitCode

open Emit

/-- Nothing changes that concerns the code of a loop. -/
structure Loop.Rests (l l' : Loop) : Prop where
  depth : l'.depth = l.depth
  start : l'.start = l.start
  queued : l'.queued = l.queued
  closed : l'.closed = l.closed

namespace Draft

/-- Nothing is emitted. Lines may still be queued for a loop that is closed; they go nowhere. -/
structure Quiet (c c' : Draft) : Prop where
  body : c'.body = c.body
  stack : c'.stack = c.stack
  taken : c'.taken = c.taken
  loopCount : c'.loopCount = c.loopCount
  count : c'.loops.length = c.loops.length
  loops : ∀ (h : Nat) (l : Loop), c.loops[h]? = some l → l.closed = false →
    ∃ l', c'.loops[h]? = some l' ∧ l.Rests l'

/-- A statement at depth `d`: it waits for the loop there, unless `d` is the current depth. -/
def placed (c : Draft) (d : Nat) (statement : String) : Event :=
  match c.stack[d]? with
  | some h => .staged h (Line.ofSnippet statement d)
  | none => .written (Line.ofSnippet statement d)

end Draft

namespace Setting

def originOf (name : Option String) : Origin := if (explicitName name).isSome then .given else .minted

/-- What a step emits from a draft. -/
inductive Logs (s : Setting) : {α : Type} → Emit α → Draft → List Event → Prop
  | quiet {α : Type} {x : Emit α} {c : Draft} (h : c.Quiet (x.outcome c).2) : Logs s x c []
  | bind {α β : Type} {x : Emit α} {f : α → Emit β} {c c' : Draft} {a : α} {es fs : List Event}
    (hx : x.Gives c a c') (h : Logs s x c es) (hf : Logs s (f a) c' fs) :
    Logs s (x >>= f) c (es ++ fs)
  | stop {α β : Type} {x : Emit α} {f : α → Emit β} {c c' : Draft} {e : Fault} {es : List Event}
    (hx : x.outcome c = (.error e, c')) (h : Logs s x c es) : Logs s (x >>= f) c es
  | attempt {α : Type} {x : Emit α} {c : Draft} {es : List Event} (h : Logs s x c es) :
    Logs s (Emit.attempt x) c es
  | freshTemp (c : Draft) : Logs s s.freshTemp c [.named (c.freshTemp s.options).1 .minted]
  | bindTemp {node : Datum} {expr name : String} {given : Option String} {c c' : Draft}
    (h : (s.bindTemp node expr given).Gives c name c') :
    Logs s (s.bindTemp node expr given) c
      [.named name (originOf given), c.placed (c'.bindingDepth name) (name ++ " = " ++ expr)]
  | introduceArray {id : Identity} {texts : List String} {name : String} {given : Option String}
    {c c' : Draft} (h : (s.introduceArray id texts given).Gives c name c') :
    Logs s (s.introduceArray id texts given) c
      [.named name (originOf given),
        c.placed (c'.bindingDepth name) (name ++ " = " ++ arrayCode texts)]
  | write (text : String) (c : Draft) :
    Logs s (s.write text) c [.written (Line.ofSnippet text c.depth)]
  | openLoop {node : Datum} {i : Nat} {l : Loop} {c c' : Draft} (h : (s.openLoop node).Gives c i c')
    (hl : c'.loops[i]? = some l) :
    Logs s (s.openLoop node) c [.named l.index .index, .opened i ⟨c.depth, l.opening⟩]
  | closeLoop {i : Nat} {l : Loop} {c c' : Draft} (h : (closeLoop i).Gives c ⟨⟩ c')
    (hl : c.loops[i]? = some l) :
    Logs s (FitCode.closeLoop i) c
      [.closed i (if (c.body.after (l.start + 1)).isEmpty then [⟨l.depth, "pass"⟩] else [])]
  | queue {i : Nat} {c : Draft} (hi : i ∈ c.stack) (ls : List Line) :
    Logs s (modify fun c => c.modifyLoop i fun l => { l with queued := l.queued ++ ls }) c
      [.staged i ls]
  | lifted {x : Emit Unit} {c inner : Draft} {i : Nat} {es : List Event}
    (hx : x.Gives c.atTop ⟨⟩ inner) (hs : inner.stack = []) (hi : c.stack.head? = some i)
    (h : Logs s x c.atTop es) : Logs s (atTopLevel x) c [.lifted i es inner.body]
  | dropped {x : Emit Unit} {c inner : Draft} {e : Fault} {es : List Event}
    (hx : x.outcome c.atTop = (.error e, inner)) (h : Logs s x c.atTop es) :
    Logs s (atTopLevel x) c [.dropped es]

/-- The log of commands, from the answers so far and the state. -/
inductive History (s : Setting) : List Answer × Draft → List Command → List Event → Prop
  | nil (now : List Answer × Draft) : History s now [] []
  | cons {now : List Answer × Draft} {command : Command} {commands : List Command}
    {es fs : List Event} (h : s.Logs (s.execute s.lowerer {} now.1 command) now.2 es)
    (hs : History s (s.after now command) commands fs) :
    History s now (command :: commands) (es ++ fs)

end Setting

theorem outcome_atTopLevel_ok {x : Emit Unit} {c inner : Draft} (hx : x.Gives c.atTop ⟨⟩ inner) :
    (atTopLevel x).outcome c = (.ok ⟨⟩, (inner.backTo c).adopt inner) := by
  simp only [atTopLevel, outcome_get_bind, outcome_set_bind, outcome_attempt_bind]
  rw [hx]
  rfl

theorem outcome_atTopLevel_error {x : Emit Unit} {c inner : Draft} {e : Fault}
    (hx : x.outcome c.atTop = (.error e, inner)) :
    (atTopLevel x).outcome c = (.error e, inner.backTo c) := by
  simp only [atTopLevel, outcome_get_bind, outcome_set_bind, outcome_attempt_bind]
  rw [hx]
  rfl

namespace Draft

variable {c c' : Draft}

theorem Quiet.of_eq (hb : c'.body = c.body) (hs : c'.stack = c.stack) (ht : c'.taken = c.taken)
    (hc : c'.loopCount = c.loopCount) (hl : c'.loops = c.loops) : c.Quiet c' :=
  ⟨hb,hs,ht,hc,by rw [hl],fun _ l hget _ => ⟨l,hl ▸ hget,rfl,rfl,rfl,rfl⟩⟩

theorem Quiet.refl (c : Draft) : c.Quiet c := .of_eq rfl rfl rfl rfl rfl

/-- Changing a loop that is closed, or what does not concern its code. -/
theorem Quiet.of_modify {i : Nat} {f : Loop → Loop} (hb : c'.body = c.body) (hs : c'.stack = c.stack)
    (ht : c'.taken = c.taken) (hc : c'.loopCount = c.loopCount) (hl : c'.loops = c.loops.modify i f)
    (hf : ∀ l, c.loops[i]? = some l → l.closed = false → l.Rests (f l)) : c.Quiet c' where
  body := hb
  stack := hs
  taken := ht
  loopCount := hc
  count := by rw [hl, List.length_modify]
  loops := fun h l hget hopen => by
    rw [hl, List.getElem?_modify, hget]
    by_cases hi : i = h
    · subst hi
      exact ⟨f l,by simp,hf l hget hopen⟩
    · exact ⟨l,by simp [hi],rfl,rfl,rfl,rfl⟩

theorem quiet_setResultAside (c : Draft) (k : Nat) (e : Entry) (d : Nat) :
    c.Quiet (c.setResultAside k e d) := by
  rw [setResultAside]
  split
  · exact .of_modify rfl rfl rfl rfl rfl fun l _ _ => ⟨rfl,rfl,rfl,rfl⟩
  · exact .refl c

theorem quiet_setArrayAside (c : Draft) (k : Nat) (e : Entry) (d : Nat) :
    c.Quiet (c.setArrayAside k e d) := by
  rw [setArrayAside]
  split
  · exact .of_modify rfl rfl rfl rfl rfl fun l _ _ => ⟨rfl,rfl,rfl,rfl⟩
  · exact .refl c

end Draft

namespace Setting

variable {s : Setting} {α β : Type} {c : Draft} {es : List Event}

theorem Logs.get_bind {f : Draft → Emit α} (h : s.Logs (f c) c es) : s.Logs (get >>= f) c es := by
  have hget : Gives (get : Emit Draft) c c c := rfl
  have hlogs : s.Logs (get >>= f) c ([] ++ es) := .bind hget (.quiet (.refl c)) h
  exact hlogs

theorem Logs.set_bind {d : Draft} (hd : c.Quiet d) {f : PUnit → Emit α} (h : s.Logs (f ⟨⟩) d es) :
    s.Logs (set d >>= f) c es := by
  have hset : Gives (set d : Emit PUnit) c ⟨⟩ d := rfl
  have hlogs : s.Logs (set d >>= f) c ([] ++ es) := .bind hset (.quiet hd) h
  exact hlogs

/-- From `c` the step has a log, and it leaves a sound draft. -/
def LoggedAt (s : Setting) (x : Emit α) (c : Draft) : Prop :=
  (∃ es, s.Logs x c es) ∧ (x.outcome c).2.Sound

/-- The step has a log from every sound draft. -/
def Logged (s : Setting) (x : Emit α) : Prop := ∀ c : Draft, c.Sound → s.LoggedAt x c

theorem LoggedAt.of_quiet {x : Emit α} (hq : c.Quiet (x.outcome c).2) (hc : (x.outcome c).2.Sound) :
    s.LoggedAt x c := ⟨⟨[],.quiet hq⟩,hc⟩

theorem LoggedAt.bind {x : Emit α} {f : α → Emit β} (hx : s.LoggedAt x c)
    (hf : ∀ a c', x.Gives c a c' → c'.Sound → s.LoggedAt (f a) c') : s.LoggedAt (x >>= f) c := by
  obtain ⟨⟨es,hes⟩,hsound⟩ := hx
  rw [LoggedAt, outcome_bind]
  rcases hr : x.outcome c with ⟨r,c'⟩
  rw [hr] at hsound
  cases r with
  | error e => exact ⟨⟨es,.stop hr hes⟩,hsound⟩
  | ok a =>
    obtain ⟨⟨fs,hfs⟩,hsound'⟩ := hf a c' hr hsound
    exact ⟨⟨es ++ fs,.bind hr hes hfs⟩,hsound'⟩

namespace Logged

variable {x : Emit α} {f : α → Emit β}

theorem of_quiet {T : Nat → Prop} (hx : x.Balances T) (hq : ∀ c : Draft, c.Quiet (x.outcome c).2) :
    s.Logged x := fun c hc => .of_quiet (hq c) (hx c hc).sound

theorem pure (a : α) : s.Logged (pure a : Emit α) := fun c hc => .of_quiet (.refl c) hc

theorem throw (e : Fault) : s.Logged (throw e : Emit α) := fun c hc => .of_quiet (.refl c) hc

theorem bind (hx : s.Logged x) (hf : ∀ a, s.Logged (f a)) : s.Logged (x >>= f) :=
  fun c hc => (hx c hc).bind fun a c' _ hc' => hf a c' hc'

theorem attempt (hx : s.Logged x) : s.Logged (Emit.attempt x) := by
  intro c hc
  obtain ⟨⟨es,hes⟩,hsound⟩ := hx c hc
  exact ⟨⟨es,.attempt hes⟩,hsound⟩

theorem get_bind {f : Draft → Emit α} (hf : ∀ c : Draft, c.Sound → s.LoggedAt (f c) c) :
    s.Logged (get >>= f) := by
  intro c hc
  obtain ⟨⟨es,hes⟩,hsound⟩ := hf c hc
  exact ⟨⟨es,.get_bind hes⟩,hsound⟩

theorem composes (s : Setting) : Composes s.Logged where
  pure := pure
  throw := throw
  bind := bind
  get_bind hf := get_bind fun c hc => hf c c hc

theorem ofExcept (r : Except Fault α) : s.Logged (Emit.ofExcept r) := (composes s).ofExcept r

theorem throw_bind (e : Fault) (f : α → Emit β) : s.Logged (MonadExcept.throw e >>= f) :=
  (composes s).throw_bind e f

theorem ofExcept_bind {r : Except Fault α} (hf : ∀ a, r = .ok a → s.Logged (f a)) :
    s.Logged (Emit.ofExcept r >>= f) := (composes s).ofExcept_bind hf

theorem mapM {as : List α} (hf : ∀ a, s.Logged (f a)) : s.Logged (as.mapM f) :=
  (composes s).mapM fun a _ => hf a

theorem ite {p : Prop} [Decidable p] {y : Emit α} (hx : s.Logged x) (hy : s.Logged y) :
    s.Logged (if p then x else y) := iteInduction (fun _ => hx) fun _ => hy

end Logged

theorem logged_write (s : Setting) (text : String) : s.Logged (s.write text) := fun c hc =>
  ⟨⟨_,.write text c⟩,(s.balances_write (T := fun _ => True) text c hc).sound⟩

theorem logged_freshTemp (s : Setting) : s.Logged s.freshTemp := fun c hc =>
  ⟨⟨_,.freshTemp c⟩,(s.balances_freshTemp (T := fun _ => True) c hc).sound⟩

theorem bindTemp_cases (s : Setting) (node : Datum) (expr : String) (given : Option String) (c : Draft) :
    (∃ e, (s.bindTemp node expr given).outcome c = (.error e, c)) ∨
      ∃ name c', (s.bindTemp node expr given).Gives c name c' := by
  unfold bindTemp Gives
  rw [outcome_get_bind]
  cases explicitName given with
  | none => exact .inr ⟨_,_,rfl⟩
  | some name =>
    by_cases htaken : c.taken.contains name = true
    · simp only [htaken, if_true, identityOf]
      cases s.graph.identityOf node with
      | error e => exact .inl ⟨e,rfl⟩
      | ok id => exact .inl ⟨_,rfl⟩
    · simp only [htaken]
      exact .inr ⟨_,_,rfl⟩

theorem logged_bindTemp (s : Setting) (node : Datum) (expr : String) (given : Option String) :
    s.Logged (s.bindTemp node expr given) := by
  intro c hc
  refine ⟨?_,(s.balances_bindTemp (T := fun _ => True) node expr given c hc).sound⟩
  rcases s.bindTemp_cases node expr given c with ⟨e,he⟩ | ⟨name,c',h⟩
  · exact ⟨[],.quiet (he ▸ .refl c)⟩
  · exact ⟨_,.bindTemp h⟩

theorem logged_register (s : Setting) (node : Datum) (expr : String) (save : Bool) :
    s.Logged (s.register node expr save) := by
  refine .ofExcept_bind fun id _ => .get_bind fun c hc => ?_
  have hinsert : ∀ text, s.Logged (do
      modify fun c => { c with results := c.results.insert id.serial ⟨text, c.depthOf text⟩ }
      return text : Emit String) := by
    intro text
    refine .bind (.of_quiet (T := fun _ => True) (.modify fun c hc => ?_) fun c => ?_) fun _ => .pure text
    · exact .insertResult hc trivial (c.depthOf_le text)
    · exact .of_eq rfl rfl rfl rfl rfl
  cases c.results[id.serial]? with
  | some e => exact Logged.throw_bind _ _ c hc
  | none =>
    cases save with
    | true => exact Logged.bind (s.logged_bindTemp node expr none) hinsert c hc
    | false => exact hinsert expr c hc

theorem logged_introduceArray (s : Setting) (id : Identity) (texts : List String)
    (given : Option String) : s.Logged (s.introduceArray id texts given) := by
  intro c hc
  refine ⟨?_,(balances_introduceArray (T := fun _ => True) trivial texts given c hc).sound⟩
  rcases s.introduceArray_cases id texts given c with ⟨e,he⟩ | ⟨c₀,name,_,h⟩
  · exact ⟨[],.quiet (he ▸ .refl c)⟩
  · exact ⟨_,.introduceArray h⟩

theorem logged_openLoop (ho : s.options.Valid) (node : Datum) : s.Logged (s.openLoop node) := by
  intro c hc
  rcases s.openLoop_cases node c with ⟨e,he⟩ | ⟨vars,length,h,hfree,hreg⟩
  · exact .of_quiet (he ▸ .refl c) (he ▸ hc)
  · have hl : (c.withLoop s.options vars length).loops[c.loops.length]? =
        some (c.nextLoop s.options vars length) := List.getElem?_concat_length
    exact ⟨⟨_,.openLoop h hl⟩,h ▸ hc.withLoop ho hfree hreg length⟩

theorem logged_closeLoop (s : Setting) (i : Nat) : s.Logged (closeLoop i) := by
  intro c hc
  rcases closeLoop_cases hc i with ⟨e,he⟩ | ⟨l,hi,hl,h⟩
  · exact .of_quiet (he ▸ .refl c) (he ▸ hc)
  · exact ⟨⟨_,.closeLoop h hl⟩,h ▸ hc.withoutLoop hi hl⟩

theorem logged_leaveLoop (s : Setting) (i : Nat) : s.Logged (leaveLoop i) := by
  refine .get_bind fun c hc => ?_
  cases c.loop? i with
  | none => exact Logged.throw _ c hc
  | some l => exact Logged.ite (s.logged_closeLoop i) (.pure _) c hc

theorem logged_insideLoop {x : Emit α} (hx : s.Logged x) (i : Nat) : s.Logged (insideLoop i x) :=
  .bind (.attempt hx) fun r => .bind (s.logged_leaveLoop i) fun _ => .ofExcept r

theorem loggedAt_atTopLevel {x : Emit Unit} (hx : s.Logged x) {T : Nat → Prop} (hb : x.Balances T)
    (hc : c.Sound) (hne : c.stack ≠ []) : s.LoggedAt (atTopLevel x) c := by
  refine ⟨?_,(balances_atTopLevel hb c hc).sound⟩
  have htop := Draft.sound_atTop c
  obtain ⟨⟨es,hes⟩,_⟩ := hx c.atTop htop
  obtain ⟨i,hi⟩ := Option.ne_none_iff_exists'.mp fun h => hne (List.head?_eq_none_iff.mp h)
  have hstack := (hb c.atTop htop).balanced.stack
  rcases hr : x.outcome c.atTop with ⟨r,inner⟩
  rw [hr] at hstack
  cases r with
  | error e => exact ⟨_,.dropped hr hes⟩
  | ok u => exact ⟨_,.lifted hr hstack hi hes⟩

theorem stack_ne_nil_of_isLiftable {node : Datum} (h : s.isLiftable c node = .ok true) :
    c.stack ≠ [] := by
  intro hs
  rw [isLiftable, hs] at h
  cases h

section

variable {emit : Trail → Datum → Emit Unit} {node : Datum} {T : Nat → Prop}

theorem logged_registered (id : Identity) : s.Logged (do
    match (← get).results[id.serial]? with
    | some e => return e.text
    | none => throw (.noRegistration id.shown) : Emit String) := by
  refine .get_bind fun c hc => ?_
  cases c.results[id.serial]? with
  | some e => exact Logged.pure _ c hc
  | none => exact Logged.throw _ c hc

theorem logged_whileLowering {x : Emit Unit} (hx : s.Logged x) (id : Identity) :
    s.Logged (whileLowering id x) := by
  have hrunning : ∀ f : Draft → List Identity,
      s.Logged (modify fun c => { c with running := f c } : Emit PUnit) :=
    fun _ _ hc => .of_quiet (.of_eq rfl rfl rfl rfl rfl) (hc.running _)
  exact .bind (hrunning _) fun _ => .bind (.attempt hx) fun r => .bind (hrunning _) fun _ => .ofExcept r

theorem logged_lower (he : ∀ trail, s.Logged (emit trail node))
    (hb : ∀ trail, (emit trail node).Balances T) (trail : Trail) (id : Identity) :
    s.Logged (s.lower emit trail node id) := by
  have hend := logged_registered (s := s) id
  unfold lower
  refine .ite (.throw_bind _ _) (.ite (.throw_bind _ _) (.get_bind fun c hc => ?_))
  cases hlift : s.isLiftable c node with
  | error e => exact Logged.throw e c hc
  | ok b =>
    cases b with
    | false => exact Logged.bind (logged_whileLowering (he _) id) (fun _ => hend) c hc
    | true =>
      have hne := stack_ne_nil_of_isLiftable hlift
      exact (loggedAt_atTopLevel (logged_whileLowering (he _) id) (balances_whileLowering id (hb _)) hc
        hne).bind fun _ c' _ hc' => hend c' hc'

theorem LoggedAt.set_bind {d : Draft} (hd : c.Quiet d) {f : PUnit → Emit α}
    (h : s.LoggedAt (f ⟨⟩) d) : s.LoggedAt (set d >>= f) c := by
  obtain ⟨⟨es,hes⟩,hsound⟩ := h
  exact ⟨⟨es,.set_bind hd hes⟩,hsound⟩

theorem logged_resolve (he : ∀ trail, s.Logged (emit trail node))
    (hb : ∀ trail, (emit trail node).Balances T) (trail : Trail) :
    s.Logged (s.resolve emit trail node) := by
  unfold resolve
  refine .ite (.throw_bind _ _) (.ofExcept_bind fun id _ => .get_bind fun c hc => ?_)
  have hlower := logged_lower he hb trail id
  cases c.bindings[id.serial]? with
  | some text => exact Logged.pure text c hc
  | none =>
    cases c.results[id.serial]? with
    | none => exact hlower c hc
    | some e =>
      cases s.iterationDepth c node with
      | error e => exact Logged.throw e c hc
      | ok depth =>
        change s.LoggedAt (if depth ≤ e.depth then _ else _) c
        split
        · exact Logged.pure _ c hc
        · rename_i hle
          have hm : c.Moves (fun _ => True) (c.setResultAside id.serial e depth) :=
            .setResultAside hc trivial (Nat.lt_of_not_le hle)
          exact .set_bind (c.quiet_setResultAside _ _ _) (hlower _ hm.sound)

end

section

variable {l : Lowerer}

theorem logged_arrayOf (hl : ∀ trail d, s.Logged (l.resolve trail d)) (trail : Trail)
    (collection : Datum) (name : Option String) : s.Logged (s.arrayOf l trail collection name) := by
  refine .ofExcept_bind fun id _ => .get_bind fun c hc => ?_
  have hbuild : s.Logged (do
      let ms ← Emit.ofExcept (s.members collection)
      let texts ← ms.mapM fun m => l.resolve (trail.deeper 2) (s.graph.datum m)
      s.introduceArray id texts name : Emit String) :=
    .bind (.ofExcept _) fun ms => .bind (.mapM fun m => hl _ _) fun texts =>
      s.logged_introduceArray id texts name
  cases c.arrays[id.serial]? with
  | none => exact hbuild c hc
  | some e =>
    cases s.iterationDepth c collection with
    | error e => exact Logged.throw e c hc
    | ok depth =>
      change s.LoggedAt (if depth ≤ e.depth then _ else _) c
      split
      · exact Logged.pure _ c hc
      · rename_i hle
        have hm : c.Moves (fun _ => True) (c.setArrayAside id.serial e depth) :=
          .setArrayAside hc trivial (Nat.lt_of_not_le hle)
        exact .set_bind (c.quiet_setArrayAside _ _ _) (hbuild _ hm.sound)

theorem logged_argumentCode (hl : ∀ trail d, s.Logged (l.resolve trail d)) (trail : Trail)
    (k : ArgumentKind) (d : Datum) : s.Logged (s.argumentCode l trail (k, d)) :=
  argumentCode_composes (Logged.composes s) (fun trail => hl trail d)
    (fun trail => logged_arrayOf hl trail d none) trail k

theorem logged_argumentsCode (hl : ∀ trail d, s.Logged (l.resolve trail d)) (trail : Trail)
    (args : List Datum) : s.Logged (s.argumentsCode l trail args) :=
  argumentsCode_composes (Logged.composes s) (fun _ _ k d _ trail => logged_argumentCode hl trail k d) trail

theorem logged_callCode (hl : ∀ trail d, s.Logged (l.resolve trail d)) (trail : Trail)
    (function : String) (args : List Datum) : s.Logged (s.callCode l trail function args) :=
  callCode_composes (Logged.composes s) (fun _ _ k d _ trail => logged_argumentCode hl trail k d) trail function

theorem hooks_logged (ho : s.options.Valid) (v : Nat) : s.Hooks v s.Logged where
  toComposes := Logged.composes s
  count := .of_quiet (hooks_balances ho v).count fun _ => .of_eq rfl rfl rfl rfl rfl
  freshTemp := s.logged_freshTemp
  write := s.logged_write
  register := s.logged_register _
  loop hx := .bind (logged_openLoop ho _) fun h => logged_insideLoop hx h

theorem logged_emitNode (ho : s.options.Valid) (hg : s.graph.Scriptless)
    (hl : ∀ trail d, s.Logged (l.resolve trail d)) (trail : Trail) (v : Nat) :
    s.Logged (s.emitNode l trail v) :=
  (hooks_logged ho v).emitNode hg (fun _ _ trail => hl trail _)
    (fun _ _ trail => logged_arrayOf hl trail _ none) trail

theorem nested_logged (ho : s.options.Valid) (hg : s.graph.Scriptless) (n : Nat) :
    (∀ trail d, s.Logged ((s.nested n).resolve trail d)) ∧
      ∀ trail d, s.Logged ((s.nested n).emit trail d) := by
  induction n with
  | zero => exact ⟨fun _ _ => .throw _,fun _ _ => .throw _⟩
  | succ n ih =>
    have hemit : ∀ trail d, s.Logged (s.emit (s.nested n) trail d) := by
      intro trail d
      refine .ite (.throw_bind _ _) ?_
      cases d with
      | object v => exact logged_emitNode ho hg ih.1 trail v
      | _ => exact .throw _
    refine ⟨fun trail d => ?_,hemit⟩
    exact logged_resolve (fun trail => hemit trail d)
      (fun trail => balances_emit ho hg (nested_balances ho hg n).1 trail d) trail

end

end Setting

namespace Draft

variable {o : Options} {c c' : Draft}

theorem Sound.alike (h : c.Sound) (ha : c.Alike c') : c'.Sound :=
  h.follows (T := fun _ => False) ha.follows (h.toBounded.of_eq ha.stack ha.loops ha.results ha.arrays)

/-- Each loop is open or has been closed. -/
def Settled (c : Draft) : Prop := ∀ (i : Nat) (l : Loop), c.loops[i]? = some l → i ∈ c.stack ∨ l.closed = true

theorem Settled.balanced {T : Nat → Prop} (h : c.Settled) (hb : c.Balanced T c') : c'.Settled := by
  intro i l' hl'
  by_cases hlt : i < c.loops.length
  · obtain ⟨l,hl,hstays,_⟩ := hb.loops i _ (List.getElem?_eq_getElem hlt)
    obtain rfl := Option.some.inj (hl.symm.trans hl')
    rw [hb.stack, hstays.closed]
    exact h i _ (List.getElem?_eq_getElem hlt)
  · exact .inr (hb.new i l' (Nat.le_of_not_lt hlt) hl')

theorem Settled.does (h : c.Settled) {command : Command} (hd : command.Does o c c') : c'.Settled := by
  cases hd with
  | note ha => exact fun i l hl => ha.stack ▸ h i l (ha.loops ▸ hl)
  | queue j ls =>
    intro i l hl
    rw [modifyLoop, List.getElem?_modify, Option.map_eq_map, Option.map_eq_some_iff] at hl
    obtain ⟨m,hm,rfl⟩ := hl
    have hold := h i m hm
    split
    · exact hold
    · exact hold
  | opens length opened hfree hreg =>
    intro i l hl
    change (c.loops ++ [c.nextLoop o _ length])[i]? = some l at hl
    change i ∈ c.stack ++ [c.loops.length] ∨ _
    rw [List.mem_append, List.mem_singleton]
    by_cases hlt : i < c.loops.length
    · rw [List.getElem?_append_left hlt] at hl
      exact (h i l hl).imp_left .inl
    · have hlen := (List.getElem?_eq_some_iff.mp hl).1
      rw [List.length_append, List.length_singleton] at hlen
      exact .inl (.inr (by omega))
  | closes hi hl =>
    intro i m hm
    rw [getElem?_loops_withoutLoop c _ _ i hl] at hm
    split at hm
    · cases hm
      exact .inr rfl
    · rename_i hne
      refine (h i m hm).imp_left fun hmem => ?_
      change i ∈ c.stack.dropLast
      rw [← List.dropLast_append_getLast? _ hi, List.mem_append, List.mem_singleton] at hmem
      exact hmem.resolve_right hne
  | assigns id n _ => exact h

end Draft

namespace Setting

variable {s : Setting} {α : Type} {c : Draft}

theorem logged_eval (s : Setting) (t : Term) : s.Logged (s.eval t) := by
  refine .of_quiet (s.balances_eval t) fun c => ?_
  rw [eval, outcome_get_bind]
  rcases (t.eval s.graph).run.run c.nextSerial with ⟨outcome,n⟩
  rw [outcome_set_bind, outcome_ofExcept]
  exact .of_eq rfl rfl rfl rfl rfl

theorem logged_assignColumn (s : Setting) (node column : Datum) : s.Logged (s.assignColumn node column) := by
  intro c hc
  rcases s.assignColumn_cases node column c with ⟨e,he⟩ | ⟨id,n,he,_⟩
  · exact .of_quiet (he ▸ .refl c) (he ▸ hc)
  · exact .of_quiet (he ▸ .of_eq rfl rfl rfl rfl rfl) (he ▸ hc.assign id n)

theorem logged_note {g : Draft → Draft} (hg : ∀ c : Draft, c.Alike (g c))
    (hn : ∀ c : Draft, (g c).taken = c.taken ∧ (g c).loopCount = c.loopCount) :
    s.Logged (modify g : Emit PUnit) := fun c hc =>
  .of_quiet (.of_eq (hg c).body (hg c).stack (hn c).1 (hn c).2 (hg c).loops)
    (hc.alike (hg c))

theorem logged_finish (s : Setting) (expr : String) : s.Logged (s.finish expr) := by
  intro c hc
  rcases s.finish_state expr c with h | h
  · refine .of_quiet ?_ ?_ <;> rw [h]
    · exact .refl c
    · exact hc
  · refine .of_quiet ?_ ?_ <;> rw [h]
    · exact .of_eq rfl rfl rfl rfl rfl
    · exact hc.alike ⟨rfl,rfl,rfl,rfl,rfl,rfl,rfl,rfl⟩

theorem openedLoop_cases (i : Int) (c : Draft) : (∃ e, (openedLoop i).outcome c = (.error e, c)) ∨
    ∃ h, (openedLoop i).outcome c = (.ok h, c) := by
  simp only [openedLoop, outcome_get_bind]
  generalize (if 0 ≤ i then i else (c.opened.length : Int) + i) = k
  split
  · exact .inl ⟨_,rfl⟩
  · cases c.opened[k.toNat]? with
    | none => exact .inl ⟨_,rfl⟩
    | some h => exact .inr ⟨h,rfl⟩

theorem logged_openedLoop (s : Setting) (i : Int) : s.Logged (openedLoop i) := by
  intro c hc
  rcases openedLoop_cases i c with ⟨e,he⟩ | ⟨h,he⟩
  · exact .of_quiet (he ▸ .refl c) (he ▸ hc)
  · exact .of_quiet (he ▸ .refl c) (he ▸ hc)

/-- Queueing lines is logged if the loop is open; those of a closed loop go nowhere. -/
theorem loggedAt_queue (hc : c.Sound) (hs : c.Settled) (i : Nat) (ls : List Line) :
    s.LoggedAt (modify fun c => c.modifyLoop i fun l => { l with queued := l.queued ++ ls }) c := by
  refine ⟨?_,hc.queue i ls⟩
  by_cases hi : i ∈ c.stack
  · exact ⟨_,.queue hi ls⟩
  · refine ⟨[],.quiet (.of_modify rfl rfl rfl rfl rfl fun l hl hopen => ?_)⟩
    rw [(hs i l hl).resolve_left hi] at hopen
    cases hopen

theorem loggedAt_execute (ho : s.options.Valid) (hg : s.graph.Scriptless) (results : List Answer)
    (command : Command) (hc : c.Sound) (hs : c.Settled) :
    s.LoggedAt (s.execute s.lowerer {} results command) c := by
  have hl := nested_logged ho hg (s.options.machine.calls + 1)
  have heval := s.logged_eval
  have hevals : ∀ ts, s.Logged (s.evalAll ts) := fun ts => .mapM heval
  have hid : ∀ d, s.Logged (s.identityOf d) := fun d => .ofExcept _
  have hget : ∀ f : Draft → Answer, s.Logged (do return f (← get)) := fun f =>
    .get_bind fun c hc => Logged.pure (f c) c hc
  -- All commands but queueing are logged from every sound draft.
  have hall : ∀ {x : Emit Answer}, s.Logged x → s.LoggedAt x c := fun hx => hx c hc
  cases command with
  | sizeAt t => exact hall (.bind (heval t) fun d => .bind (hid d) fun _ => .pure _)
  | sizes => exact hall (.pure _)
  | assignColumn t column =>
    refine hall (.bind (heval t) fun node => .bind (heval column) fun d => ?_)
    exact .bind (s.logged_assignColumn node d) fun _ => .pure _
  | columnOf t => exact hall (.bind (heval t) fun d => .bind (hid d) fun id => hget _)
  | register t expr save =>
    exact hall (.bind (heval t) fun d => .bind (s.logged_register d _ save) fun _ => .pure _)
  | isResolved t => exact hall (.bind (heval t) fun d => .bind (hid d) fun id => hget _)
  | request t => exact hall (.bind (heval t) fun d => .bind (hl.1 _ d) fun _ => .pure _)
  | emit t => exact hall (.bind (heval t) fun d => .bind (hl.2 _ d) fun _ => .pure _)
  | temp => exact hall (.bind s.logged_freshTemp fun _ => .pure _)
  | bindTemp t expr name =>
    exact hall (.bind (heval t) fun d => .bind (s.logged_bindTemp d _ name) fun _ => .pure _)
  | openLoop t =>
    refine hall (.bind (heval t) fun d => .bind (logged_openLoop ho d) fun h => ?_)
    exact .bind (logged_note (fun _ => ⟨rfl,rfl,rfl,rfl,rfl,rfl,rfl,rfl⟩) fun _ => ⟨rfl,rfl⟩) fun _ => hget _
  | closeLoop i =>
    exact hall (.bind (s.logged_openedLoop i) fun h => .bind (s.logged_closeLoop h) fun _ => .pure _)
  | leaveLoop i =>
    exact hall (.bind (s.logged_openedLoop i) fun h => .bind (s.logged_leaveLoop h) fun _ => .pure _)
  | queue i lines =>
    refine (s.logged_openedLoop i c hc).bind fun h c' hgives _ => ?_
    have hc' : c' = c := by
      rcases openedLoop_cases i c with ⟨e,he⟩ | ⟨h',he⟩
      · cases hgives.symm.trans he
      · cases hgives.symm.trans he
        rfl
    subst hc'
    exact (loggedAt_queue hc hs h lines).bind fun _ c _ hc => Logged.pure _ c hc
  | innermost => exact hall (hget _)
  | arrayOf t name =>
    exact hall (.bind (heval t) fun d => .bind (logged_arrayOf hl.1 _ d name) fun _ => .pure _)
  | toArgument t =>
    exact hall (.bind (heval t) fun d => .bind (.ofExcept _) fun a => .bind (.ofExcept _) fun _ => .pure _)
  | argumentCode t =>
    refine hall (.bind (heval t) fun d => ?_)
    cases d with
    | argument k d => exact .bind (logged_argumentCode hl.1 _ k d) fun _ => .pure _
    | _ => exact .throw _
  | argumentsCode ts =>
    exact hall (.bind (hevals _) fun ds => .bind (logged_argumentsCode hl.1 _ ds) fun _ => .pure _)
  | callCode f ts =>
    exact hall (.bind (hevals _) fun ds => .bind (logged_callCode hl.1 _ f ds) fun _ => .pure _)
  | addPreamble text =>
    exact hall (.bind (logged_note (fun _ => ⟨rfl,rfl,rfl,rfl,rfl,rfl,rfl,rfl⟩) fun _ => ⟨rfl,rfl⟩)
      fun _ => .pure _)
  | write text => exact hall (.bind (s.logged_write _) fun _ => .pure _)
  | finish expr => exact hall (.bind (s.logged_finish _) fun _ => .pure _)
  | snapshot => exact hall (hget _)

theorem exists_history (ho : s.options.Valid) (hg : s.graph.Scriptless) (commands : List Command)
    (now : List Answer × Draft) (hc : now.2.Sound) (hs : now.2.Settled) :
    ∃ es, s.History now commands es := by
  induction commands generalizing now with
  | nil => exact ⟨[],.nil now⟩
  | cons command commands ih =>
    obtain ⟨⟨es,hes⟩,hsound⟩ := loggedAt_execute ho hg now.1 command hc hs
    obtain ⟨c',hm,hd⟩ := acts_execute ho hg {} now.1 command now.2 hc
    obtain ⟨fs,hfs⟩ := ih (s.after now command) hsound ((hs.balanced hm.balanced).does hd)
    exact ⟨es ++ fs,.cons hes hfs⟩

end Setting

end FitCode
