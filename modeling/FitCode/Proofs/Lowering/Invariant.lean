import FitCode.Proofs.Graph.Measure
import FitCode.Proofs.Lowering.Requests

/-! # The invariant of a session

Whatever commands are run, in any order and whether they succeed or fail, the caches, the open loops
and the accesses they bind fit together. What one command can do to a draft is said once, by `Does`;
each part of the invariant follows from it.
-/
namespace FitCode

open Text Emit

/-- No value that is compared in another precision than its own. -/
def Datum.Exact : Datum → Prop
  | .single _ => False
  | .double _ => False
  | _ => True

def Term.Exact : Term → Prop
  | .value d => d.Exact
  | _ => True

/-- A column is given as a number that can be compared exactly. -/
def Command.Exact : Command → Prop
  | .assignColumn _ column => column.Exact
  | _ => True

theorem Decimal.scaleTwo_pos (n : Nat) (k : Int) : 0 < (scaleTwo n 1 k).2 := by
  rw [scaleTwo]
  split
  · exact Nat.one_pos
  · exact Nat.mul_pos Nat.one_pos (Nat.two_pow_pos _)

/-- A double that is the whole number `n` has no fraction to lose. -/
theorem Datum.eq_of_isWhole {x : Float} {n m : Int} (hn : isWhole x n = true)
    (hm : truncate x = .ok m) : n = m := by
  rw [isWhole] at hn
  rw [truncate] at hm
  cases hx : Decimal.read x with
  | nan => simp [hx] at hn
  | infinite negative => simp [hx] at hn
  | finite negative a q =>
    have hpos := Decimal.scaleTwo_pos a q
    simp only [hx, Bool.and_eq_true, Bool.or_eq_true, beq_iff_eq] at hn
    simp only [hx, Except.ok.injEq] at hm
    obtain ⟨ha,hsign⟩ := hn
    rw [ha, Nat.mul_div_cancel _ hpos] at hm
    cases negative with
    | true =>
      rw [if_pos rfl] at hm
      rcases hsign with rfl | hsign
      · simpa using hm
      · have := of_decide_eq_true hsign.symm
        omega
    | false =>
      rw [if_neg Bool.false_ne_true] at hm
      rcases hsign with rfl | hsign
      · simpa using hm
      · have := of_decide_eq_false hsign.symm
        omega

theorem Datum.eq_of_equalsInt {d : Datum} (hd : d.Exact) {n m : Int}
    (hn : d.equalsInt n = .ok true) (hm : d.toInt = .ok m) : n = m := by
  cases d with
  | int k =>
    cases hm
    exact (eq_of_beq (Except.ok.inj hn)).symm
  | word k =>
    cases hm
    exact (eq_of_beq (Except.ok.inj hn)).symm
  | flag b =>
    cases hm
    exact (eq_of_beq (Except.ok.inj hn)).symm
  | wordFlag b =>
    cases hm
    rw [equalsInt] at hn
    split at hn
    · exact (eq_of_beq (Except.ok.inj hn)).symm
    · cases hn
  | float x => exact eq_of_isWhole (Except.ok.inj hn) hm
  | single x => exact hd.elim
  | double x => exact hd.elim
  | _ => cases hn

namespace Draft

variable {c c' : Draft}

/-- Each observable that an open loop iterates is bound to the access through its column. -/
def Indexed (o : Options) (c : Draft) : Prop :=
  ∀ k l, c.Opens k l → ∀ id ∈ l.vars, ∃ column, c.columns.get? id = some column ∧
    c.bindings[id.serial]? = some (o.obsName ++ "[" ++ toString column ++ "][" ++ l.index ++ "]")

/-- Only what is not about loops differs. -/
structure Alike (c c' : Draft) : Prop where
  stack : c'.stack = c.stack
  loops : c'.loops = c.loops
  bindings : c'.bindings = c.bindings
  columns : c'.columns = c.columns
  body : c'.body = c.body
  results : c'.results = c.results
  arrays : c'.arrays = c.arrays
  running : c'.running = c.running

end Draft

/-- What a command can do to a draft, once its operands are evaluated. -/
inductive Command.Does (o : Options) (command : Command) (c : Draft) : Draft → Prop
  | note {c' : Draft} (h : c.Alike c') : Does o command c c'
  | queue (i : Nat) (ls : List Line) :
    Does o command c (c.modifyLoop i fun l => { l with queued := l.queued ++ ls })
  | opens {vars : List Identity} (length : Nat) (opened : List Nat)
    (hfree : ∀ id ∈ vars, c.bindings[id.serial]? = none)
    (hreg : ∀ id ∈ vars, (c.columns.get? id).isSome) :
    Does o command c { c.withLoop o vars length with opened }
  | closes {i : Nat} {l : Loop} (hi : c.stack.getLast? = some i) (hl : c.loops[i]? = some l) :
    Does o command c ({ c with body := Draft.closedBody c.body l }.withoutLoop i l)
  | assigns (id : Identity) (n : Int)
    (hexact : command.Exact → ∀ m, c.columns.get? id = some m → m = n) :
    Does o command c { c with columns := c.columns.put id n }

namespace Draft

variable {o : Options} {T : Nat → Prop} {c c' : Draft}

theorem Alike.refl (c : Draft) : c.Alike c := ⟨rfl,rfl,rfl,rfl,rfl,rfl,rfl,rfl⟩

theorem Alike.follows (h : c.Alike c') : c.Follows T c' where
  stack := h.stack
  bindings := fun _ => by rw [h.bindings]
  columns := h.columns
  body := h.body ▸ List.prefix_rfl
  loops := fun i l hl => ⟨l,by rw [h.loops, hl],.refl l⟩

/-- Lines queued for a loop change nothing else about it, be it open or not. -/
theorem follows_queue (c : Draft) (i : Nat) (ls : List Line) :
    c.Follows T (c.modifyLoop i fun l => { l with queued := l.queued ++ ls }) where
  stack := rfl
  bindings := fun _ => rfl
  columns := rfl
  body := List.prefix_rfl
  loops := fun j l hl => by
    rw [modifyLoop, List.getElem?_modify, hl]
    by_cases hij : i = j
    · refine ⟨{ l with queued := l.queued ++ ls },by simp [hij],?_⟩
      exact { Loop.Stays.refl (T := T) l with queued := List.prefix_append _ _ }
    · exact ⟨l,by simp [hij],.refl l⟩

theorem Sound.queue (h : c.Sound) (i : Nat) (ls : List Line) :
    (c.modifyLoop i fun l => { l with queued := l.queued ++ ls }).Sound := by
  have hf : c.Follows (fun _ => False) (c.modifyLoop i fun l => { l with queued := l.queued ++ ls }) :=
    follows_queue c i ls
  refine h.follows hf ⟨h.results,h.arrays,fun k l' hl' v e he => ?_,fun k l' hl' v e he => ?_⟩
  · obtain ⟨l,hl,hs⟩ := hf.opens h.valid hl'
    rw [hs.results v id] at he
    rw [hs.depth]
    exact h.resultsAside k l hl v e he
  · obtain ⟨l,hl,hs⟩ := hf.opens h.valid hl'
    rw [hs.arrays v id] at he
    rw [hs.depth]
    exact h.arraysAside k l hl v e he

theorem Sound.assign (h : c.Sound) (id : Identity) (n : Int) :
    { c with columns := c.columns.put id n }.Sound :=
  { h with
    loops := fun k l hl => by
      have hs := h.loops k l hl
      exact ⟨hs.closed,hs.depth,hs.line⟩
    registered := fun k l hl i hi => by
      change ((c.columns.put id n).get? i).isSome = true
      rw [IdMap.get?_put]
      split
      · rfl
      · exact h.registered k l hl i hi }

theorem Sound.does (ho : o.Valid) (h : c.Sound) {command : Command} (hd : command.Does o c c') :
    c'.Sound := by
  cases hd with
  | note ha => exact h.follows (T := fun _ => False) ha.follows (h.toBounded.of_eq ha.stack ha.loops ha.results ha.arrays)
  | queue i ls => exact h.queue i ls
  | opens length opened hfree hreg =>
    have hs := h.withLoop ho hfree hreg length
    exact hs.follows (T := fun _ => False) (Alike.follows ⟨rfl,rfl,rfl,rfl,rfl,rfl,rfl,rfl⟩)
      (hs.toBounded.of_eq rfl rfl rfl rfl)
  | closes hi hl => exact h.withoutLoop hi hl
  | assigns id n _ => exact h.assign id n

theorem Indexed.follows (h : c.Indexed o) (hc : c.Sound) (hf : c.Follows T c') : c'.Indexed o := by
  intro k l' hl' id hid
  obtain ⟨l,hl,hs⟩ := hf.opens hc.valid hl'
  obtain ⟨column,hcol,hb⟩ := h k l hl id (hs.vars ▸ hid)
  exact ⟨column,by rw [hf.columns, hcol],by rw [hf.bindings, hb, hs.index]⟩

theorem Indexed.withLoop (h : c.Indexed o) (hc : c.Sound) {vars : List Identity}
    (hfree : ∀ id ∈ vars, c.bindings[id.serial]? = none)
    (hreg : ∀ id ∈ vars, (c.columns.get? id).isSome) (length : Nat) :
    (c.withLoop o vars length).Indexed o := by
  intro k l hl id hid
  rw [getElem?_bindings_withLoop]
  rcases (opens_withLoop hc).mp hl with hl | ⟨rfl,rfl⟩
  · -- The loops that were open iterate none of the new variables.
    obtain ⟨column,hcol,hb⟩ := h k l hl id hid
    refine ⟨column,hcol,?_⟩
    rw [if_neg, hb]
    intro hmem
    obtain ⟨id',hid',heq⟩ := List.mem_map.mp (by simpa using hmem)
    rw [← heq, hfree id' hid'] at hb
    cases hb
  · obtain ⟨column,hcol⟩ := Option.isSome_iff_exists.mp (hreg id hid)
    refine ⟨column,hcol,?_⟩
    have hmem : (vars.map (·.serial)).contains id.serial = true := by
      simpa using ⟨id,hid,rfl⟩
    rw [if_pos hmem, indexed_congr (a := ⟨id.serial, ""⟩) (b := id) rfl, indexed, hcol, Option.getD_some]

theorem Indexed.withoutLoop (h : c.Indexed o) (hc : c.Sound) {i : Nat} {l : Loop}
    (hi : c.stack.getLast? = some i) (hl : c.loops[i]? = some l) (body : Listing) :
    ({ c with body }.withoutLoop i l).Indexed o := by
  intro k m hm id hid
  obtain ⟨hm,hk⟩ := (opens_withoutLoop hc hi body).mp hm
  obtain ⟨column,hcol,hb⟩ := h k m hm id hid
  refine ⟨column,hcol,?_⟩
  have hget : ({ c with body }.withoutLoop i l).bindings[id.serial]? =
      if (l.vars.map (·.serial)).contains id.serial then none else c.bindings[id.serial]? :=
    getElem?_foldl_erase l.vars c.bindings id.serial
  have hlast : c.Opens (c.depth - 1) l := ⟨i,(getElem?_stack_last hi).1,hl⟩
  rw [hget, if_neg, hb]
  intro hmem
  obtain ⟨id',hid',heq⟩ := List.mem_map.mp (by simpa using hmem)
  exact hc.disjoint k _ m l (by omega) hm hlast id hid id' hid' heq.symm

/-- A column that is not replaced by another one keeps the accesses valid. -/
theorem Indexed.assign (h : c.Indexed o) {id : Identity} {n : Int}
    (hn : ∀ m, c.columns.get? id = some m → m = n) :
    { c with columns := c.columns.put id n }.Indexed o := by
  intro k l hl i hi
  obtain ⟨column,hcol,hb⟩ := h k l hl i hi
  refine ⟨column,?_,hb⟩
  change (c.columns.put id n).get? i = some column
  rw [IdMap.get?_put]
  split
  · rename_i heq
    rw [hn column (by rw [IdMap.get?_congr c.columns heq, hcol])]
  · exact hcol

theorem Indexed.does (h : c.Indexed o) (hc : c.Sound) {command : Command} (he : command.Exact)
    (hd : command.Does o c c') : c'.Indexed o := by
  cases hd with
  | note ha => exact h.follows (T := fun _ => False) hc ha.follows
  | queue i ls => exact h.follows (T := fun _ => False) hc (follows_queue c i ls)
  | opens length opened hfree hreg => exact h.withLoop hc hfree hreg length
  | closes hi hl => exact h.withoutLoop hc hi hl _
  | assigns id n hn => exact h.assign (hn he)

end Draft

theorem closeLoop_cases {c : Draft} (hc : c.Sound) (i : Nat) :
    (∃ e, (closeLoop i).outcome c = (.error e, c)) ∨
      ∃ l, c.stack.getLast? = some i ∧ c.loops[i]? = some l ∧ (closeLoop i).outcome c =
        (.ok ⟨⟩, { c with body := Draft.closedBody c.body l }.withoutLoop i l) := by
  cases hl : c.loops[i]? with
  | none =>
    refine .inl ⟨.indexOutside,?_⟩
    simp [closeLoop, Draft.loop?, hl]
  | some l =>
    cases hclosed : l.closed with
    | true =>
      refine .inl ⟨.loopClosed l.index,?_⟩
      simp [closeLoop, Draft.loop?, hl, hclosed]
    | false =>
      by_cases hi : c.stack.getLast? = some i
      · exact .inr ⟨l,hi,rfl,closeLoop_outcome hc hi hl⟩
      · refine .inl ⟨.loopOutOfOrder l.index (c.innermost?.map (·.index)),?_⟩
        simp [closeLoop, Draft.loop?, hl, hclosed, hi]

theorem Emit.outcome_bind_pure {α β : Type} (x : Emit α) (f : α → β) (c : Draft) :
    ((x >>= fun a => pure (f a)).outcome c).2 = (x.outcome c).2 := by
  rw [outcome_bind]
  rcases x.outcome c with ⟨r,c'⟩
  cases r <;> rfl

namespace Setting

variable {s : Setting} {α β : Type}

theorem balances_eval (s : Setting) (t : Term) : (s.eval t).Balances fun _ => True := by
  intro c hc
  rw [eval, outcome_get_bind]
  rcases (t.eval s.graph).run.run c.nextSerial with ⟨outcome,n⟩
  simp only [outcome_set_bind, outcome_ofExcept]
  exact .of_eq hc rfl rfl rfl rfl rfl rfl rfl rfl rfl rfl rfl

theorem exact_of_eval {t : Term} (ht : t.Exact) {c c' : Draft} {d : Datum}
    (h : (s.eval t).Gives c d c') : d.Exact := by
  rw [eval, gives_get_bind] at h
  rcases he : (t.eval s.graph).run.run c.nextSerial with ⟨outcome,n⟩
  rw [he] at h
  simp only [gives_set_bind, gives_ofExcept] at h
  obtain ⟨rfl,_⟩ := h
  cases t with
  | value d' =>
    cases he
    exact ht
  | object v =>
    cases he
    rw [Graph.datum]
    split <;> trivial
  | identityOf v =>
    cases he
    trivial
  | relabelled v label =>
    cases he
    trivial
  | fresh label =>
    cases he
    trivial
  | list ts =>
    rcases hts : (Term.evalAll s.graph ts).run.run c.nextSerial with ⟨r,n'⟩
    rw [Term.eval, ExceptT.run_bind, StateT.run_bind, hts] at he
    cases r with
    | error e => cases he
    | ok ds =>
      cases he
      trivial
  | argument k t =>
    rcases ht : (t.eval s.graph).run.run c.nextSerial with ⟨r,n'⟩
    rw [Term.eval, ExceptT.run_bind, StateT.run_bind, ht] at he
    cases r with
    | error e => cases he
    | ok d' =>
      cases he
      trivial
  | impossible e => cases he

/-- The step does to a draft what its command can do. -/
def Acts (s : Setting) (command : Command) (x : Emit α) : Prop :=
  ∀ c : Draft, c.Sound → ∃ c', c.Moves (fun _ => True) c' ∧ command.Does s.options c' (x.outcome c).2

namespace Acts

variable {command : Command} {x : Emit α} {f : α → Emit β}

theorem of_balances (hx : x.Balances fun _ => True) : s.Acts command x :=
  fun c hc => ⟨_,hx c hc,.note (.refl _)⟩

theorem bind (hx : x.Balances fun _ => True)
    (hf : ∀ a, (∃ c c', x.Gives c a c') → s.Acts command (f a)) : s.Acts command (x >>= f) := by
  intro c hc
  have hm := hx c hc
  rw [outcome_bind]
  rcases hr : x.outcome c with ⟨r,c'⟩
  rw [hr] at hm
  cases r with
  | error e => exact ⟨c',hm,.note (.refl _)⟩
  | ok a =>
    obtain ⟨c'',hm',hd⟩ := hf a ⟨c,c',hr⟩ c' hm.sound
    exact ⟨c'',hm.trans hm',hd⟩

end Acts

theorem ofConversion_eq_ok {r : Except ConversionError α} {a : α} :
    Kind.ofConversion r = .ok a ↔ r = .ok a := by
  cases r with
  | error e => simp [Kind.ofConversion, Except.mapError]
  | ok b => simp [Kind.ofConversion, Except.mapError]

theorem assignColumn_cases (s : Setting) (node d : Datum) (c : Draft) :
    (∃ e, (s.assignColumn node d).outcome c = (.error e, c)) ∨
      ∃ id n, (s.assignColumn node d).outcome c =
          (.ok ⟨⟩, { c with columns := c.columns.put id n }) ∧
        d.toInt = .ok n ∧ ∀ m, c.columns.get? id = some m → d.equalsInt m = .ok true := by
  rw [assignColumn, identityOf]
  cases s.graph.identityOf node with
  | error e => exact .inl ⟨e,rfl⟩
  | ok id =>
    -- The conversion is the last thing that can fail.
    have hput : (∀ m, c.columns.get? id = some m → d.equalsInt m = .ok true) →
        (∃ e, (do
          let n ← Emit.ofExcept (Kind.ofConversion d.toInt)
          modify fun c => { c with columns := c.columns.put id n } : Emit Unit).outcome c = (.error e, c)) ∨
        ∃ id' n, (do
            let n ← Emit.ofExcept (Kind.ofConversion d.toInt)
            modify fun c => { c with columns := c.columns.put id n } : Emit Unit).outcome c =
              (.ok ⟨⟩, { c with columns := c.columns.put id' n }) ∧
          d.toInt = .ok n ∧ ∀ m, c.columns.get? id' = some m → d.equalsInt m = .ok true := by
      intro hold
      cases hn : d.toInt with
      | error e => exact .inl ⟨_,rfl⟩
      | ok n => exact .inr ⟨id,n,rfl,rfl,hold⟩
    have hok : Emit.ofExcept (Except.ok id : Except Fault Identity) = pure id := rfl
    rw [hok, pure_bind, outcome_get_bind]
    cases hm : c.columns.get? id with
    | none =>
      simp only
      exact hput (by simp [hm])
    | some m =>
      simp only [outcome_bind (Emit.ofExcept (Kind.ofConversion (d.equalsInt m))), outcome_ofExcept]
      cases he : Kind.ofConversion (d.equalsInt m) with
      | error e => exact .inl ⟨e,rfl⟩
      | ok b =>
        cases b with
        | false => exact .inl ⟨_,rfl⟩
        | true =>
          refine hput fun m' hm' => ?_
          cases hm.symm.trans hm'
          exact ofConversion_eq_ok.mp he

theorem acts_assignColumn {t column : Term} {node d : Datum} (hd : column.Exact → d.Exact) :
    s.Acts (.assignColumn t column) (do s.assignColumn node d; return Answer.nothing) := by
  intro c hc
  refine ⟨c,.refl hc,?_⟩
  rw [outcome_bind_pure]
  rcases s.assignColumn_cases node d c with ⟨e,he⟩ | ⟨id,n,he,hn,hold⟩
  · rw [he]
    exact .note (.refl c)
  · rw [he]
    exact .assigns id n fun hex m hm => Datum.eq_of_equalsInt (hd hex) (hold m hm) hn

theorem acts_openLoop (command : Command) (node : Datum) : s.Acts command (do
    let h ← s.openLoop node
    modify fun c => { c with opened := c.opened ++ [h] }
    return ((← get).loop? h).elim .nothing Answer.opened) := by
  intro c hc
  refine ⟨c,.refl hc,?_⟩
  rw [outcome_bind]
  rcases s.openLoop_cases node c with ⟨e,he⟩ | ⟨vars,length,hopen,hfree,hreg⟩
  · rw [he]
    exact .note (.refl c)
  · rw [hopen]
    exact .opens length _ hfree hreg

theorem acts_closeLoop (command : Command) (i : Nat) :
    s.Acts command (do closeLoop i; return Answer.nothing) := by
  intro c hc
  refine ⟨c,.refl hc,?_⟩
  rw [outcome_bind]
  rcases closeLoop_cases hc i with ⟨e,he⟩ | ⟨l,hi,hl,he⟩
  · rw [he]
    exact .note (.refl c)
  · rw [he]
    exact .closes hi hl

theorem acts_leaveLoop (command : Command) (i : Nat) :
    s.Acts command (do leaveLoop i; return Answer.nothing) := by
  intro c hc
  have hclose := acts_closeLoop (s := s) command i c hc
  cases hl : c.loops[i]? with
  | none =>
    refine ⟨c,.refl hc,?_⟩
    simp only [leaveLoop, bind_assoc, outcome_get_bind, Draft.loop?, hl]
    exact .note (.refl c)
  | some l =>
    simp only [leaveLoop, bind_assoc, outcome_get_bind, Draft.loop?, hl]
    cases l.closed with
    | true => exact ⟨c,.refl hc,.note (.refl c)⟩
    | false => exact hclose

theorem finish_state (s : Setting) (expr : String) (c : Draft) :
    ((s.finish expr).outcome c).2 = c ∨ ((s.finish expr).outcome c).2 = { c with finished := true } := by
  simp only [finish, outcome_get_bind]
  cases c.finished with
  | true => exact .inl rfl
  | false =>
    cases c.innermost? with
    | some l => exact .inl rfl
    | none =>
      simp only [Bool.false_eq_true, if_false, outcome_bind, outcome_ofExcept]
      cases s.options.printed c.body <;> exact .inr rfl

theorem acts_finish (command : Command) (expr : String) :
    s.Acts command (do return Answer.text (← s.finish expr)) := by
  intro c hc
  refine ⟨c,.refl hc,?_⟩
  rw [outcome_bind_pure]
  rcases s.finish_state expr c with h | h
  · rw [h]
    exact .note (.refl c)
  · rw [h]
    exact .note ⟨rfl,rfl,rfl,rfl,rfl,rfl,rfl,rfl⟩

theorem balances_openedLoop (i : Int) : (openedLoop i).Balances fun _ => True := by
  intro c hc
  simp only [openedLoop, outcome_get_bind]
  split
  · split
    · exact .refl hc
    · split <;> exact .refl hc
  · split
    · exact .refl hc
    · split <;> exact .refl hc

/-- Each command does what it can do, whether it succeeds or fails. -/
theorem acts_execute (ho : s.options.Valid) (hg : s.graph.Scriptless) (trail : Trail)
    (results : List Answer) (command : Command) :
    s.Acts command (s.execute s.lowerer trail results command) := by
  have hl := nested_balances ho hg (s.options.machine.calls + 1)
  have heval := s.balances_eval
  have hevals : ∀ ts, (s.evalAll ts).Balances fun _ => True := fun ts => .mapM fun t _ => heval t
  have hid : ∀ d, (s.identityOf d).Balances fun _ => True := fun d => s.balances_identityOf d
  have hall : ∀ {α : Type} {T : Nat → Prop} {x : Emit α}, x.Balances T → x.Balances fun _ => True :=
    fun hx => hx.mono fun _ _ => trivial
  cases command with
  | sizeAt t =>
    exact .of_balances (.bind (heval t) fun d => .bind (hid d) fun _ => .pure _)
  | sizes => exact .of_balances (.pure _)
  | assignColumn t column =>
    refine .bind (heval t) fun node _ => .bind (heval column) fun d hd => ?_
    obtain ⟨c,c',hd⟩ := hd
    exact acts_assignColumn fun hex => exact_of_eval hex hd
  | columnOf t =>
    exact .of_balances (.bind (heval t) fun d => .bind (hid d) fun _ _ hc => .refl hc)
  | register t expr save =>
    exact .of_balances (.bind (heval t) fun d =>
      .bind (balances_register (fun _ _ => trivial) _ _) fun _ => .pure _)
  | isResolved t =>
    exact .of_balances (.bind (heval t) fun d => .bind (hid d) fun _ _ hc => .refl hc)
  | request t =>
    exact .of_balances (.bind (heval t) fun d => .bind (hall (hl.1 trail d)) fun _ => .pure _)
  | emit t =>
    exact .of_balances (.bind (heval t) fun d => .bind (hall (hl.2 trail d)) fun _ => .pure _)
  | temp => exact .of_balances (.bind s.balances_freshTemp fun _ => .pure _)
  | bindTemp t expr name =>
    exact .of_balances (.bind (heval t) fun d => .bind (s.balances_bindTemp d _ name) fun _ => .pure _)
  | openLoop t => exact .bind (heval t) fun d _ => acts_openLoop _ d
  | closeLoop i => exact .bind (balances_openedLoop i) fun h _ => acts_closeLoop _ h
  | leaveLoop i => exact .bind (balances_openedLoop i) fun h _ => acts_leaveLoop _ h
  | queue i lines =>
    refine .bind (balances_openedLoop i) fun h _ => fun c hc => ⟨c,.refl hc,?_⟩
    exact .queue h lines
  | innermost => exact .of_balances fun _ hc => .refl hc
  | arrayOf t name =>
    exact .of_balances (.bind (heval t) fun d =>
      .bind (hall (balances_array hl.1 trail d name)) fun _ => .pure _)
  | toArgument t =>
    exact .of_balances (.bind (heval t) fun d => .bind (.ofExcept _) fun a =>
      .bind (.ofExcept _) fun _ => .pure _)
  | argumentCode t =>
    refine .of_balances (.bind (heval t) fun d => ?_)
    cases d with
    | argument k d => exact .bind (hall (balances_argumentCode hl.1 trail k d)) fun _ => .pure _
    | _ => exact .throw _
  | argumentsCode ts =>
    exact .of_balances (.bind (hevals _) fun ds =>
      .bind (hall (balances_argumentsCode hl.1 trail ds)) fun _ => .pure _)
  | callCode f ts =>
    exact .of_balances (.bind (hevals _) fun ds =>
      .bind (hall (balances_callCode hl.1 trail f ds)) fun _ => .pure _)
  | addPreamble text => exact fun c hc => ⟨c,.refl hc,.note ⟨rfl,rfl,rfl,rfl,rfl,rfl,rfl,rfl⟩⟩
  | write text => exact .of_balances (.bind (s.balances_write _) fun _ => .pure _)
  | finish expr => exact acts_finish _ _
  | snapshot => exact .of_balances fun _ hc => .refl hc

/-- The answers so far and the state, after one more command. -/
def after (s : Setting) (now : List Answer × Draft) (command : Command) : List Answer × Draft :=
  let (outcome, c) := (s.execute s.lowerer {} now.1 command).outcome now.2
  (now.1 ++ [match outcome with
    | .ok a => a
    | .error _ => .nothing], c)

/-- The state that commands lead to from an empty draft. -/
def reach (s : Setting) (nextSerial : Nat) (commands : List Command) : Draft :=
  (commands.foldl s.after ([], { nextSerial })).2

/-- The sum of `x * p` over the entries of `x`. -/
def scaledSum : Setting where
  graph := ⟨#[⟨"x", .observable⟩, ⟨"p", .parameter 1 false⟩, ⟨"xp", .product [0, 1]⟩,
    ⟨"s", .entrySum 2⟩]⟩
  options := {}
  sizes := [(⟨0, "x"⟩, 2), (⟨2, "xp"⟩, 2)]

theorem scriptless_scaledSum : scaledSum.graph.Scriptless :=
  Graph.scriptless_of_vertices (by simp [scaledSum])

/-- The drafts that commands lead to, while any nodes are being lowered; a node that is lowered at top
level starts from the draft seen there. -/
inductive Reachable (s : Setting) : Draft → Prop
  | start (n : Nat) : Reachable s { nextSerial := n }
  | command {c : Draft} (h : Reachable s c) (trail : Trail) (results : List Answer)
    (command : Command) : Reachable s ((s.execute s.lowerer trail results command).outcome c).2
  | entered {c : Draft} (h : Reachable s c) (id : Identity) : Reachable s (c.entered id)
  | lifted {c : Draft} (h : Reachable s c) : Reachable s c.atTop

theorem reachable_reach (s : Setting) (n : Nat) (commands : List Command) :
    s.Reachable (s.reach n commands) := by
  have hrun : ∀ now : List Answer × Draft, s.Reachable now.2 →
      s.Reachable (commands.foldl s.after now).2 := by
    induction commands with
    | nil => exact fun _ h => h
    | cons command commands ih => exact fun now h => ih _ (.command h {} now.1 command)
  exact hrun _ (.start n)

theorem Reachable.sound (ho : s.options.Valid) (hg : s.graph.Scriptless) {c : Draft}
    (h : s.Reachable c) : c.Sound := by
  induction h with
  | start n => exact Draft.sound_start n
  | command _ trail results command ih =>
    obtain ⟨c',hm,hd⟩ := acts_execute ho hg trail results command _ ih
    exact hm.sound.does ho hd
  | entered _ id ih => exact ih.running _
  | lifted _ _ => exact Draft.sound_atTop _

end Setting

end FitCode
