import FitCode.Proofs.Lowering.Naming

/-! # No emitted line is lost

The lines of a draft are laid out as its log says: nothing is lost, nothing appears twice, and what
was staged for a loop stands in front of it. Positions of opening lines are kept as numbers in a
draft, so the point is that no insertion makes them wrong.
-/
namespace FitCode

open Emit

namespace Draft

variable {c c' c'' : Draft}

/-- Loops that are neither closed nor open here, but outside, are left alone. -/
structure Carries (c c' : Draft) : Prop where
  count : c.loops.length ≤ c'.loops.length
  stack : ∀ i ∈ c'.stack, i ∈ c.stack ∨ c.loops.length ≤ i
  loops : ∀ (i : Nat) (l : Loop), c.loops[i]? = some l → i ∉ c.stack → l.closed = false →
    ∃ l', c'.loops[i]? = some l' ∧ l.Rests l'

theorem Carries.trans (h : c.Carries c') (h' : c'.Carries c'') : c.Carries c'' where
  count := Nat.le_trans h.count h'.count
  stack := fun i hi => by
    rcases h'.stack i hi with hi | hle
    · exact h.stack i hi
    · exact .inr (Nat.le_trans h.count hle)
  loops := fun i l hl hn hopen => by
    obtain ⟨l',hl',hr⟩ := h.loops i l hl hn hopen
    have hlt := (List.getElem?_eq_some_iff.mp hl).1
    have hn' : i ∉ c'.stack := by
      intro hi
      rcases h.stack i hi with hi | hle
      · exact hn hi
      · omega
    obtain ⟨l'',hl'',hr'⟩ := h'.loops i l' hl' hn' (hr.closed.trans hopen)
    exact ⟨l'',hl'',hr'.depth.trans hr.depth,hr'.start.trans hr.start,hr'.queued.trans hr.queued,
      hr'.closed.trans hr.closed⟩

theorem Carries.of_eq (hs : c'.stack = c.stack) (hl : c'.loops = c.loops) : c.Carries c' where
  count := Nat.le_of_eq (by rw [hl])
  stack := fun _ hi => .inl (hs ▸ hi)
  loops := fun i l hget _ _ => ⟨l,hl ▸ hget,rfl,rfl,rfl,rfl⟩

theorem Quiet.carries (h : c.Quiet c') : c.Carries c' where
  count := Nat.le_of_eq h.count.symm
  stack := fun _ hi => .inl (h.stack ▸ hi)
  loops := fun i l hl _ hopen => h.loops i l hl hopen

theorem Carries.of_modify {i : Nat} {f : Loop → Loop} (hi : i ∈ c.stack) (hs : ∀ j ∈ c'.stack, j ∈ c.stack)
    (hl : c'.loops = c.loops.modify i f) : c.Carries c' where
  count := Nat.le_of_eq (by rw [hl, List.length_modify])
  stack := fun j hj => .inl (hs j hj)
  loops := fun j l hget hn _ => by
    have hne : i ≠ j := by
      rintro rfl
      exact hn hi
    rw [hl, List.getElem?_modify, hget]
    exact ⟨l,by simp [hne],rfl,rfl,rfl,rfl⟩

theorem carries_queueAt (c : Draft) (d : Nat) (ls : List Line) : c.Carries (c.queueAt d ls) := by
  rw [queueAt]
  split
  · rename_i i hi
    exact .of_modify (List.mem_of_getElem? hi) (fun _ h => h) rfl
  · exact .of_eq rfl rfl

theorem carries_withLoop (c : Draft) (o : Options) (vars : List Identity) (length : Nat) :
    c.Carries (c.withLoop o vars length) where
  count := by
    change c.loops.length ≤ (c.loops ++ [_]).length
    rw [List.length_append]
    exact Nat.le_add_right _ _
  stack := fun i hi => by
    rcases List.mem_append.mp hi with hi | hi
    · exact .inl hi
    · exact .inr (Nat.le_of_eq (List.mem_singleton.mp hi).symm)
  loops := fun i l hl _ _ => by
    have hlt := (List.getElem?_eq_some_iff.mp hl).1
    refine ⟨l,?_,rfl,rfl,rfl,rfl⟩
    change (c.loops ++ [_])[i]? = _
    rw [List.getElem?_append_left hlt, hl]

theorem carries_withoutLoop {i : Nat} {l : Loop} (hi : c.stack.getLast? = some i) (body : Listing) :
    c.Carries ({ c with body }.withoutLoop i l) :=
  .of_modify (List.mem_of_getLast? hi) (fun _ h => List.dropLast_subset _ h) rfl

theorem carries_backTo {inner : Draft} (h : c.atTop.Carries inner) : c.Carries (inner.backTo c) where
  count := h.count
  stack := fun _ hi => .inl hi
  loops := fun i l hl _ hopen => h.loops i l hl List.not_mem_nil hopen

theorem carries_adopt {inner : Draft} (h : c.atTop.Carries inner) :
    c.Carries ((inner.backTo c).adopt inner) := by
  have hqueue := carries_queueAt (inner.backTo c) 0 inner.body
  have hadopt : ((inner.backTo c).queueAt 0 inner.body).Carries ((inner.backTo c).adopt inner) :=
    .of_eq rfl rfl
  exact (carries_backTo h).trans (hqueue.trans hadopt)

end Draft

theorem of_gives_closeLoop {c c' : Draft} {i : Nat} {l : Loop} (hl : c.loops[i]? = some l)
    (h : (closeLoop i).Gives c ⟨⟩ c') : c.stack.getLast? = some i ∧ l.closed = false := by
  cases hclosed : l.closed with
  | true => simp [closeLoop, Gives, Draft.loop?, hl, hclosed] at h
  | false =>
    by_cases hi : c.stack.getLast? = some i
    · exact ⟨hi,rfl⟩
    · simp [closeLoop, Gives, Draft.loop?, hl, hclosed, hi] at h

namespace Draft

variable {c c' : Draft} {e : Event} {L : Layout}

theorem Adds.carries (h : c.Adds e c') : c.Carries c' := by
  cases h with
  | written ls hb hs hl => exact .of_eq hs hl
  | staged hi ls hb hs hl => exact .of_modify hi (fun _ hj => hs ▸ hj) hl

/-- The loop of a pile is open, and its opening line stands behind the lines of the blocks before. -/
structure Stands (loops : List Loop) (ps : List Pile) (p : Pile) (l : Loop) : Prop where
  loop : loops[p.loop]? = some l
  closed : l.closed = false
  queued : l.queued = p.queued
  start : l.start = (Layout.unfold ps p.before).length
  depth : (l.depth : Int) = p.header.depth + 1

def Stacked (loops : List Loop) : List Pile → Prop
  | [] => True
  | p :: ps => (∃ l, Stands loops ps p l) ∧ Stacked loops ps

/-- The draft has the given layout. -/
structure Laid (c : Draft) (L : Layout) : Prop where
  body : c.body = L.body
  stack : c.stack.reverse = L.piles.map (·.loop)
  count : c.loops.length = L.count
  distinct : (L.piles.map (·.loop)).Nodup
  stacked : Stacked c.loops L.piles

theorem Stacked.of_rests {loops loops' : List Loop} {ps : List Pile} (h : Stacked loops ps)
    (hl : ∀ i ∈ ps.map (·.loop), ∀ l, loops[i]? = some l → l.closed = false →
      ∃ l', loops'[i]? = some l' ∧ l.Rests l') : Stacked loops' ps := by
  induction ps with
  | nil => trivial
  | cons p ps ih =>
    obtain ⟨⟨l,hs⟩,hps⟩ := h
    obtain ⟨l',hl',hr⟩ := hl p.loop List.mem_cons_self l hs.loop hs.closed
    refine ⟨⟨l',hl',hr.closed.trans hs.closed,hr.queued.trans hs.queued,hr.start.trans hs.start,?_⟩,?_⟩
    · rw [hr.depth, hs.depth]
    · exact ih hps fun i hi => hl i (List.mem_cons_of_mem _ hi)

theorem Stacked.stage {loops : List Loop} {ps : List Pile} (h : Stacked loops ps) (i : Nat)
    (ls : List Line) : Stacked (loops.modify i fun l => { l with queued := l.queued ++ ls })
      (ps.map (Pile.stage i ls)) := by
  induction ps with
  | nil => trivial
  | cons p ps ih =>
    obtain ⟨⟨l,hs⟩,hps⟩ := h
    refine ⟨?_,ih hps⟩
    by_cases hp : p.loop = i
    · refine ⟨{ l with queued := l.queued ++ ls },?_,hs.closed,?_,?_,?_⟩
      · rw [Layout.loop_stage, List.getElem?_modify, hs.loop]
        simp [hp]
      · simp [Pile.stage, hp, hs.queued]
      · simp [Pile.stage, hp, hs.start]
      · simp [Pile.stage, hp, hs.depth]
    · refine ⟨l,?_,hs.closed,?_,?_,?_⟩
      · rw [Layout.loop_stage, List.getElem?_modify, hs.loop]
        simp [Ne.symm hp]
      · simp [Pile.stage, hp, hs.queued]
      · simp [Pile.stage, hp, hs.start]
      · simp [Pile.stage, hp, hs.depth]

namespace Laid

theorem mem_piles (h : c.Laid L) {i : Nat} : i ∈ L.piles.map (·.loop) ↔ i ∈ c.stack := by
  rw [← h.stack, List.mem_reverse]

theorem quiet (h : c.Laid L) (hq : c.Quiet c') : c'.Laid L where
  body := hq.body.trans h.body
  stack := hq.stack ▸ h.stack
  count := hq.count.trans h.count
  distinct := h.distinct
  stacked := h.stacked.of_rests fun i _ l hl hopen => hq.loops i l hl hopen

theorem stage (h : c.Laid L) {i : Nat} {ls : List Line} (hb : c'.body = c.body)
    (hs : c'.stack = c.stack)
    (hl : c'.loops = c.loops.modify i fun l => { l with queued := l.queued ++ ls }) :
    c'.Laid (L.stage i ls) where
  body := by rw [hb, h.body, Layout.body, Layout.body, Layout.stage, Layout.unfold_map_stage]
  stack := by rw [Layout.loops_stage, hs, h.stack]
  count := by
    rw [hl, List.length_modify, h.count]
    rfl
  distinct := by
    rw [Layout.loops_stage]
    exact h.distinct
  stacked := by
    rw [hl]
    exact h.stacked.stage i ls

theorem adds (h : c.Laid L) (ha : c.Adds e c') : ∃ M, L.Step e M ∧ c'.Laid M := by
  cases ha with
  | written ls hb hs hl =>
    refine ⟨_,.written ls,?_,hs ▸ h.stack,hl ▸ h.count,h.distinct,hl ▸ h.stacked⟩
    rw [hb, h.body, Layout.body, Layout.body, Layout.unfold_append]
  | staged hi ls hb hs hl => exact ⟨_,.staged (h.mem_piles.mpr hi) ls,h.stage hb hs hl⟩

theorem atTop (c : Draft) : c.atTop.Laid ⟨[], [], c.loops.length⟩ :=
  ⟨rfl,rfl,rfl,List.nodup_nil,trivial⟩

theorem backTo {inner : Draft} (h : c.Laid L) (hc : c.atTop.Carries inner) :
    (inner.backTo c).Laid { L with count := inner.loops.length } where
  body := h.body
  stack := h.stack
  count := rfl
  distinct := h.distinct
  stacked := h.stacked.of_rests fun i _ l hl hopen => hc.loops i l hl List.not_mem_nil hopen

theorem adopt {inner : Draft} {i : Nat} (h : c.Laid L) (hc : c.atTop.Carries inner)
    (hi : c.stack.head? = some i) : ((inner.backTo c).adopt inner).Laid
      { L.stage i inner.body with count := inner.loops.length } := by
  have hget : (inner.backTo c).stack[0]? = some i := List.head?_eq_getElem? ▸ hi
  have hqueue : (inner.backTo c).queueAt 0 inner.body = (inner.backTo c).modifyLoop i
      fun l => { l with queued := l.queued ++ inner.body } := by
    rw [queueAt, hget]
  refine (h.backTo hc).stage ?_ ?_ ?_
  · rw [Draft.adopt, hqueue]
    rfl
  · rw [Draft.adopt, hqueue]
    rfl
  · rw [Draft.adopt, hqueue]
    rfl

theorem lt_length (h : c.Laid L) {i : Nat} (hi : i ∈ L.piles.map (·.loop)) : i < c.loops.length := by
  have hall : ∀ ps : List Pile, Stacked c.loops ps → ∀ i ∈ ps.map (·.loop), i < c.loops.length := by
    intro ps
    induction ps with
    | nil => exact fun _ i hi => nomatch hi
    | cons p ps ih =>
      rintro ⟨⟨l,hs⟩,hps⟩ i hi
      rcases List.mem_cons.mp hi with rfl | hi
      · exact (List.getElem?_eq_some_iff.mp hs.loop).1
      · exact ih hps i hi
  exact hall L.piles h.stacked i hi

theorem withLoop (h : c.Laid L) {o : Options} (ho : o.Valid) (vars : List Identity) (length : Nat) :
    ∃ M, L.Step (.opened c.loops.length ⟨c.depth, (c.nextLoop o vars length).opening⟩) M ∧
      (c.withLoop o vars length).Laid M := by
  have hloops : (c.withLoop o vars length).loops = c.loops ++ [c.nextLoop o vars length] := rfl
  have hstack : (c.withLoop o vars length).stack = c.stack ++ [c.loops.length] := rfl
  have hlt : ∀ i ∈ L.piles.map (·.loop), i < c.loops.length := fun i => h.lt_length
  rw [h.count]
  refine ⟨_,.opened _,?_,?_,?_,?_,?_,?_⟩
  · rw [withLoop_body ho, h.body, Layout.body, Layout.body, Layout.unfold, Layout.unfold_append]
  · rw [hstack, List.reverse_append, h.stack, h.count]
    rfl
  · rw [hloops, List.length_append, h.count]
    rfl
  · exact List.nodup_cons.mpr ⟨fun hmem => Nat.lt_irrefl _ (h.count ▸ hlt _ hmem),h.distinct⟩
  · refine ⟨c.nextLoop o vars length,?_,rfl,rfl,congrArg List.length h.body,rfl⟩
    rw [hloops, ← h.count]
    exact List.getElem?_concat_length
  · refine h.stacked.of_rests fun i hi l hl _ => ⟨l,?_,rfl,rfl,rfl,rfl⟩
    rw [hloops, List.getElem?_append_left (hlt i hi), hl]

end Laid

theorem after_append (as bs : Listing) (l : Line) :
    Listing.after (as ++ l :: bs) ((as.length : Int) + 1) = bs := by
  have hle : (0 : Int) ≤ (as.length : Int) + 1 := by omega
  have hnat : ((as.length : Int) + 1).toNat = (as ++ [l]).length := by simp
  have hcons : as ++ l :: bs = as ++ [l] ++ bs := List.append_cons as l bs
  rw [Listing.after, if_pos hle, hnat, hcons, List.drop_left]

theorem ofSnippet_pass (d : Nat) : Line.ofSnippet "pass" d = [⟨d, "pass"⟩] := by
  have hlist : "pass".toList = 'p' :: ['a', 's', 's'] := rfl
  rw [Line.ofSnippet_single hlist (by decide) (by decide)]
  rfl

/-- A closing loop gets what waits for it in front, and a `pass` if nothing follows its opening line. -/
theorem closedBody_append {as bs : Listing} {header : Line} {l : Loop} (hstart : l.start = as.length)
    (hdepth : (l.depth : Int) = header.depth + 1) : closedBody (as ++ header :: bs) l =
      as ++ l.queued ++ header :: (bs ++ passFor header bs) := by
  have hsplit : ∀ cs : Listing, (as ++ cs).take l.start ++ l.queued ++ (as ++ cs).drop l.start =
      as ++ l.queued ++ cs := by
    intro cs
    rw [hstart, List.take_left, List.drop_left]
  have hafter : Listing.after (as ++ header :: bs) ((l.start : Int) + 1) = bs := by
    rw [hstart, after_append]
  rw [closedBody, hafter, passFor]
  cases bs with
  | nil =>
    have happend : Listing.append (as ++ [header]) "pass" l.depth =
        as ++ [header, ⟨header.depth + 1, "pass"⟩] := by
      rw [Listing.append, ofSnippet_pass, hdepth, List.append_assoc]
      rfl
    simp only [List.isEmpty_nil, if_true, happend, hsplit, List.nil_append]
  | cons b bs => simp only [List.isEmpty_cons, Bool.false_eq_true, if_false, hsplit, reduceCtorEq,
      List.append_nil]

namespace Laid

theorem withoutLoop (h : c.Laid L) {i : Nat} {l : Loop} (hi : c.stack.getLast? = some i)
    (hl : c.loops[i]? = some l) : l.start ≤ c.body.length ∧ ∃ M,
      L.Step (.closed i (if (c.body.after (l.start + 1)).isEmpty then [⟨l.depth, "pass"⟩] else [])) M ∧
      ({ c with body := closedBody c.body l }.withoutLoop i l).Laid M := by
  obtain ⟨piles,block,count⟩ := L
  cases piles with
  | nil =>
    have hnil : c.stack = [] := List.reverse_eq_nil_iff.mp h.stack
    rw [hnil] at hi
    cases hi
  | cons p ps =>
    have hstack := h.stack
    obtain ⟨⟨l',hs⟩,hps⟩ := h.stacked
    have hp : i = p.loop := by
      rw [← List.head?_reverse, hstack] at hi
      exact (Option.some.inj hi).symm
    subst hp
    obtain rfl : l = l' := Option.some.inj (hl.symm.trans hs.loop)
    have hbody : c.body = Layout.unfold ps p.before ++ p.header :: block := by
      rw [h.body, Layout.body, Layout.unfold, Layout.unfold_append]
    have hpass : (if (c.body.after (l.start + 1)).isEmpty then [⟨l.depth, "pass"⟩] else []) =
        passFor p.header block := by
      rw [hbody, hs.start, after_append, passFor, hs.depth]
      simp
    have hne := (List.nodup_cons.mp h.distinct).1
    rw [hpass]
    refine ⟨?_,_,.closed p ps block count,?_⟩
    · rw [hbody, hs.start, List.length_append]
      exact Nat.le_add_right _ _
    · refine ⟨?_,?_,?_,(List.nodup_cons.mp h.distinct).2,?_⟩
      · change closedBody c.body l = _
        rw [hbody, closedBody_append hs.start hs.depth, hs.queued, Layout.body,
          List.append_assoc p.before, Layout.unfold_append, List.append_assoc]
      · change c.stack.dropLast.reverse = _
        rw [← List.tail_reverse, hstack]
        rfl
      · change (c.loops.modify p.loop _).length = _
        rw [List.length_modify]
        exact h.count
      · refine hps.of_rests fun j hj m hm _ => ⟨m,?_,rfl,rfl,rfl,rfl⟩
        rw [getElem?_loops_withoutLoop c _ _ j hl, if_neg, hm]
        rintro rfl
        exact hne hj

end Laid

end Draft

namespace Setting

variable {s : Setting} {α : Type} {x : Emit α} {c : Draft} {es : List Event}

theorem Logs.run (ho : s.options.Valid) (h : s.Logs x c es) : ∀ L, c.Laid L →
    c.Carries (x.outcome c).2 ∧ ∃ M, L.Run es M ∧ (x.outcome c).2.Laid M := by
  induction h with
  | quiet h => exact fun L hL => ⟨h.carries,L,.refl L,hL.quiet h⟩
  | bind hx _ _ ih ihf =>
    intro L hL
    obtain ⟨hc,M,hM,hlaid⟩ := ih L hL
    rw [hx] at hc hlaid
    obtain ⟨hc',N,hN,hlaid'⟩ := ihf M hlaid
    rw [outcome_bind, hx]
    exact ⟨hc.trans hc',N,hM.trans hN,hlaid'⟩
  | stop hx _ ih =>
    intro L hL
    rw [outcome_bind, hx]
    have := ih L hL
    rwa [hx] at this
  | attempt _ ih => exact ih
  | freshTemp c =>
    intro L hL
    exact ⟨.of_eq rfl rfl,L,.single (.named _ _),hL.body,hL.stack,hL.count,hL.distinct,hL.stacked⟩
  | bindTemp h =>
    intro L hL
    have hadds := (binds_bindTemp h).adds
    obtain ⟨M,hM,hlaid⟩ := hL.adds hadds
    rw [h]
    exact ⟨hadds.carries,M,.snoc (.single (.named _ _)) hM,hlaid⟩
  | introduceArray h =>
    intro L hL
    have hadds := (binds_introduceArray h).adds
    obtain ⟨M,hM,hlaid⟩ := hL.adds hadds
    rw [h]
    exact ⟨hadds.carries,M,.snoc (.single (.named _ _)) hM,hlaid⟩
  | write text c =>
    intro L hL
    have hadds : c.Adds (.written (Line.ofSnippet text c.depth)) ((s.write text).outcome c).2 :=
      .written _ rfl rfl rfl
    obtain ⟨M,hM,hlaid⟩ := hL.adds hadds
    exact ⟨hadds.carries,M,.single hM,hlaid⟩
  | @openLoop node i l c c' h hl =>
    intro L hL
    rcases s.openLoop_cases node c with ⟨e,he⟩ | ⟨vars,length,hopen,_⟩
    · cases h.symm.trans he
    · cases h.symm.trans hopen
      obtain rfl : c.nextLoop s.options vars length = l :=
        Option.some.inj (List.getElem?_concat_length.symm.trans hl)
      obtain ⟨M,hM,hlaid⟩ := hL.withLoop ho vars length
      rw [hopen]
      exact ⟨c.carries_withLoop _ _ _,M,.snoc (.single (.named _ _)) hM,hlaid⟩
  | @closeLoop i l c c' h hl =>
    intro L hL
    obtain ⟨hi,hopen⟩ := of_gives_closeLoop hl h
    obtain ⟨hstart,M,hM,hlaid⟩ := hL.withoutLoop hi hl
    rw [closeLoop_outcome_of hi hl hopen hstart]
    exact ⟨Draft.carries_withoutLoop hi _,M,.single hM,hlaid⟩
  | @queue i c hi ls =>
    intro L hL
    have hadds : c.Adds (.staged i ls)
        (c.modifyLoop i fun l => { l with queued := l.queued ++ ls }) := .staged hi ls rfl rfl rfl
    obtain ⟨M,hM,hlaid⟩ := hL.adds hadds
    exact ⟨hadds.carries,M,.single hM,hlaid⟩
  | @lifted x c inner i es hx hs hi _ ih =>
    intro L hL
    obtain ⟨hc,M,hM,hlaid⟩ := ih _ (.atTop c)
    rw [hx] at hc hlaid
    have hpiles : M.piles = [] := by
      have := hlaid.stack
      rw [hs] at this
      exact List.map_eq_nil_iff.mp this.symm
    have harranged := hM.arranged hpiles
    rw [← hlaid.body] at harranged
    have hmem := hL.mem_piles.mpr (List.mem_of_head? hi)
    rw [outcome_atTopLevel_ok hx]
    refine ⟨Draft.carries_adopt hc,_,.single (.lifted hmem harranged ?_),hL.adopt hc hi⟩
    exact hL.count ▸ hc.count
  | @dropped x c inner e es hx _ ih =>
    intro L hL
    obtain ⟨hc,_⟩ := ih _ (.atTop c)
    rw [hx] at hc
    rw [outcome_atTopLevel_error hx]
    exact ⟨Draft.carries_backTo hc,_,.single (.dropped es (hL.count ▸ hc.count)),hL.backTo hc⟩

theorem History.run (ho : s.options.Valid) {now : List Answer × Draft} {commands : List Command}
    (h : s.History now commands es) : ∀ L, now.2.Laid L →
      ∃ M, L.Run es M ∧ (commands.foldl s.after now).2.Laid M := by
  induction h with
  | nil now => exact fun L hL => ⟨L,.refl L,hL⟩
  | cons h _ ih =>
    intro L hL
    obtain ⟨_,M,hM,hlaid⟩ := h.run ho L hL
    obtain ⟨N,hN,hlaid'⟩ := ih M hlaid
    exact ⟨N,hM.trans hN,hlaid'⟩

/-- No session that closes its loops loses a line, writes one twice or puts one out of order. -/
theorem reach_arranged {given : List (String × Datum)} {machine : Machine}
    (ho : Options.ofFields given machine = .ok s.options)
    (hg : s.graph.Scriptless) (n : Nat) (commands : List Command)
    (hend : (s.reach n commands).stack = []) :
    (∃ es, s.History ([], { nextSerial := n }) commands es) ∧
      ∀ es, s.History ([], { nextSerial := n }) commands es →
        Arranged es (s.reach n commands).body := by
  have hv := Options.valid_of_ofFields ho
  refine ⟨exists_history hv hg commands _ (Draft.sound_start n) ?_,?_⟩
  · intro i l hl
    cases hl
  intro es hes
  have hstart : Draft.Laid { nextSerial := n } ⟨[], [], 0⟩ := ⟨rfl,rfl,rfl,List.nodup_nil,trivial⟩
  obtain ⟨L,hL,hlaid⟩ := hes.run hv _ hstart
  have hpiles : L.piles = [] := by
    have hstack := hlaid.stack
    rw [show (commands.foldl s.after ([], { nextSerial := n })).2.stack = [] from hend] at hstack
    exact List.map_eq_nil_iff.mp hstack.symm
  have harranged := hL.arranged hpiles
  rwa [← hlaid.body] at harranged

/-- The entries of `x`, each multiplied by the sum of all of them, added up. -/
def normalized : Setting where
  graph := ⟨#[⟨"x", .observable⟩, ⟨"total", .entrySum 0⟩, ⟨"part", .product [0, 1]⟩,
    ⟨"s", .entrySum 2⟩]⟩
  options := {}
  sizes := [(⟨0, "x"⟩, 2), (⟨2, "part"⟩, 2)]

theorem scriptless_normalized : normalized.graph.Scriptless :=
  Graph.scriptless_of_vertices (by simp [normalized])

/-- Lines are staged for a loop, and the inner sum is lowered in front of it while it is open. -/
def normalizing : List Command :=
  [.assignColumn (.object 0) (.value (.int 0)), .openLoop (.object 3), .queue 0 [⟨0, "# parts"⟩],
    .request (.object 2), .closeLoop 0]

theorem reach_arranged_normalized :
    (normalized.reach 4 normalizing).body = [⟨0, "# parts"⟩, ⟨0, "t0 = 0.0"⟩,
        ⟨0, "for loop_idx1 in range(2):"⟩, ⟨1, "t0 += obs[0][loop_idx1]"⟩,
        ⟨0, "for loop_idx0 in range(2):"⟩, ⟨1, "t1 = (obs[0][loop_idx0]) * (t0)"⟩] ∧
      (normalized.reach 4 normalizing).stack = [] ∧
      (∃ es, normalized.History ([], { nextSerial := 4 }) normalizing es) ∧
      ∀ es, normalized.History ([], { nextSerial := 4 }) normalizing es →
        Arranged es (normalized.reach 4 normalizing).body :=
  ⟨by decide +kernel,by decide +kernel,reach_arranged (rfl : Options.ofFields [] = .ok {})
    scriptless_normalized 4 normalizing (by decide +kernel)⟩

end Setting

end FitCode
