import FitCode.Proofs.Lowering.Naming

/-! # Names are introduced once

Fresh names and given names are compared with the names in use, but the index of a loop is not. So a
name is introduced twice only if it was given first and is the index of a loop that was opened later.
-/
namespace FitCode

open Emit

mutual

/-- The names that an event introduces. Those of a failed lowering stay in use. -/
def Event.names : Event → List (String × Origin)
  | .named name origin => [(name, origin)]
  | .lifted _ inner _ => namesOf inner
  | .dropped inner => namesOf inner
  | _ => []

/-- The names that a log introduces, in order. -/
def namesOf : List Event → List (String × Origin)
  | [] => []
  | e :: es => e.names ++ namesOf es

end

theorem namesOf_append (es fs : List Event) : namesOf (es ++ fs) = namesOf es ++ namesOf fs := by
  induction es with
  | nil => rfl
  | cons e es ih => rw [List.cons_append, namesOf, namesOf, ih, List.append_assoc]

/-- No two introductions of one name, except for the index of a loop that is a name given before. -/
def Introduced (ns : List (String × Origin)) : Prop :=
  ns.Pairwise fun a b => a.1 = b.1 → a.2 = .given ∧ b.2 = .index

namespace Draft

/-- The names in use are those introduced so far, and of those the next indices are given ones. -/
structure Knows (o : Options) (c : Draft) (ns : List (String × Origin)) : Prop where
  taken : ∀ n, n ∈ c.taken ↔ ∃ k, (n, k) ∈ ns
  index : ∀ j, c.loopCount ≤ j → ∀ k, (numbered o.loopStem j, k) ∈ ns → k = .given
  once : Introduced ns
  nonempty : ∀ a ∈ ns, a.1 ≠ ""

namespace Knows

variable {o : Options} {c c' : Draft} {ns : List (String × Origin)}

theorem of_eq (h : c.Knows o ns) (ht : c'.taken = c.taken) (hc : c'.loopCount = c.loopCount) :
    c'.Knows o ns := ⟨ht ▸ h.taken,hc ▸ h.index,h.once,h.nonempty⟩

theorem concat {name : String} {origin : Origin} (h : c.Knows o ns)
    (ht : ∀ n, n ∈ c'.taken ↔ n = name ∨ n ∈ c.taken) (hc : c.loopCount ≤ c'.loopCount)
    (hne : name ≠ "") (honce : ∀ k, (name, k) ∈ ns → k = .given ∧ origin = .index)
    (hindex : ∀ j, c'.loopCount ≤ j → name = numbered o.loopStem j → origin = .given) :
    c'.Knows o (ns ++ [(name, origin)]) where
  taken := fun n => by
    rw [ht, h.taken]
    constructor
    · rintro (rfl | ⟨k,hk⟩)
      · exact ⟨origin,by simp⟩
      · exact ⟨k,by simp [hk]⟩
    · rintro ⟨k,hk⟩
      rcases List.mem_append.mp hk with hk | hk
      · exact .inr ⟨k,hk⟩
      · cases List.mem_singleton.mp hk
        exact .inl rfl
  index := fun j hj k hk => by
    rcases List.mem_append.mp hk with hk | hk
    · exact h.index j (Nat.le_trans hc hj) k hk
    · have heq := Prod.mk.inj (List.mem_singleton.mp hk)
      rw [heq.2]
      exact hindex j hj heq.1.symm
  once := by
    refine List.pairwise_append.mpr ⟨h.once,List.pairwise_singleton _ _,fun a ha b hb heq => ?_⟩
    obtain rfl := List.mem_singleton.mp hb
    obtain ⟨n,k⟩ := a
    obtain rfl : n = name := heq
    exact honce k ha
  nonempty := fun a ha => by
    rcases List.mem_append.mp ha with ha | ha
    · exact h.nonempty a ha
    · rw [List.mem_singleton.mp ha]
      exact hne

/-- A name that is not in use, and can be that of a loop only if it was given. -/
theorem concat_free {name : String} {origin : Origin} (h : c.Knows o ns)
    (ht : ∀ n, n ∈ c'.taken ↔ n = name ∨ n ∈ c.taken) (hc : c'.loopCount = c.loopCount)
    (hfree : name ∉ c.taken) (hne : name ≠ "")
    (hindex : ∀ j, name = numbered o.loopStem j → origin = .given) :
    c'.Knows o (ns ++ [(name, origin)]) := by
  refine h.concat ht (Nat.le_of_eq hc.symm) hne (fun k hk => ?_) fun j _ => hindex j
  exact absurd ((h.taken name).mpr ⟨k,hk⟩) hfree

end Knows

end Draft

/-- Fresh names are told apart from indices by their stems. -/
structure Options.Apart (o : Options) : Prop where
  temp : ∀ i j, numbered o.tempStem i ≠ numbered o.loopStem j
  array : ∀ i j, numbered o.arrayStem i ≠ numbered o.loopStem j

theorem Options.apart_default : Options.Apart {} := by
  have hhead : ∀ (c : Char) (cs : List Char) (i j : Nat), c ≠ 'l' →
      numbered (String.ofList (c :: cs)) i ≠ numbered "loop_idx" j := by
    intro c cs i j hc h
    have hlist := congrArg (fun s => s.toList.head?) h
    simp [numbered, String.toList_append] at hlist
    exact hc hlist
  exact ⟨fun i j => hhead 't' [] i j (by decide),fun i j => hhead 'a' ['r', 'r'] i j (by decide)⟩

theorem names_closeLoop (i : Nat) (c : Draft) : ((closeLoop i).outcome c).2.taken = c.taken ∧
    ((closeLoop i).outcome c).2.loopCount = c.loopCount := by
  -- What is left once the loop has been filled up.
  have htail : ∀ (l : Loop) (c : Draft) (y : Emit Unit), y = (if (!l.queued.isEmpty) = true then
        get >>= fun d => Emit.ofExcept (d.body.insert l.start l.queued) >>= fun body =>
          modify (fun c => { c with body }) >>= fun _ => modify fun c => c.withoutLoop i l
      else modify fun c => c.withoutLoop i l) →
      (y.outcome c).2.taken = c.taken ∧ (y.outcome c).2.loopCount = c.loopCount := by
    rintro l c y rfl
    split
    · rw [outcome_get_bind, outcome_bind, outcome_ofExcept]
      cases c.body.insert l.start l.queued <;> exact ⟨rfl,rfl⟩
    · exact ⟨rfl,rfl⟩
  simp only [closeLoop, outcome_get_bind]
  cases c.loop? i with
  | none => exact ⟨rfl,rfl⟩
  | some l =>
    dsimp only
    split
    · exact ⟨rfl,rfl⟩
    · split
      · exact ⟨rfl,rfl⟩
      · split
        · exact htail l { c with body := c.body.append "pass" l.depth } _ rfl
        · exact htail l c _ rfl

namespace Setting

variable {s : Setting} {α : Type} {x : Emit α} {c c' : Draft} {es : List Event}

theorem names_placed (c : Draft) (d : Nat) (statement : String) : (c.placed d statement).names = [] := by
  rw [Draft.placed]
  split <;> rfl

theorem explicitName_ne {given : Option String} {name : String} (h : explicitName given = some name) :
    name ≠ "" := by
  have hfilter := (Option.filter_eq_some_iff.mp h).2
  simpa using hfilter

theorem knows_binds {ns : List (String × Origin)} {given : Option String} {name statement : String}
    (ha : s.options.Apart) (h : c.Knows s.options ns)
    (hb : c.Binds s.options given name statement c') (d : Nat) :
    c'.Knows s.options (ns ++ namesOf [.named name (originOf given), c.placed d statement]) := by
  have hnames : namesOf [.named name (originOf given), c.placed d statement] =
      [(name, originOf given)] := by
    simp [namesOf, names_placed, Event.names]
  rw [hnames]
  have hnamed := hb.named
  cases hgiven : explicitName given with
  | some n =>
    rw [hgiven] at hnamed
    have horigin : originOf given = .given := by rw [originOf, hgiven]; rfl
    exact h.concat_free hb.taken hb.loopCount hb.free (hnamed ▸ explicitName_ne hgiven) fun _ _ => horigin
  | none =>
    rw [hgiven] at hnamed
    obtain ⟨k,hk⟩ := hnamed
    have hne : name ≠ "" := by
      rcases hk with rfl | rfl
      · exact numbered_ne_empty _ _
      · exact numbered_ne_empty _ _
    refine h.concat_free hb.taken hb.loopCount hb.free hne fun j hj => ?_
    rcases hk with rfl | rfl
    · exact absurd hj (ha.temp _ _)
    · exact absurd hj (ha.array _ _)

theorem knows_queueAt {o : Options} {ns : List (String × Origin)} (h : c.Knows o ns) (d : Nat)
    (ls : List Line) : (c.queueAt d ls).Knows o ns := by
  rw [Draft.queueAt]
  split
  · exact h.of_eq rfl rfl
  · exact h

theorem Logs.knows (ha : s.options.Apart) (h : s.Logs x c es) : ∀ ns, c.Knows s.options ns →
    (x.outcome c).2.Knows s.options (ns ++ namesOf es) := by
  induction h with
  | quiet h =>
    intro ns hns
    rw [namesOf, List.append_nil]
    exact hns.of_eq h.taken h.loopCount
  | bind hx _ _ ih ihf =>
    intro ns hns
    have hfst := ih ns hns
    rw [hx] at hfst
    rw [outcome_bind, hx, namesOf_append, ← List.append_assoc]
    exact ihf _ hfst
  | stop hx _ ih =>
    intro ns hns
    have hfst := ih ns hns
    rw [hx] at hfst
    rw [outcome_bind, hx]
    exact hfst
  | attempt _ ih => exact ih
  | freshTemp c =>
    intro ns hns
    refine hns.concat_free ?_ rfl (not_mem_freshTemp _ _) (numbered_ne_empty _ _) ?_
    · exact fun n => List.mem_cons
    · exact fun j hj => absurd hj (ha.temp _ _)
  | bindTemp h =>
    intro ns hns
    rw [h]
    exact knows_binds ha hns (binds_bindTemp h) _
  | introduceArray h =>
    intro ns hns
    rw [h]
    exact knows_binds ha hns (binds_introduceArray h) _
  | write text c =>
    intro ns hns
    exact (List.append_nil ns).symm ▸ hns.of_eq rfl rfl
  | @openLoop node i l c c' h hl =>
    intro ns hns
    rcases s.openLoop_cases node c with ⟨e,he⟩ | ⟨vars,length,hopen,_⟩
    · cases h.symm.trans he
    · cases h.symm.trans hopen
      obtain rfl : c.nextLoop s.options vars length = l :=
        Option.some.inj (List.getElem?_concat_length.symm.trans hl)
      rw [hopen]
      -- The name may be in use, but then it was given.
      refine hns.concat (fun n => List.mem_cons) (Nat.le_succ _) (numbered_ne_empty _ _)
        (fun k hk => ⟨hns.index _ (Nat.le_refl _) k hk,rfl⟩) fun j hj hname => ?_
      have heq := numbered_injective _ hname
      have hlt : c.loopCount + 1 ≤ j := hj
      omega
  | @closeLoop i l c c' h hl =>
    intro ns hns
    have hnames := names_closeLoop i c
    exact (List.append_nil ns).symm ▸ hns.of_eq hnames.1 hnames.2
  | queue hi ls =>
    intro ns hns
    exact (List.append_nil ns).symm ▸ hns.of_eq rfl rfl
  | @lifted x c inner i es hx hs hi _ ih =>
    intro ns hns
    have hinner := ih ns (hns.of_eq rfl rfl)
    rw [hx] at hinner
    have hback : (inner.backTo c).Knows s.options (ns ++ namesOf es) := hinner.of_eq rfl rfl
    rw [outcome_atTopLevel_ok hx, namesOf, namesOf, List.append_nil]
    exact (knows_queueAt hback 0 inner.body).of_eq rfl rfl
  | @dropped x c inner e es hx _ ih =>
    intro ns hns
    have hinner := ih ns (hns.of_eq rfl rfl)
    rw [hx] at hinner
    rw [outcome_atTopLevel_error hx, namesOf, namesOf, List.append_nil]
    exact hinner.of_eq rfl rfl

theorem History.knows (ha : s.options.Apart) {now : List Answer × Draft} {commands : List Command}
    (h : s.History now commands es) : ∀ ns, now.2.Knows s.options ns →
      (commands.foldl s.after now).2.Knows s.options (ns ++ namesOf es) := by
  induction h with
  | nil now => exact fun ns hns => (List.append_nil ns).symm ▸ hns
  | cons h _ ih =>
    intro ns hns
    rw [namesOf_append, ← List.append_assoc]
    exact ih _ (h.knows ha ns hns)

theorem refused_of_mem {name : String} (hname : name ≠ "") (ht : name ∈ c.taken) {node : Datum}
    {id : Identity} (hid : s.graph.identityOf node = .ok id) (expr : String) (texts : List String) :
    (s.bindTemp node expr (some name)).outcome c = (.error (.nameTaken name id.shown), c) ∧
      (s.introduceArray id texts (some name)).outcome c = (.error (.nameTaken name id.shown), c) := by
  have hgiven : explicitName (some name) = some name := by simp [explicitName, hname]
  have hcontains : c.taken.contains name = true := by simpa using ht
  constructor
  · unfold bindTemp
    rw [outcome_get_bind, hgiven]
    simp only [hcontains, if_true, identityOf, hid]
    rfl
  · unfold introduceArray
    rw [outcome_get_bind, hgiven]
    simp only [hcontains, if_true]
    rfl

/-- No session introduces a name twice, unless it opens a loop whose index was given as a name before. A
name that was introduced is refused when it is given. -/
theorem reach_introduced (ho : s.options = {}) (hg : s.graph.Scriptless) (n : Nat)
    (commands : List Command) : (∃ es, s.History ([], { nextSerial := n }) commands es) ∧
      ∀ es, s.History ([], { nextSerial := n }) commands es → Introduced (namesOf es) ∧
        ∀ name origin, (name, origin) ∈ namesOf es → ∀ node id, s.graph.identityOf node = .ok id →
          ∀ expr texts,
            (s.bindTemp node expr (some name)).outcome (s.reach n commands) =
              (.error (.nameTaken name id.shown), s.reach n commands) ∧
            (s.introduceArray id texts (some name)).outcome (s.reach n commands) =
              (.error (.nameTaken name id.shown), s.reach n commands) := by
  have hdefault : Options.ofFields [] = .ok {} := rfl
  have hv : s.options.Valid := ho ▸ Options.valid_of_ofFields hdefault
  have hstart : Draft.Knows s.options { nextSerial := n } [] :=
    { taken := fun n => by simp
      index := fun j _ k hk => nomatch hk
      once := List.Pairwise.nil
      nonempty := fun a ha => nomatch ha }
  refine ⟨exists_history hv hg commands _ (Draft.sound_start n) ?_,fun es hes => ?_⟩
  · intro i l hl
    cases hl
  · have hknows := hes.knows (ho ▸ Options.apart_default) [] hstart
    refine ⟨hknows.once,fun name origin hname node id hid expr texts => ?_⟩
    have htaken := (hknows.taken name).mpr ⟨origin,hname⟩
    exact refused_of_mem (hknows.nonempty _ hname) htaken hid expr texts

/-- A name is given, a temporary skips it, and it is refused when it is given again. -/
theorem reach_introduced_scaledSum :
    scaledSum.graph.identityOf (.object 1) = .ok ⟨1, "p"⟩ ∧
      (scaledSum.reach 4 [.bindTemp (.object 1) "1" (some "t0"), .temp]).taken = ["t1", "t0"] ∧
      (∃ es, scaledSum.History ([], { nextSerial := 4 })
        [.bindTemp (.object 1) "1" (some "t0"), .temp] es) ∧
      ∀ es, scaledSum.History ([], { nextSerial := 4 })
          [.bindTemp (.object 1) "1" (some "t0"), .temp] es → Introduced (namesOf es) := by
  have h := reach_introduced (s := scaledSum) rfl scriptless_scaledSum 4
    [.bindTemp (.object 1) "1" (some "t0"), .temp]
  exact ⟨rfl,by decide +kernel,h.1,fun es hes => (h.2 es hes).1⟩

example : (scaledSum.reach 4 [.assignColumn (.object 0) (.value (.int 0)),
    .bindTemp (.object 1) "1" (some "loop_idx0"), .openLoop (.object 3)]).body =
      [⟨0, "loop_idx0 = 1"⟩, ⟨0, "for loop_idx0 in range(2):"⟩] := by decide +kernel

end Setting

end FitCode
