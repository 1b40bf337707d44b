import FitCode.Proofs.Graph.Typed
import Mathlib.Data.List.Induction
import Mathlib.Order.Bounds.Basic

/-! # Inferred sizes are the largest given ones

A given size counts for everything that reaches it through nodes that are neither reducers nor given a
size themselves, and the largest of those is the size of a node. Measuring fails only where operands nest
too deep, be it in a cycle.
-/
namespace FitCode

/-- The last size that is given for a vertex. -/
def Sizing.value? (g : Graph) (s : Sizing) (v : Nat) : Option Int :=
  (s.filter fun e => (g.identityOf e.1).toOption.any (·.serial == v)).getLast?.bind fun e =>
    e.2.toInt.toOption

namespace IdMap

variable {α : Type} {m : IdMap α} {id : Identity} {a : α}

theorem fst_of_mem_put {e : Identity × α} (h : e ∈ m.put id a) : e.1 = id ∨ ∃ e' ∈ m, e'.1 = e.1 := by
  induction m with
  | nil => exact .inl (by rw [List.mem_singleton.mp h])
  | cons e₀ m ih =>
    rw [put] at h
    split at h
    · rcases List.mem_cons.mp h with rfl | h
      · exact .inr ⟨e₀,by simp,rfl⟩
      · exact .inr ⟨e,by simp [h],rfl⟩
    · rcases List.mem_cons.mp h with rfl | h
      · exact .inr ⟨e,by simp,rfl⟩
      · rcases ih h with h | ⟨e',he',heq⟩
        · exact .inl h
        · exact .inr ⟨e',by simp [he'],heq⟩

theorem Distinct.get?_of_mem (hm : m.Distinct) {e : Identity × α} (he : e ∈ m) : m.get? e.1 = some e.2 := by
  induction m with
  | nil => cases he
  | cons e₀ m ih =>
    obtain ⟨hhead,htail⟩ := List.pairwise_cons.mp hm
    rcases List.mem_cons.mp he with rfl | he
    · simp [get?, Identity.same]
    · have hne := hhead e he
      have ih := ih htail he
      simp only [get?, Identity.same] at ih ⊢
      rw [List.find?_cons_of_neg (by simpa using hne), ih]

theorem exists_mem_of_get? (h : m.get? id = some a) : ∃ e ∈ m, e.1.serial = id.serial ∧ e.2 = a := by
  obtain ⟨e,he,rfl⟩ := Option.map_eq_some_iff.mp h
  exact ⟨e,List.mem_of_find?_eq_some he,by simpa [Identity.same] using List.find?_some he,rfl⟩

end IdMap

namespace Graph

variable {g : Graph} {given : Nat → Option Int} {roots : List Nat} {v w u : Nat}

/-- A vertex with a given size draws on itself, and a node that is no reducer on what its operands draw
on. -/
inductive Draws (g : Graph) (given : Nat → Option Int) : Nat → Nat → Prop
  | given {v : Nat} (h : (given v).isSome = true) : Draws g given v v
  | step {v w u : Nat} (hk : given v = none) (hr : (g.kind v).isReducer = false) (hw : w ∈ g.links v)
    (h : Draws g given w u) : Draws g given v u

/-- What is met from some roots without looking behind given sizes. -/
inductive Visits (g : Graph) (given : Nat → Option Int) (roots : List Nat) : Nat → Prop
  | root {v : Nat} (h : v ∈ roots) : Visits g given roots v
  | step {v w : Nat} (h : Visits g given roots v) (hk : given v = none) (hw : w ∈ g.links v) :
    Visits g given roots w

theorem Draws.eq_of_isSome (h : g.Draws given v u) (hv : (given v).isSome = true) : u = v := by
  cases h with
  | given => rfl
  | step hk _ _ _ =>
    rw [hk] at hv
    cases hv

theorem Draws.isReducer (h : g.Draws given v u) (hv : given v = none) : (g.kind v).isReducer = false := by
  cases h with
  | given h =>
    rw [hv] at h
    cases h
  | step _ hr _ _ => exact hr

theorem Visits.isNode (h : g.Visits given roots v) (hroots : ∀ v ∈ roots, (g.kind v).isNode = true)
    (hlinks : ∀ v, ∀ w ∈ g.links v, (g.kind w).isNode = true) : (g.kind v).isNode = true := by
  cases h with
  | root h => exact hroots v h
  | step _ _ hw => exact hlinks _ v hw

/-- Where sizes are given for leaves that are no reducers, a node draws on those that a path leads to which
passes through no reducer. -/
theorem draws_iff (hleaf : ∀ u, (given u).isSome = true → (g.kind u).isReducer = false ∧ g.links u = [])
    (hv : (g.kind v).isReducer = false) (hu : (given u).isSome = true) :
    g.Draws given v u ↔ g.Leads true v u := by
  constructor
  · intro h
    induction h with
    | given h => exact .refl _
    | @step v w u hk hr hw h ih =>
      refine .step hw ?_ (ih ?_ hu)
      · cases hgw : given w with
        | some n => exact .inl (h.eq_of_isSome (by simp [hgw])).symm
        | none => exact .inr fun hred => by simp [h.isReducer hgw] at hred
      · cases hgw : given w with
        | some n => exact (hleaf w (by simp [hgw])).1
        | none => exact h.isReducer hgw
  · intro h
    induction h with
    | refl v => exact .given hu
    | @step v w u hw ho _ ih =>
      have hk : given v = none := by
        cases hgv : given v with
        | none => rfl
        | some n =>
          rw [(hleaf v (by simp [hgv])).2] at hw
          cases hw
      have hr : (g.kind w).isReducer = false := by
        rcases ho with rfl | ho
        · exact (hleaf w hu).1
        · exact Bool.eq_false_iff.mpr fun hred => ho ⟨rfl,hred⟩
      exact .step hk hv hw (ih hr hu)

theorem reaches_iff (hlinks : ∀ v, ∀ w ∈ g.links v, (g.kind w).isNode = true)
    (hv : (g.kind v).isNode = true) (hu : (g.kind u).isNode = true) :
    g.reaches v u true = .ok true ↔ g.Leads true v u := by
  obtain ⟨b,hb⟩ := reaches_node_ok hlinks hv u true
  rw [← reaches_eq (members_of_isNode hu) hb, hb]
  simp

end Graph

namespace Sizes

variable {g : Graph} {given : Nat → Option Int} {known m m' : IdMap Int} {roots : List Nat}
  {v w n : Nat} {j : Int}

/-- No size that the vertex draws on is larger, and one is as large if it is above one. -/
structure Largest (g : Graph) (given : Nat → Option Int) (v : Nat) (n : Int) : Prop where
  upper : ∀ u k, g.Draws given v u → given u = some k → k ≤ n
  attained : 1 < n → ∃ u, g.Draws given v u ∧ given u = some n

theorem largest_of_given (h : given v = some j) : Largest g given v j where
  upper := fun u k hu hk => by
    obtain rfl := hu.eq_of_isSome (by simp [h])
    exact Int.le_of_eq (Option.some.inj (hk.symm.trans h))
  attained := fun _ => ⟨v,.given (by simp [h]),h⟩

theorem largest_of_isReducer (hk : given v = none) (hr : (g.kind v).isReducer = true) :
    Largest g given v 1 where
  upper := fun u k hu _ => by
    rw [hu.isReducer hk] at hr
    cases hr
  attained := fun h => absurd h (by decide)

theorem largest_of_links (hk : given v = none) (hr : (g.kind v).isReducer = false) {ns : List Int}
    (h : List.Forall₂ (Largest g given) (g.links v) ns) : Largest g given v (largest ns) where
  upper := fun u k hu huk => by
    cases hu with
    | given h =>
      rw [hk] at h
      cases h
    | step _ _ hw hu =>
      obtain ⟨i,hi,hl⟩ := exists_of_forall₂ h hw
      exact Int.le_trans (hl.upper u k hu huk) (le_largest hi)
  attained := fun hlt => by
    obtain ⟨w,hw,hl⟩ := exists_of_forall₂_right h (largest_mem hlt)
    obtain ⟨u,hu,huk⟩ := hl.attained hlt
    exact ⟨u,.step hk hr hw hu,huk⟩

theorem Largest.isGreatest (h : Largest g given v j) :
    IsGreatest (insert 1 {k | ∃ u, g.Draws given v u ∧ given u = some k}) (max 1 j) := by
  constructor
  · by_cases hj : 1 < j
    · rw [Int.max_eq_right (Int.le_of_lt hj)]
      exact .inr (h.attained hj)
    · exact .inl (Int.max_eq_left (Int.not_lt.mp hj))
  · rintro k (rfl | ⟨u,hu,hk⟩)
    · exact Int.le_max_left _ _
    · exact Int.le_trans (h.upper u k hu hk) (Int.le_max_right _ _)

/-- A record of what was visited: each size in it is the largest, and what a recorded vertex is measured
by is recorded. -/
structure Tallied (g : Graph) (given : Nat → Option Int) (roots : List Nat) (m : IdMap Int) : Prop where
  distinct : m.Distinct
  own : ∀ e ∈ m, ∃ v, e.1 = g.idOf v
  visited : ∀ v, (m.get? (g.idOf v)).isSome = true → g.Visits given roots v
  closed : ∀ v, (m.get? (g.idOf v)).isSome = true → given v = none → ∀ w ∈ g.links v,
    (m.get? (g.idOf w)).isSome = true
  largest : ∀ v n, m.get? (g.idOf v) = some n → Largest g given v n

theorem Tallied.empty (g : Graph) (given : Nat → Option Int) (roots : List Nat) :
    Tallied g given roots [] where
  distinct := .nil
  own := fun _ he => nomatch he
  visited := fun _ h => nomatch h
  closed := fun _ h => nomatch h
  largest := fun _ _ h => nomatch h

/-- Whatever is recorded stays recorded. -/
def Keeps (m m' : IdMap Int) : Prop := ∀ id, (m.get? id).isSome = true → (m'.get? id).isSome = true

theorem Tallied.put (h : Tallied g given roots m) (hv : g.Visits given roots v)
    (hops : given v = none → ∀ w ∈ g.links v, (m.get? (g.idOf w)).isSome = true)
    (hl : Largest g given v j) :
    Tallied g given roots (m.put (g.idOf v) j) ∧ Keeps m (m.put (g.idOf v) j) := by
  have hkeeps : Keeps m (m.put (g.idOf v) j) := by
    intro id hid
    rw [IdMap.get?_put]
    split
    · rfl
    · exact hid
  -- A recorded vertex is the new one or was recorded before.
  have hget : ∀ {u : Nat} {n : Int}, (m.put (g.idOf v) j).get? (g.idOf u) = some n →
      u = v ∧ n = j ∨ m.get? (g.idOf u) = some n := by
    intro u n hu
    rw [IdMap.get?_put] at hu
    split at hu
    · rename_i heq
      exact .inl ⟨Eq.symm heq,(Option.some.inj hu).symm⟩
    · exact .inr hu
  refine ⟨⟨h.distinct.put _ _,fun e he => ?_,fun u hu => ?_,fun u hu hk w hw => ?_,fun u n hu => ?_⟩,hkeeps⟩
  · rcases IdMap.fst_of_mem_put he with he | ⟨e',he',heq⟩
    · exact ⟨v,he⟩
    · exact heq ▸ h.own e' he'
  · obtain ⟨n,hn⟩ := Option.isSome_iff_exists.mp hu
    rcases hget hn with ⟨rfl,_⟩ | hn
    · exact hv
    · exact h.visited u (by simp [hn])
  · obtain ⟨n,hn⟩ := Option.isSome_iff_exists.mp hu
    refine hkeeps _ ?_
    rcases hget hn with ⟨rfl,_⟩ | hn
    · exact hops hk w hw
    · exact h.closed u (by simp [hn]) hk w hw
  · rcases hget hu with ⟨rfl,rfl⟩ | hu
    · exact hl
    · exact h.largest u n hu

/-- Operands rank below what uses them. -/
def Ranks (g : Graph) (rank : Nat → Nat) : Prop := ∀ v, ∀ w ∈ g.links v, rank w < rank v

/-- What measuring a vertex amounts to: it records the size, or the levels do not suffice. -/
def Tallies (g : Graph) (known : IdMap Int) (given : Nat → Option Int) (roots : List Nat) (n v : Nat) :
    Prop :=
  ∀ m, Tallied g given roots m →
    ((measure g known n (.object v)).run m = .error .tooDeep ∧ ∀ rank, Ranks g rank → n ≤ rank v) ∨
    ∃ j m', (measure g known n (.object v)).run m = .ok (j, m') ∧ Tallied g given roots m' ∧
      Keeps m m' ∧ (m'.get? (g.idOf v)).isSome = true ∧ Largest g given v j

/-- Measuring vertices one after the other, up to the first that lies too deep. -/
theorem mapM_tallies {ws : List Nat} (hws : ∀ w ∈ ws, Tallies g known given roots n w)
    (hobject : ∀ w ∈ ws, g.datum w = .object w) (hm : Tallied g given roots m) :
    ((ws.mapM fun w => measure g known n (g.datum w)).run m = .error .tooDeep ∧
        ∃ w ∈ ws, ∀ rank, Ranks g rank → n ≤ rank w) ∨
      ∃ ns m', (ws.mapM fun w => measure g known n (g.datum w)).run m = .ok (ns, m') ∧
        Tallied g given roots m' ∧ Keeps m m' ∧ (∀ w ∈ ws, (m'.get? (g.idOf w)).isSome = true) ∧
        List.Forall₂ (Largest g given) ws ns := by
  induction ws generalizing m with
  | nil =>
    refine .inr ⟨[],m,rfl,hm,fun _ h => h,fun w hw => ?_,.nil⟩
    cases hw
  | cons w ws ih =>
    simp only [List.forall_mem_cons] at hws hobject
    rw [List.mapM_cons, hobject.1, StateT.run_bind]
    rcases hws.1 m hm with ⟨hrun,hrank⟩ | ⟨i,m₁,hrun,hm₁,hkeeps₁,hget₁,hl₁⟩
    · rw [hrun]
      exact .inl ⟨rfl,w,by simp,hrank⟩
    · rw [hrun]
      simp only [bind, Except.bind]
      rcases ih hws.2 hobject.2 hm₁ with ⟨hrest,u,hu,hrank⟩ | ⟨is,m₂,hrest,hm₂,hkeeps₂,hget₂,hl₂⟩
      · refine .inl ⟨?_,u,by simp [hu],hrank⟩
        refine (StateT.run_bind ..).trans ?_
        rw [hrest]
        rfl
      · refine .inr ⟨i :: is,m₂,?_,hm₂,fun id hid => hkeeps₂ id (hkeeps₁ id hid),?_,.cons hl₁ hl₂⟩
        · refine (StateT.run_bind ..).trans ?_
          rw [hrest]
          rfl
        · exact List.forall_mem_cons.mpr ⟨hkeeps₂ _ hget₁,hget₂⟩

theorem measure_tallies (hgiven : ∀ v, known.get? (g.idOf v) = given v)
    (hlinks : ∀ v, ∀ w ∈ g.links v, (g.kind w).isNode = true) (hnode : (g.kind v).isNode = true)
    (hv : g.Visits given roots v) : Tallies g known given roots n v := by
  induction n generalizing v with
  | zero => exact fun m _ => .inl ⟨rfl,fun _ _ => Nat.zero_le _⟩
  | succ n ih =>
    intro m hm
    rw [measure_object, hgiven]
    cases hrec : m.get? (g.idOf v) with
    | some i => exact .inr ⟨i,m,rfl,hm,fun _ h => h,by rw [hrec]; rfl,hm.largest v i hrec⟩
    | none =>
      -- The new record, once the size is found.
      have hput : ∀ {m' : IdMap Int} {i : Int}, Tallied g given roots m' → Keeps m m' →
          (given v = none → ∀ w ∈ g.links v, (m'.get? (g.idOf w)).isSome = true) →
          Largest g given v i → Tallied g given roots (m'.put (g.idOf v) i) ∧
            Keeps m (m'.put (g.idOf v) i) ∧ ((m'.put (g.idOf v) i).get? (g.idOf v)).isSome = true ∧
            Largest g given v i := by
        intro m' i hm' hkeeps hops hl
        obtain ⟨hm'',hkeeps'⟩ := hm'.put hv hops hl
        refine ⟨hm'',fun id hid => hkeeps' id (hkeeps id hid),?_,hl⟩
        rw [IdMap.get?_put, if_pos rfl]
        rfl
      cases hk : given v with
      | some i =>
        refine .inr ⟨i,_,rfl,hput hm (fun _ h => h) (fun h => ?_) (largest_of_given hk)⟩
        rw [hk] at h
        cases h
      | none =>
        obtain ⟨ws,hws⟩ := Option.isSome_iff_exists.mp hnode
        have hops : g.operands? v = some (ws.flatMap g.expand) := by rw [Graph.operands?, hws]; rfl
        have hlinks' : ws.flatMap g.expand = g.links v := by simp [Graph.links, hops]
        rw [hops, hlinks']
        have hall : ∀ w ∈ g.links v, Tallies g known given roots n w := fun w hw =>
          ih (hlinks v w hw) (.step hv hk hw)
        rcases mapM_tallies hall (fun w hw => Graph.datum_of_isNode (hlinks v w hw)) hm with
          ⟨hrun,w,hw,hrank⟩ | ⟨ns,m',hrun,hm',hkeeps,hget,hl⟩
        · dsimp only
          rw [hrun]
          exact .inl ⟨rfl,fun rank hr => Nat.lt_of_le_of_lt (hrank rank hr) (hr v w hw)⟩
        · dsimp only
          rw [hrun]
          refine .inr ⟨_,_,rfl,hput hm' hkeeps (fun _ => hget) ?_⟩
          cases hr : (g.kind v).isReducer with
          | true => exact largest_of_isReducer hk hr
          | false => exact largest_of_links hk hr hl

/-- Sizes given as integers for objects with an identity are known; the last one counts. -/
theorem exists_known {s : Sizing}
    (hs : ∀ e ∈ s, ∃ id n, g.identityOf e.1 = .ok id ∧ e.2.toInt = .ok n) :
    ∃ known, Sizes.known g s = .ok known ∧ ∀ id, known.get? id = s.value? g id.serial := by
  induction s using List.reverseRecOn with
  | nil => exact ⟨[],rfl,fun _ => rfl⟩
  | append_singleton s e ih =>
    obtain ⟨known,hknown,hget⟩ := ih fun e' he' => hs e' (by simp [he'])
    obtain ⟨id,n,hid,hn⟩ := hs e (by simp)
    refine ⟨known.put id n,?_,fun id' => ?_⟩
    · rw [Sizes.known] at hknown ⊢
      rw [List.foldlM_append, hknown]
      simp [bind, Except.bind, hid, hn, Kind.ofConversion, Except.mapError, pure, Except.pure]
    · rw [IdMap.get?_put, hget, Sizing.value?, Sizing.value?, List.filter_append]
      by_cases hserial : id.serial = id'.serial
      · simp [hid, hn, hserial, Except.toOption]
      · simp [hid, hserial, Except.toOption]

theorem forM_measure (g : Graph) (known : IdMap Int) (n : Nat) (roots : List Nat) (m : IdMap Int) :
    ((roots.map g.datum).forM fun d => discard (measure g known n d)).run m =
      (fun r => ((), r.2)) <$> (roots.mapM fun v => measure g known n (g.datum v)).run m := by
  induction roots generalizing m with
  | nil => rfl
  | cons v vs ih =>
    have hcons : ((g.datum v :: vs.map g.datum).forM fun d => discard (measure g known n d)) =
        (discard (measure g known n (g.datum v)) >>= fun _ =>
          (vs.map g.datum).forM fun d => discard (measure g known n d)) := rfl
    rw [List.map_cons, hcons, List.mapM_cons, StateT.run_bind, StateT.run_bind]
    have hfst : (discard (measure g known n (g.datum v)) : Measure Unit).run m =
        (fun r => ((), r.2)) <$> (measure g known n (g.datum v)).run m := StateT.run_map _ _ _
    rw [hfst]
    cases hrun : (measure g known n (g.datum v)).run m with
    | error f => rfl
    | ok r =>
      refine (ih r.2).trans ?_
      change _ = (fun r => ((), r.2)) <$> StateT.run
        ((vs.mapM fun v => measure g known n (g.datum v)) >>= fun ns => (pure (r.1 :: ns) : Measure _)) r.2
      rw [StateT.run_bind]
      cases (vs.mapM fun v => measure g known n (g.datum v)).run r.2 with
      | error f => rfl
      | ok r => rfl

theorem infer_run {start : Datum} {s : Sizing} {levels : Nat} (hk : Sizes.known g s = .ok known)
    (hroots : Sizes.roots start = .ok (roots.map g.datum)) :
    infer g start (some s) levels =
      (fun r => (r.2.filter fun e => decide (1 < e.2)).map fun e => (e.1, e.2.toNat)) <$>
        (roots.mapM fun v => measure g known levels (g.datum v)).run [] := by
  simp only [infer, Option.elim_some, hk, hroots, bind, Except.bind, forM_measure]
  cases (roots.mapM fun v => measure g known levels (g.datum v)).run [] with
  | error f => rfl
  | ok r => rfl

/-- What a table of sizes says of the vertices visited from some roots: a given size is at least one, a
reducer has size one, and any other node the largest size that it draws on. The sizes above one are
stored, and no others. -/
structure Tabulates (g : Graph) (given : Nat → Option Int) (roots : List Nat) (sizes : SizeTable) :
    Prop where
  known : ∀ v n, g.Visits given roots v → given v = some n → (sizes.size (g.idOf v) : Int) = max 1 n
  reducer : ∀ v, g.Visits given roots v → given v = none → (g.kind v).isReducer = true →
    sizes.size (g.idOf v) = 1
  largest : ∀ v, g.Visits given roots v → given v = none → (g.kind v).isReducer = false →
    IsGreatest (insert 1 {n | ∃ u, g.Draws given v u ∧ given u = some n}) (sizes.size (g.idOf v) : Int)
  stored : ∀ id n, (id, n) ∈ sizes ↔
    1 < n ∧ ∃ v, g.Visits given roots v ∧ id = g.idOf v ∧ sizes.size (g.idOf v) = n
  distinct : sizes.Distinct

theorem Tallied.isSome_of_visits (hm : Tallied g given roots m)
    (hroots : ∀ v ∈ roots, (m.get? (g.idOf v)).isSome = true) (hv : g.Visits given roots v) :
    (m.get? (g.idOf v)).isSome = true := by
  induction hv with
  | root h => exact hroots _ h
  | step _ hk hw ih => exact hm.closed _ ih hk _ hw

theorem Tallied.tabulates (hm : Tallied g given roots m)
    (hroots : ∀ v ∈ roots, (m.get? (g.idOf v)).isSome = true) :
    Tabulates g given roots ((m.filter fun e => decide (1 < e.2)).map fun e => (e.1, e.2.toNat)) := by
  have hsize : ∀ {v : Nat} {n : Int}, m.get? (g.idOf v) = some n → ((SizeTable.size
      ((m.filter fun e => decide (1 < e.2)).map fun e => (e.1, e.2.toNat)) (g.idOf v) : Nat) : Int) = max 1 n := by
    intro v n hn
    rw [size_of_get? hm.distinct hn]
    exact Int.toNat_of_nonneg (Int.le_trans (by decide) (Int.le_max_left 1 n))
  have hvisit : ∀ {v : Nat}, g.Visits given roots v → ∃ n, m.get? (g.idOf v) = some n := fun hv =>
    Option.isSome_iff_exists.mp (hm.isSome_of_visits hroots hv)
  refine ⟨fun v n hv hk => ?_,fun v hv hk hr => ?_,fun v hv hk hr => ?_,fun id n => ?_,?_⟩
  · obtain ⟨j,hj⟩ := hvisit hv
    rw [hsize hj]
    have hl := (hm.largest v j hj).isGreatest
    exact hl.unique (largest_of_given hk).isGreatest
  · obtain ⟨j,hj⟩ := hvisit hv
    have hl := (hm.largest v j hj).isGreatest.unique (largest_of_isReducer hk hr).isGreatest
    have hone := (hsize hj).trans hl
    exact Int.ofNat.inj hone
  · obtain ⟨j,hj⟩ := hvisit hv
    rw [hsize hj]
    exact (hm.largest v j hj).isGreatest
  · constructor
    · intro h
      obtain ⟨e,he,heq⟩ := List.mem_map.mp h
      obtain ⟨he,hlt⟩ := List.mem_filter.mp he
      obtain ⟨rfl,rfl⟩ := Prod.mk.inj heq
      have hlt : 1 < e.2 := of_decide_eq_true hlt
      obtain ⟨v,hv⟩ := hm.own e he
      have hget : m.get? (g.idOf v) = some e.2 := hv ▸ hm.distinct.get?_of_mem he
      have hn := hsize hget
      refine ⟨by omega,v,hm.visited v (by simp [hget]),hv,by omega⟩
    · rintro ⟨hlt,v,hv,rfl,hn⟩
      obtain ⟨j,hj⟩ := hvisit hv
      have hmax := hsize hj
      obtain ⟨e,he,hserial,rfl⟩ := IdMap.exists_mem_of_get? hj
      obtain ⟨u,hu⟩ := hm.own e he
      have huv : u = v := by
        rw [hu] at hserial
        exact hserial
      refine List.mem_map.mpr ⟨e,List.mem_filter.mpr ⟨he,decide_eq_true (by omega)⟩,?_⟩
      rw [hu, huv]
      exact congrArg (Prod.mk _) (by omega)
  · exact List.pairwise_map.mpr (hm.distinct.filter _)

/-- Where sizes are given for leaves that are no reducers, a node is as large as the largest leaf that it
depends on without looking into reducers. -/
theorem Tabulates.isGreatest_reaches {sizes : SizeTable} (h : Tabulates g given roots sizes)
    (hroots : ∀ v ∈ roots, (g.kind v).isNode = true)
    (hlinks : ∀ v, ∀ w ∈ g.links v, (g.kind w).isNode = true)
    (hleaf : ∀ u, (given u).isSome = true →
      (g.kind u).isNode = true ∧ (g.kind u).isReducer = false ∧ g.links u = [])
    (hv : g.Visits given roots v) (hk : given v = none) (hr : (g.kind v).isReducer = false) :
    IsGreatest (insert 1 {n | ∃ u, g.reaches v u true = .ok true ∧ given u = some n})
      (sizes.size (g.idOf v) : Int) := by
  have hset : {n | ∃ u, g.reaches v u true = .ok true ∧ given u = some n} =
      {n | ∃ u, g.Draws given v u ∧ given u = some n} := by
    ext n
    refine exists_congr fun u => and_congr_left fun hu => ?_
    have hsome : (given u).isSome = true := by simp [hu]
    rw [Graph.reaches_iff hlinks (hv.isNode hroots hlinks) (hleaf u hsome).1,
      Graph.draws_iff (fun u hu => (hleaf u hu).2) hr hsome]
  rw [hset]
  exact h.largest v hv hk hr

/-- A node is larger than one if it is no reducer and depends on a given size above one. -/
theorem Tabulates.one_lt_size {sizes : SizeTable} (h : Tabulates g given roots sizes)
    (hroots : ∀ v ∈ roots, (g.kind v).isNode = true)
    (hlinks : ∀ v, ∀ w ∈ g.links v, (g.kind w).isNode = true)
    (hleaf : ∀ u, (given u).isSome = true →
      (g.kind u).isNode = true ∧ (g.kind u).isReducer = false ∧ g.links u = [])
    (hv : g.Visits given roots v) : 1 < sizes.size (g.idOf v) ↔ (g.kind v).isReducer = false ∧
      ∃ u n, given u = some n ∧ 1 < n ∧ g.reaches v u true = .ok true := by
  cases hk : given v with
  | some n =>
    obtain ⟨hnode,hr,hlinks'⟩ := hleaf v (by simp [hk])
    have hsize := h.known v n hv hk
    constructor
    · exact fun hlt => ⟨hr,v,n,hk,by omega,(Graph.reaches_iff hlinks hnode hnode).mpr (.refl v)⟩
    · rintro ⟨_,u,j,hu,hlt,hreach⟩
      -- Nothing lies behind a leaf.
      have hleads := (Graph.reaches_iff hlinks hnode (hleaf u (by simp [hu])).1).mp hreach
      cases hleads with
      | refl =>
        obtain rfl := Option.some.inj (hk.symm.trans hu)
        omega
      | step hw _ _ =>
        rw [hlinks'] at hw
        cases hw
  | none =>
    cases hr : (g.kind v).isReducer with
    | true => simp [h.reducer v hv hk hr]
    | false =>
      have hg := h.isGreatest_reaches hroots hlinks hleaf hv hk hr
      constructor
      · intro hlt
        rcases hg.1 with hone | ⟨u,hu,hn⟩
        · omega
        · exact ⟨rfl,u,_,hn,by omega,hu⟩
      · rintro ⟨_,u,n,hu,hlt,hreach⟩
        have := hg.2 (.inr ⟨u,hreach,hu⟩)
        omega

/-- Inferring sizes fails only for a graph that is deeper than sizes are inferred, however deep that
is. Otherwise a visited vertex that no size is given for has the largest of the sizes that it draws on;
if they are given for leaves that are no reducers, those are the leaves that the search for dependences
finds. -/
theorem infer_tabulates (levels : Nat) {start : Datum} {s : Sizing}
    (hstart : Sizes.roots start = .ok (roots.map .object))
    (hroots : ∀ v ∈ roots, (g.kind v).isNode = true)
    (hlinks : ∀ v, ∀ w ∈ g.links v, (g.kind w).isNode = true)
    (hs : ∀ e ∈ s, ∃ id n, g.identityOf e.1 = .ok id ∧ e.2.toInt = .ok n) :
    (infer g start (some s) levels = .error .tooDeep ∧
        ∀ rank, Ranks g rank → ∃ v ∈ roots, levels ≤ rank v) ∨
      ∃ sizes, infer g start (some s) levels = .ok sizes ∧ Tabulates g (s.value? g) roots sizes ∧
        ((∀ u, (s.value? g u).isSome = true →
            (g.kind u).isNode = true ∧ (g.kind u).isReducer = false ∧ g.links u = []) →
          (∀ v, g.Visits (s.value? g) roots v → s.value? g v = none → (g.kind v).isReducer = false →
            IsGreatest (insert 1 {n | ∃ u, g.reaches v u true = .ok true ∧ s.value? g u = some n})
              (sizes.size (g.idOf v) : Int)) ∧
          ∀ v, g.Visits (s.value? g) roots v → (1 < sizes.size (g.idOf v) ↔
            (g.kind v).isReducer = false ∧
              ∃ u n, s.value? g u = some n ∧ 1 < n ∧ g.reaches v u true = .ok true)) := by
  obtain ⟨known,hknown,hget⟩ := exists_known hs
  have hdatum : roots.map Datum.object = roots.map g.datum :=
    List.map_congr_left fun v hv => (Graph.datum_of_isNode (hroots v hv)).symm
  rw [infer_run hknown (hdatum ▸ hstart)]
  have hall : ∀ v ∈ roots, Tallies g known (s.value? g) roots levels v := fun v hv =>
    measure_tallies (fun u => hget (g.idOf u)) hlinks (hroots v hv) (.root hv)
  rcases mapM_tallies hall (fun v hv => Graph.datum_of_isNode (hroots v hv)) (.empty _ _ _) with
    ⟨hrun,v,hv,hrank⟩ | ⟨ns,m,hrun,hm,_,hrec,_⟩
  · rw [hrun]
    exact .inl ⟨rfl,fun rank hr => ⟨v,hv,hrank rank hr⟩⟩
  · rw [hrun]
    have htab := hm.tabulates hrec
    exact .inr ⟨_,rfl,htab,fun hleaf => ⟨fun v => htab.isGreatest_reaches hroots hlinks hleaf,
      fun v => htab.one_lt_size hroots hlinks hleaf⟩⟩

/-- Two observables, the sum of their product over the entries, and a sum that uses it. -/
def sharedSum : Graph :=
  ⟨#[⟨"x", .observable⟩, ⟨"y", .observable⟩, ⟨"xy", .product [0, 1]⟩, ⟨"s", .entrySum 2⟩,
    ⟨"t", .sum [3, 1]⟩]⟩

/-- Sizes for both observables, the one of `x` given twice. -/
def sharedSizes : Sizing := [(.object 0, .int 2), (.object 1, .int 3), (.identity ⟨0, "x"⟩, .int 4)]

theorem infer_tabulates_sharedSum :
    ∃ sizes, infer sharedSum (.list [.object 4, .object 3]) (some sharedSizes) = .ok sizes ∧
      Tabulates sharedSum (sharedSizes.value? sharedSum) [4, 3] sizes ∧
      sizes = [(⟨0, "x"⟩, 4), (⟨1, "y"⟩, 3), (⟨2, "xy"⟩, 4), (⟨4, "t"⟩, 3)] := by
  have hg : sharedSum.Sorted := (Graph.typed_of_isTyped (by decide +kernel)).sorted
  have hstart : roots (.list [.object 4, .object 3]) = .ok ([4, 3].map .object) := rfl
  have hs : ∀ e ∈ sharedSizes, ∃ id n, sharedSum.identityOf e.1 = .ok id ∧ e.2.toInt = .ok n := by
    simp [sharedSizes, Graph.identityOf, Datum.toInt]
  have hsizes : (infer sharedSum (.list [.object 4, .object 3]) (some sharedSizes)).toOption =
      some [(⟨0, "x"⟩, 4), (⟨1, "y"⟩, 3), (⟨2, "xy"⟩, 4), (⟨4, "t"⟩, 3)] := by decide +kernel
  rcases infer_tabulates 331 hstart (by decide +kernel) (fun _ _ => hg.isNode_of_links) hs with
    ⟨herr,_⟩ | ⟨sizes,hok,htab,_⟩
  · rw [herr] at hsizes
    cases hsizes
  · rw [hok] at hsizes
    exact ⟨sizes,hok,htab,Option.some.inj hsizes⟩

end Sizes

end FitCode
