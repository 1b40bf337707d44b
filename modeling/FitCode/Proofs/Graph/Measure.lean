import FitCode.Proofs.Graph.Dependence
import FitCode.Sizes

/-! # What inferred sizes say

In an acyclic graph a node that is no reducer is at least as large as its operands, a reducer has
size one, and whatever is larger than one has its size from a given one that it depends on without
looking into reducers.
-/
namespace FitCode

/-- No path comes back to where it started. -/
def Graph.Acyclic (g : Graph) : Prop := ∃ rank : Nat → Nat, ∀ v, ∀ w ∈ g.links v, rank w < rank v

theorem Graph.acyclic_of_ordered {g : Graph} (h : ∀ v < g.size, ∀ w ∈ g.links v, w < v) : g.Acyclic := by
  refine ⟨id,fun v w hw => ?_⟩
  by_cases hv : v < g.size
  · exact h v hv w hw
  · have hk : g.kind v = .identity := by
      by_contra hk
      exact hv (Graph.lt_size_of_kind hk)
    simp [Graph.links, Graph.operands?, hk, Kind.parts?, Kind.members?] at hw

namespace IdMap

variable {α : Type}

theorem get?_put (m : IdMap α) (id : Identity) (a : α) (id' : Identity) :
    (m.put id a).get? id' = if id.serial = id'.serial then some a else m.get? id' := by
  induction m with
  | nil =>
    by_cases h : id.serial = id'.serial
    · simp [put, get?, Identity.same, h]
    · simp [put, get?, Identity.same, h]
  | cons e m ih =>
    simp only [get?, Identity.same] at ih
    simp only [put, Identity.same, beq_iff_eq]
    by_cases he : e.1.serial = id.serial
    · by_cases h : id.serial = id'.serial
      · simp [get?, Identity.same, he, h]
      · simp [get?, Identity.same, he, h]
    · by_cases h : e.1.serial = id'.serial
      · have hne : id.serial ≠ id'.serial := fun h' => he (h.trans h'.symm)
        rw [if_neg he, if_neg hne]
        simp [get?, Identity.same, h]
      · simp only [he, if_false, get?, Identity.same, List.find?_cons, beq_false_of_ne h, ih]

/-- Entries for different identities. -/
def Distinct (m : IdMap α) : Prop := m.Pairwise fun a b => a.1.serial ≠ b.1.serial

theorem Distinct.put {m : IdMap α} (h : m.Distinct) (id : Identity) (a : α) :
    (m.put id a).Distinct := by
  have hmem : ∀ (m : IdMap α), ∀ e ∈ m.put id a, e.1.serial = id.serial ∨ ∃ e' ∈ m, e'.1 = e.1 := by
    intro m
    induction m with
    | nil => simp [IdMap.put]
    | cons e m ih =>
      simp only [IdMap.put]
      split
      · intro e' he'
        rcases List.mem_cons.mp he' with rfl | he'
        · exact .inr ⟨e,by simp,rfl⟩
        · exact .inr ⟨e',by simp [he'],rfl⟩
      · intro e' he'
        rcases List.mem_cons.mp he' with rfl | he'
        · exact .inr ⟨e',by simp,rfl⟩
        · rcases ih e' he' with hs | ⟨e'',he'',heq⟩
          · exact .inl hs
          · exact .inr ⟨e'',by simp [he''],heq⟩
  induction m with
  | nil => simp [IdMap.put, Distinct]
  | cons e m ih =>
    obtain ⟨hhead,htail⟩ := List.pairwise_cons.mp h
    simp only [IdMap.put]
    split
    · exact List.pairwise_cons.mpr ⟨hhead,htail⟩
    · rename_i hne
      refine List.pairwise_cons.mpr ⟨fun e' he' => ?_,ih htail⟩
      rcases hmem m e' he' with hs | ⟨e'',he'',heq⟩
      · rw [hs]
        simpa [Identity.same] using hne
      · rw [← heq]
        exact hhead e'' he''

theorem get?_filter_map {β : Type} {m : IdMap α} (h : m.Distinct) (p : α → Bool) (f : α → β)
    (id : Identity) : IdMap.get? ((m.filter fun e => p e.2).map fun e => (e.1, f e.2)) id =
      ((m.get? id).filter p).map f := by
  induction m with
  | nil => rfl
  | cons e m ih =>
    obtain ⟨hhead,htail⟩ := List.pairwise_cons.mp h
    have ih := ih htail
    simp only [get?, Identity.same] at ih ⊢
    by_cases hs : e.1.serial = id.serial
    · cases hp : p e.2 with
      | true => simp [Option.filter, hp, hs]
      | false =>
        have hnone : m.find? (fun e' => e'.1.serial == id.serial) = none := by
          rw [List.find?_eq_none]
          intro e' he'
          have := hhead e' he'
          simp only [beq_iff_eq]
          omega
        rw [hnone] at ih
        rw [List.filter_cons_of_neg (by simp [hp]), ih]
        simp [Option.filter, hp, hs]
    · cases hp : p e.2 with
      | true => simpa [hp, hs] using ih
      | false => simpa [hp, hs] using ih

end IdMap

namespace Sizes

variable {g : Graph} {known m m' : IdMap Int} {v w n : Nat} {j : Int}

/-- Measuring an object: what is recorded or known is taken, and otherwise the operands decide. -/
theorem measure_object : (measure g known (n + 1) (.object v)).run m =
    match m.get? (g.idOf v) with
    | some j => .ok (j, m)
    | none =>
      match known.get? (g.idOf v) with
      | some j => .ok (j, m.put (g.idOf v) j)
      | none =>
        match g.operands? v with
        | none => .error .noAttribute
        | some vs =>
          match (vs.mapM fun w => measure g known n (g.datum w)).run m with
          | .error f => .error f
          | .ok (ns, m') =>
            let j := if (g.kind v).isReducer then 1 else largest ns
            .ok (j, m'.put (g.idOf v) j) := by
  rw [measure]
  simp only [Graph.identityOf, StateT.run, bind, StateT.bind, liftM, monadLift,
    MonadLift.monadLift, StateT.lift, Except.bind, pure, Except.pure, get, getThe,
    MonadStateOf.get, StateT.get]
  cases m.get? (g.idOf v) with
  | some j => rfl
  | none =>
    cases known.get? (g.idOf v) with
    | some j => rfl
    | none =>
      cases g.operands? v with
      | none => rfl
      | some vs =>
        dsimp only
        cases h : (vs.mapM fun w => measure g known n (g.datum w)) m with
        | error f => simp only [StateT.bind, bind, Except.bind, h]
        | ok r =>
          simp only [StateT.bind, bind, Except.bind, h]
          rfl

/-- What an entry says: it is known, or the operands are recorded and decide. -/
def Measured (g : Graph) (known m : IdMap Int) (v : Nat) (n : Int) : Prop :=
  known.get? (g.idOf v) = some n ∨ known.get? (g.idOf v) = none ∧ ∃ ws, g.operands? v = some ws ∧
    (∀ w ∈ ws, ∃ j, m.get? (g.idOf w) = some j ∧ ((g.kind v).isReducer = false → j ≤ n)) ∧
    ((g.kind v).isReducer = true → n = 1)

/-- The size has its origin in a known one. -/
def Rooted (g : Graph) (known : IdMap Int) (v : Nat) (n : Int) : Prop :=
  1 < n → ∃ x, g.Leads true v x ∧ known.get? (g.idOf x) = some n

/-- A record of sizes that can be trusted. -/
structure Trusted (g : Graph) (known m : IdMap Int) : Prop where
  distinct : m.Distinct
  measured : ∀ v n, m.get? (g.idOf v) = some n → Measured g known m v n
  rooted : ∀ v n, m.get? (g.idOf v) = some n → Rooted g known v n

theorem Trusted.empty (g : Graph) (known : IdMap Int) : Trusted g known [] :=
  ⟨.nil,fun _ _ h => (nomatch h),fun _ _ h => (nomatch h)⟩

/-- Everything recorded stays, and what is added has a rank below `r`. -/
structure Extends (g : Graph) (rank : Nat → Nat) (r : Nat) (m m' : IdMap Int) : Prop where
  keeps : ∀ v n, m.get? (g.idOf v) = some n → m'.get? (g.idOf v) = some n
  adds : ∀ v, m.get? (g.idOf v) = none → (m'.get? (g.idOf v)).isSome = true → rank v < r

variable {rank : Nat → Nat} {r : Nat}

theorem Extends.refl (g : Graph) (rank : Nat → Nat) (r : Nat) (m : IdMap Int) :
    Extends g rank r m m :=
  ⟨fun _ _ h => h,fun v h h' => by simp [h] at h'⟩

theorem Extends.trans {m'' : IdMap Int} (h : Extends g rank r m m') (h' : Extends g rank r m' m'') :
    Extends g rank r m m'' := by
  refine ⟨fun v n hv => h'.keeps v n (h.keeps v n hv),fun v hv hv' => ?_⟩
  cases hm : m'.get? (g.idOf v) with
  | none => exact h'.adds v hm hv'
  | some n => exact h.adds v hv (by simp [hm])

theorem Extends.mono {r' : Nat} (h : Extends g rank r m m') (hr : r ≤ r') :
    Extends g rank r' m m' :=
  ⟨h.keeps,fun v hv hv' => Nat.lt_of_lt_of_le (h.adds v hv hv') hr⟩

theorem Measured.mono (h : Measured g known m v j) (he : Extends g rank r m m') :
    Measured g known m' v j := by
  rcases h with h | ⟨h,ws,hws,hops,hred⟩
  · exact .inl h
  · refine .inr ⟨h,ws,hws,fun w hw => ?_,hred⟩
    obtain ⟨i,hi,hle⟩ := hops w hw
    exact ⟨i,he.keeps w i hi,hle⟩

theorem Trusted.put (h : Trusted g known m) (hnone : m.get? (g.idOf v) = none)
    (hv : Measured g known m v j) (hroot : Rooted g known v j) :
    Trusted g known (m.put (g.idOf v) j) ∧ Extends g rank (rank v + 1) m (m.put (g.idOf v) j) ∧
      (m.put (g.idOf v) j).get? (g.idOf v) = some j := by
  have hext : Extends g rank (rank v + 1) m (m.put (g.idOf v) j) := by
    refine ⟨fun w n hw => ?_,fun w hw hw' => ?_⟩
    · rw [IdMap.get?_put, if_neg]
      · exact hw
      · rintro heq
        have : v = w := heq
        rw [← this, hnone] at hw
        cases hw
    · rw [IdMap.get?_put] at hw'
      split at hw'
      · rename_i heq
        have : v = w := heq
        subst this
        exact Nat.lt_succ_self _
      · simp [hw] at hw'
  refine ⟨⟨h.distinct.put _ _,fun w n hw => ?_,fun w n hw => ?_⟩,hext,by rw [IdMap.get?_put]; simp⟩
  · rw [IdMap.get?_put] at hw
    split at hw
    · rename_i heq
      cases hw
      have : v = w := heq
      subst this
      exact hv.mono hext
    · exact (h.measured w n hw).mono hext
  · rw [IdMap.get?_put] at hw
    split at hw
    · rename_i heq
      cases hw
      have : v = w := heq
      subst this
      exact hroot
    · exact h.rooted w n hw

theorem exists_of_forall₂ {α β : Type} {R : α → β → Prop} {as : List α} {bs : List β}
    (h : List.Forall₂ R as bs) {a : α} (ha : a ∈ as) : ∃ b ∈ bs, R a b := by
  induction h with
  | nil => cases ha
  | cons hab _ ih =>
    rcases List.mem_cons.mp ha with rfl | ha
    · exact ⟨_,by simp,hab⟩
    · obtain ⟨b,hb,hr⟩ := ih ha
      exact ⟨b,by simp [hb],hr⟩

theorem exists_of_forall₂_right {α β : Type} {R : α → β → Prop} {as : List α} {bs : List β}
    (h : List.Forall₂ R as bs) {b : β} (hb : b ∈ bs) : ∃ a ∈ as, R a b :=
  exists_of_forall₂ h.flip hb

theorem le_foldl_max (ns : List Int) (n : Int) : ∀ i ∈ n :: ns, i ≤ ns.foldl max n := by
  induction ns generalizing n with
  | nil => simp
  | cons k ns ih =>
    intro i hi
    have hmax := ih (max n k) (max n k) (by simp)
    rcases List.mem_cons.mp hi with rfl | hi
    · exact Int.le_trans (Int.le_max_left i k) hmax
    · rcases List.mem_cons.mp hi with rfl | hi
      · exact Int.le_trans (Int.le_max_right n i) hmax
      · exact ih (max n k) i (by simp [hi])

theorem foldl_max_mem (ns : List Int) (n : Int) : ns.foldl max n ∈ n :: ns := by
  induction ns generalizing n with
  | nil => simp
  | cons k ns ih =>
    rw [List.foldl_cons]
    rcases List.mem_cons.mp (ih (max n k)) with h | h
    · rw [h]
      rcases Int.le_total n k with hle | hle
      · simp [Int.max_eq_right hle]
      · simp [Int.max_eq_left hle]
    · simp [h]

theorem le_largest {ns : List Int} {i : Int} (h : i ∈ ns) : i ≤ largest ns := by
  cases ns with
  | nil => cases h
  | cons n ns => exact le_foldl_max ns n i h

theorem largest_mem {ns : List Int} (h : 1 < largest ns) : largest ns ∈ ns := by
  cases ns with
  | nil => exact absurd h (by decide)
  | cons n ns => exact foldl_max_mem ns n

/-- A size that comes from an operand is rooted where the operand's is. -/
theorem Rooted.step (hw : w ∈ g.links v) (hm : Measured g known m w j) (h : Rooted g known w j) :
    Rooted g known v j := by
  intro hlt
  rcases hm with hk | ⟨_,_,_,_,hred⟩
  · exact ⟨w,.step hw (.inl rfl) (.refl w),hk⟩
  · obtain ⟨x,hx,hk⟩ := h hlt
    refine ⟨x,.step hw (.inr fun hr => ?_) hx,hk⟩
    have := hred hr.2
    omega

/-- What measuring a vertex amounts to. -/
def Records (g : Graph) (known : IdMap Int) (rank : Nat → Nat) (n v : Nat) : Prop :=
  ∀ {m m' : IdMap Int} {j : Int}, Trusted g known m →
    (measure g known n (.object v)).run m = .ok (j, m') →
    Trusted g known m' ∧ Extends g rank (rank v + 1) m m' ∧ m'.get? (g.idOf v) = some j

theorem mapM_records {ws : List Nat} (hws : ∀ w ∈ ws, Records g known rank n w)
    (hobject : ∀ w ∈ ws, g.datum w = .object w) (hlt : ∀ w ∈ ws, rank w < r)
    (hm : Trusted g known m) {ns : List Int}
    (h : (ws.mapM fun w => measure g known n (g.datum w)).run m = .ok (ns, m')) :
    Trusted g known m' ∧ Extends g rank r m m' ∧
      List.Forall₂ (fun w j => m'.get? (g.idOf w) = some j) ws ns := by
  induction ws generalizing m ns m' with
  | nil =>
    cases h
    exact ⟨hm,.refl _ _ _ _,.nil⟩
  | cons w ws ih =>
    simp only [List.forall_mem_cons] at hws hobject hlt
    rw [List.mapM_cons, hobject.1, StateT.run_bind] at h
    cases hone : (measure g known n (.object w)).run m with
    | error f => rw [hone] at h; cases h
    | ok r =>
      obtain ⟨i,m₁⟩ := r
      obtain ⟨hm₁,hext₁,hget₁⟩ := hws.1 hm hone
      simp only [hone, bind, Except.bind] at h
      cases hrest : (ws.mapM fun w => measure g known n (g.datum w)).run m₁ with
      | error f =>
        have h := (StateT.run_bind ..).symm.trans h
        rw [hrest] at h
        cases h
      | ok r =>
        obtain ⟨is,m₂⟩ := r
        have h := (StateT.run_bind ..).symm.trans h
        rw [hrest] at h
        cases h
        obtain ⟨hm₂,hext₂,hget₂⟩ := ih hws.2 hobject.2 hlt.2 hm₁ hrest
        exact ⟨hm₂,(hext₁.mono hlt.1).trans hext₂,.cons (hext₂.keeps w i hget₁) hget₂⟩

/-- Measuring records what it finds. The operands of a vertex have a lower rank, so they add no
entry for it. -/
theorem measure_records (hrank : ∀ v, ∀ w ∈ g.links v, rank w < rank v)
    (hobject : ∀ v, ∀ w ∈ g.links v, g.datum w = .object w) :
    Records g known rank n v := by
  induction n generalizing v with
  | zero =>
    intro m m' j _ h
    cases h
  | succ n ih =>
    intro m m' j hm h
    rw [measure_object] at h
    cases hrec : m.get? (g.idOf v) with
    | some i =>
      simp only [hrec, Except.ok.injEq, Prod.mk.injEq] at h
      obtain ⟨rfl,rfl⟩ := h
      exact ⟨hm,.refl _ _ _ _,hrec⟩
    | none =>
      cases hk : known.get? (g.idOf v) with
      | some i =>
        simp only [hrec, hk, Except.ok.injEq, Prod.mk.injEq] at h
        obtain ⟨rfl,rfl⟩ := h
        exact hm.put hrec (.inl hk) fun _ => ⟨v,.refl v,hk⟩
      | none =>
        cases hops : g.operands? v with
        | none => simp [hrec, hk, hops] at h
        | some vs =>
          have hlinks : g.links v = vs := by simp [Graph.links, hops]
          cases hrun : (vs.mapM fun w => measure g known n (g.datum w)).run m with
          | error f => simp [hrec, hk, hops, hrun] at h
          | ok r =>
            obtain ⟨ns,m₁⟩ := r
            obtain ⟨hm₁,hext₁,hget⟩ := mapM_records (fun w _ => ih) (hlinks ▸ hobject v)
              (hlinks ▸ hrank v) hm hrun
            simp only [hrec, hk, hops, hrun, Except.ok.injEq, Prod.mk.injEq] at h
            obtain ⟨hj,rfl⟩ := h
            rw [hj]
            have hnone : m₁.get? (g.idOf v) = none := by
              cases hget₁ : m₁.get? (g.idOf v) with
              | none => rfl
              | some i => exact absurd (hext₁.adds v hrec (by simp [hget₁])) (Nat.lt_irrefl _)
            have hmeas : Measured g known m₁ v j := by
              refine .inr ⟨hk,vs,hops,fun w hw => ?_,fun hr => by simp [← hj, hr]⟩
              obtain ⟨i,hi,hwi⟩ := exists_of_forall₂ hget hw
              exact ⟨i,hwi,fun hr => by simpa [← hj, hr] using le_largest hi⟩
            have hroot : Rooted g known v j := by
              intro hlt
              cases hr : (g.kind v).isReducer with
              | true =>
                rw [← hj, if_pos hr] at hlt
                exact absurd hlt (by decide)
              | false =>
                rw [← hj] at hlt ⊢
                simp only [hr, Bool.false_eq_true, if_false] at hlt ⊢
                obtain ⟨w,hw,hwi⟩ := exists_of_forall₂_right hget (largest_mem hlt)
                exact (hm₁.rooted w _ hwi).step (hlinks ▸ hw) (hm₁.measured w _ hwi) hlt
            obtain ⟨hm',hext',hget'⟩ := hm₁.put hnone hmeas hroot
            exact ⟨hm',(hext₁.mono (Nat.le_succ _)).trans hext',hget'⟩

theorem exists_of_known {s : Sizing} (h : Sizes.known g s = .ok known) {id : Identity} {n : Int}
    (hn : known.get? id = some n) :
    ∃ e ∈ s, ∃ id', g.identityOf e.1 = .ok id' ∧ id'.serial = id.serial := by
  have hfold : ∀ (s : Sizing) (m : IdMap Int), s.foldlM (fun m (e : Datum × Datum) => do
      let id ← g.identityOf e.1
      .ok (IdMap.put m id (← Kind.ofConversion e.2.toInt))) m = .ok known →
      (m.get? id).isSome = true ∨ ∃ e ∈ s, ∃ id', g.identityOf e.1 = .ok id' ∧ id'.serial = id.serial := by
    intro s
    induction s with
    | nil =>
      intro m h
      cases h
      exact .inl (by simp [hn])
    | cons e s ih =>
      intro m h
      rw [List.foldlM_cons] at h
      cases hid : g.identityOf e.1 with
      | error f => simp [hid, bind, Except.bind] at h
      | ok id' =>
        cases hc : Kind.ofConversion e.2.toInt with
        | error f => simp [hid, hc, bind, Except.bind] at h
        | ok i =>
          simp only [hid, hc, bind, Except.bind] at h
          rcases ih _ h with h | ⟨e',he',hid'⟩
          · rw [IdMap.get?_put] at h
            split at h
            · rename_i heq
              exact .inr ⟨e,by simp,id',hid,heq⟩
            · exact .inl h
          · exact .inr ⟨e',by simp [he'],hid'⟩
  rcases hfold s [] h with h | h
  · cases h
  · exact h

theorem infer_eq {s : Sizing} {levels : Nat} (hk : Sizes.known g s = .ok known) (root : Nat) :
    infer g (.object root) (some s) levels = match (measure g known levels (.object root)).run [] with
      | .error f => .error f
      | .ok r => .ok ((r.2.filter fun (_, n) => 1 < n).map fun (id, n) => (id, n.toNat)) := by
  simp only [infer, Option.elim_some, roots, bind, Except.bind, hk]
  cases hm : (measure g known levels (.object root)).run [] with
  | error f =>
    have hm' : measure g known levels (.object root) [] = .error f := hm
    simp [List.forM, StateT.run, discard, Functor.discard, Functor.mapConst, StateT.map,
      bind, StateT.bind, Except.bind, hm']
  | ok r =>
    have hm' : measure g known levels (.object root) [] = .ok r := hm
    simp [List.forM, StateT.run, discard, Functor.discard, Functor.mapConst, StateT.map,
      bind, StateT.bind, Except.bind, hm']
    rfl

/-- What is inferred comes from a record in which the root is measured. -/
theorem infer_trusted (hrank : ∀ v, ∀ w ∈ g.links v, rank w < rank v)
    (hobject : ∀ v, ∀ w ∈ g.links v, g.datum w = .object w) {root : Nat} {s : Sizing}
    {sizes : SizeTable} {levels : Nat} (h : infer g (.object root) (some s) levels = .ok sizes) :
    ∃ known m, Sizes.known g s = .ok known ∧ Trusted g known m ∧
      (m.get? (g.idOf root)).isSome = true ∧
      sizes = (m.filter fun e => decide (1 < e.2)).map fun e => (e.1, e.2.toNat) := by
  cases hk : Sizes.known g s with
  | error f => simp [infer, hk, bind, Except.bind] at h
  | ok known =>
    rw [infer_eq hk] at h
    cases hm : (measure g known levels (.object root)).run [] with
    | error f =>
      rw [hm] at h
      cases h
    | ok r =>
      rw [hm] at h
      obtain ⟨htrusted,_,hroot⟩ := measure_records hrank hobject (Trusted.empty g known) hm
      exact ⟨known,r.2,rfl,htrusted,by simp [hroot],(Except.ok.inj h).symm⟩

/-- Sizes that were inferred for everything below a root from some given ones. -/
structure Inferred (g : Graph) (root : Nat) (given : Nat → Prop) (sizes : SizeTable) : Prop where
  links_le : ∀ v, g.Leads false root v → (g.kind v).isReducer = false → ∀ w ∈ g.links v,
    sizes.size (g.idOf w) ≤ sizes.size (g.idOf v)
  reducer : ∀ v, (g.kind v).isReducer = true → sizes.size (g.idOf v) = 1
  rooted : ∀ v, 1 < sizes.size (g.idOf v) →
    ∃ x, given x ∧ g.Leads true v x ∧ sizes.size (g.idOf x) = sizes.size (g.idOf v)

/-- What depends on a large vertex without looking into reducers is large. -/
theorem Inferred.one_lt_size {root x : Nat} {given : Nat → Prop} {sizes : SizeTable}
    (h : Inferred g root given sizes) (hx : g.Leads true v x) (hkx : (g.kind x).isReducer = false)
    (hlt : 1 < sizes.size (g.idOf x)) (hv : g.Leads false root v) (hr : (g.kind v).isReducer = false) :
    1 < sizes.size (g.idOf v) := by
  induction hx with
  | refl v => exact hlt
  | @step v w x hw ho _ ih =>
    have hw' : g.Leads false root w := hv.trans (.inr (g.isOpen_false v)) (.step hw (.inl rfl) (.refl w))
    have hrw : (g.kind w).isReducer = false := by
      rcases ho with rfl | ho
      · exact hkx
      · exact Bool.eq_false_iff.mpr fun hred => ho ⟨rfl,hred⟩
    exact Nat.lt_of_lt_of_le (ih hkx hlt hw' hrw) (h.links_le v hv hr w hw)

theorem size_filter_map (hm : m.Distinct) (id : Identity) :
    SizeTable.size ((m.filter fun e => decide (1 < e.2)).map fun e => (e.1, e.2.toNat)) id =
      (((m.get? id).filter fun n => decide (1 < n)).map Int.toNat).getD 1 := by
  rw [SizeTable.size, IdMap.get?_filter_map hm (fun n => decide (1 < n)) Int.toNat id]

theorem size_of_get? (hm : m.Distinct) {id : Identity} (h : m.get? id = some j) :
    SizeTable.size ((m.filter fun e => decide (1 < e.2)).map fun e => (e.1, e.2.toNat)) id =
      (max 1 j).toNat := by
  rw [size_filter_map hm, h]
  by_cases hj : 1 < j
  · rw [Option.filter_some, if_pos (by simpa using hj), Int.max_eq_right (Int.le_of_lt hj)]
    rfl
  · rw [Option.filter_some, if_neg (by simpa using hj), Int.max_eq_left (Int.not_lt.mp hj)]
    rfl

theorem observable_of_known {s : Sizing} (hs : ∀ e ∈ s, ∃ x, e.1 = .object x ∧ g.kind x = .observable)
    (hk : Sizes.known g s = .ok known) {n : Int} (hn : known.get? (g.idOf v) = some n) :
    (∃ e ∈ s, e.1 = .object v) ∧ g.kind v = .observable := by
  obtain ⟨e,he,id,hid,hserial⟩ := exists_of_known hk hn
  obtain ⟨x,hx,hobs⟩ := hs e he
  rw [hx] at hid
  cases hid
  have hxv : x = v := hserial
  subst hxv
  exact ⟨⟨e,he,hx⟩,hobs⟩

/-- What a measured vertex leads to is measured, since nothing lies behind a known size. -/
theorem Trusted.measured_of_leads (hm : Trusted g known m)
    (hknown : ∀ v n, known.get? (g.idOf v) = some n → g.kind v = .observable) {u : Nat}
    (hl : g.Leads false u v) (hu : (m.get? (g.idOf u)).isSome = true) :
    (m.get? (g.idOf v)).isSome = true := by
  induction hl with
  | refl v => exact hu
  | @step u w v hw _ _ ih =>
    obtain ⟨n,hn⟩ := Option.isSome_iff_exists.mp hu
    refine ih ?_
    rcases hm.measured u n hn with hkn | ⟨_,ws,hws,hops,_⟩
    · have hobs := hknown u n hkn
      simp [Graph.links, Graph.operands?, hobs, Kind.parts?] at hw
    · have hlinks : g.links u = ws := by simp [Graph.links, hws]
      obtain ⟨i,hi,_⟩ := hops w (hlinks ▸ hw)
      simp [hi]

theorem size_of_known (hrank : ∀ v, ∀ w ∈ g.links v, rank w < rank v)
    (hobject : ∀ v, ∀ w ∈ g.links v, g.datum w = .object w) {root : Nat} {s : Sizing}
    (hs : ∀ e ∈ s, ∃ x, e.1 = .object x ∧ g.kind x = .observable)
    {sizes : SizeTable} {levels : Nat} (h : infer g (.object root) (some s) levels = .ok sizes)
    (hk : Sizes.known g s = .ok known) (hj : known.get? (g.idOf v) = some j)
    (hv : g.Leads false root v) : sizes.size (g.idOf v) = (max 1 j).toNat := by
  obtain ⟨known',m,hk',hm,hroot,rfl⟩ := infer_trusted hrank hobject h
  obtain rfl : known = known' := Except.ok.inj (hk.symm.trans hk')
  obtain ⟨i,hi⟩ := Option.isSome_iff_exists.mp
    (hm.measured_of_leads (fun _ _ hn => (observable_of_known hs hk hn).2) hv hroot)
  rw [size_of_get? hm.distinct hi]
  rcases hm.measured v i hi with hkn | ⟨hkn,_⟩
  · rw [hj] at hkn
    rw [Option.some.inj hkn]
  · rw [hj] at hkn
    cases hkn

theorem known_of_size (hrank : ∀ v, ∀ w ∈ g.links v, rank w < rank v)
    (hobject : ∀ v, ∀ w ∈ g.links v, g.datum w = .object w) {root : Nat} {s : Sizing}
    {sizes : SizeTable} {levels : Nat} (h : infer g (.object root) (some s) levels = .ok sizes)
    (hv : g.kind v = .observable)
    (hlt : 1 < sizes.size (g.idOf v)) :
    ∃ known n, Sizes.known g s = .ok known ∧ known.get? (g.idOf v) = some n ∧ 1 < n := by
  obtain ⟨known,m,hk,hm,_,rfl⟩ := infer_trusted hrank hobject h
  cases hget : m.get? (g.idOf v) with
  | none =>
    rw [size_filter_map hm.distinct, hget] at hlt
    exact absurd hlt (by decide)
  | some n =>
    rw [size_of_get? hm.distinct hget] at hlt
    have hn : 1 < n := by omega
    obtain ⟨x,hx,hkx⟩ := hm.rooted v n hget hn
    cases hx with
    | refl => exact ⟨known,n,hk,hkx,hn⟩
    | step hw => simp [Graph.links, Graph.operands?, hv, Kind.parts?] at hw

/-- In an acyclic graph, sizes given for observables determine the others. -/
theorem infer_inferred (hrank : ∀ v, ∀ w ∈ g.links v, rank w < rank v)
    (hobject : ∀ v, ∀ w ∈ g.links v, g.datum w = .object w) {root : Nat} {s : Sizing}
    (hs : ∀ e ∈ s, ∃ x, e.1 = .object x ∧ g.kind x = .observable)
    {sizes : SizeTable} {levels : Nat} (h : infer g (.object root) (some s) levels = .ok sizes) :
    Inferred g root (fun x => ∃ e ∈ s, e.1 = .object x) sizes := by
  obtain ⟨known,m,hk,hm,hroot,rfl⟩ := infer_trusted hrank hobject h
  have hgiven : ∀ v n, known.get? (g.idOf v) = some n →
      (∃ e ∈ s, e.1 = .object v) ∧ g.kind v = .observable := fun _ _ => observable_of_known hs hk
  have hclosed : ∀ u v, g.Leads false u v → (m.get? (g.idOf u)).isSome = true →
      (m.get? (g.idOf v)).isSome = true := fun _ _ =>
    hm.measured_of_leads fun v n hn => (hgiven v n hn).2
  refine ⟨fun v hv hr w hw => ?_,fun v hr => ?_,fun v hv => ?_⟩
  · obtain ⟨n,hn⟩ := Option.isSome_iff_exists.mp (hclosed root v hv hroot)
    rcases hm.measured v n hn with hkn | ⟨_,ws,hws,hops,_⟩
    · have hobs := (hgiven v n hkn).2
      simp [Graph.links, Graph.operands?, hobs, Kind.parts?] at hw
    · have hlinks : g.links v = ws := by simp [Graph.links, hws]
      obtain ⟨i,hi,hle⟩ := hops w (hlinks ▸ hw)
      have := hle hr
      rw [size_of_get? hm.distinct hi, size_of_get? hm.distinct hn]
      omega
  · cases hget : m.get? (g.idOf v) with
    | none => rw [size_filter_map hm.distinct, hget]; rfl
    | some n =>
      rcases hm.measured v n hget with hkn | ⟨_,_,_,_,hred⟩
      · have hobs := (hgiven v n hkn).2
        rw [hobs] at hr
        cases hr
      · rw [size_of_get? hm.distinct hget, hred hr]
        rfl
  · cases hget : m.get? (g.idOf v) with
    | none =>
      rw [size_filter_map hm.distinct, hget] at hv
      exact absurd hv (by decide)
    | some n =>
      rw [size_of_get? hm.distinct hget] at hv
      have hlt : 1 < n := by omega
      obtain ⟨x,hx,hkx⟩ := hm.rooted v n hget hlt
      obtain ⟨j,hj⟩ := Option.isSome_iff_exists.mp
        (hclosed v x (hx.mono) (by simp [hget]))
      have hjn : j = n := by
        rcases hm.measured x j hj with h | ⟨h,_⟩
        · rw [hkx] at h
          exact (Option.some.inj h).symm
        · rw [hkx] at h
          cases h
      exact ⟨x,(hgiven x n hkx).1,hx,by rw [size_of_get? hm.distinct hj, size_of_get? hm.distinct hget, hjn]⟩

end Sizes

end FitCode
