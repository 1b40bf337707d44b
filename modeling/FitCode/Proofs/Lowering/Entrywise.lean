import FitCode.Proofs.Graph.Typed
import FitCode.Proofs.Lowering.Means

/-! # Values of a pointwise graph at an entry

If the leaves of a pointwise graph have columns as values, or their entries at one position, then each
node has a value over columns, or its entry at that position. A collection is an array of rows there,
and the array of their entries here.
-/
namespace FitCode

open Numeric Program

/-- If the first value exists, the second one exists and is related to it. -/
def Lifts (R : Value → Value → Prop) (o o' : Outcome Value) : Prop :=
  ∀ V, o = .ok V → ∃ v, o' = .ok v ∧ R V v

theorem Lifts.bind {R S : Value → Value → Prop} {o o' : Outcome Value} {f f' : Value → Outcome Value}
    (h : Lifts R o o') (hf : ∀ V v, R V v → Lifts S (f V) (f' v)) : Lifts S (o >>= f) (o' >>= f') := by
  intro U hU
  obtain ⟨V,hV,hU⟩ := Outcome.bind_eq_ok.mp hU
  obtain ⟨v,rfl,hR⟩ := h V hV
  exact hf V v hR U hU

theorem Lifts.of_ok {R : Value → Value → Prop} {V v : Value} (h : R V v) : Lifts R (.ok V) (.ok v) := by
  intro U hU
  cases hU
  exact ⟨v,rfl,h⟩

section

variable {n i : Nat} (h1 : 1 < n)

include h1

theorem lifts_binary (op : Op) {o o' u u' : Outcome Value} (h : Lifts (Value.Entry n i) o o')
    (hu : Lifts (Value.Entry n i) u u') :
    Lifts (Value.Entry n i) (do let x ← o; Value.binary op x (← u)) (do let x ← o'; Value.binary op x (← u')) :=
  h.bind fun _ _ hV => hu.bind fun _ _ hW _ hU => hV.binary h1 hW hU

theorem Arith.lifts_value {a : Arith} {f f' : Nat → Outcome Value}
    (hf : ∀ k ∈ a.holes, Lifts (Value.Entry n i) (f k) (f' k)) :
    Lifts (Value.Entry n i) (a.value f) (a.value f') := by
  induction a with
  | hole k => exact hf k (by simp [holes])
  | whole m => exact .of_ok (.scalar _)
  | decimal x => exact .of_ok (.scalar _)
  | negate a ih => exact (ih hf).bind fun _ _ hV _ hU => hV.negate hU
  | keep a ih => exact (ih hf).bind fun _ _ hV _ hU => hV.keep hU
  | binary op a b iha ihb =>
    simp only [holes, List.mem_append, or_imp, forall_and] at hf
    exact lifts_binary h1 op (iha hf.1) (ihb hf.2)
  | exp a ih => exact (ih hf).bind fun _ _ hV _ hU => hV.exp hU
  | log a ih => exact (ih hf).bind fun _ _ hV _ hU => hV.log hU

theorem lifts_chain (op : Op) {os os' : List (Outcome Value)} (hne : os ≠ [])
    (h : List.Forall₂ (Lifts (Value.Entry n i)) os os') :
    Lifts (Value.Entry n i) (chain op os) (chain op os') := by
  have hfold : ∀ {us us' : List (Outcome Value)} {o o' : Outcome Value}, Lifts (Value.Entry n i) o o' →
      List.Forall₂ (Lifts (Value.Entry n i)) us us' → Lifts (Value.Entry n i)
        (us.foldl (fun total o => do let x ← total; Value.binary op x (← o)) o)
        (us'.foldl (fun total o => do let x ← total; Value.binary op x (← o)) o') := by
    intro us us' o o' ho hus
    induction hus generalizing o o' with
    | nil => exact ho
    | cons hu _ ih => exact ih (lifts_binary h1 op ho hu)
  cases h with
  | nil => exact absurd rfl hne
  | cons ho hos => exact hfold ho hos

end

/-- The array of values is, at an entry, the array of their entries. -/
theorem lifts_arrayOf {n i : Nat} {os os' : List (Outcome Value)}
    (h : List.Forall₂ (Lifts (Value.Entry n i)) os os') :
    Lifts (Value.Slice n i) (arrayOf os) (arrayOf os') := by
  have hmapM : ∀ {us us' : List (Outcome Value)} {Vs : List Value},
      List.Forall₂ (Lifts (Value.Entry n i)) us us' → us.mapM id = .ok Vs →
      ∃ vs, us'.mapM id = .ok vs ∧ List.Forall₂ (Value.Entry n i) Vs vs := by
    intro us us' Vs hus hVs
    induction hus generalizing Vs with
    | nil =>
      cases hVs
      exact ⟨[],rfl,.nil⟩
    | cons hu _ ih =>
      rw [List.mapM_cons, Outcome.bind_eq_ok] at hVs
      obtain ⟨V,hV,hVs⟩ := hVs
      obtain ⟨Ws,hWs,hVs⟩ := Outcome.bind_eq_ok.mp hVs
      cases hVs
      obtain ⟨v,hv,hVv⟩ := hu V hV
      obtain ⟨ws,hws,hWw⟩ := ih hWs
      refine ⟨v :: ws,?_,.cons hVv hWw⟩
      rw [List.mapM_cons, Outcome.bind_eq_ok]
      exact ⟨v,hv,by rw [hws]; rfl⟩
  intro U hU
  cases h with
  | nil =>
    cases hU
    exact ⟨_,rfl,.numbers []⟩
  | cons ho hos =>
    obtain ⟨Vs,hVs,hU⟩ := Outcome.bind_eq_ok.mp hU
    obtain ⟨vs,hvs,hVv⟩ := hmapM (.cons ho hos) hVs
    obtain ⟨u,hu,hUu⟩ := Value.Slice.ofItems hVv hU
    exact ⟨u,Outcome.bind_eq_ok.mpr ⟨vs,hvs,hu⟩,hUu⟩

/-- How a value over columns is related to that at an entry. -/
def Kind.Aligns (n i : Nat) : Role → Kind → Value → Value → Prop
  | .argument, collection _ => Value.Slice n i
  | _, _ => Value.Entry n i

theorem Kind.aligns_result (n i : Nat) (k : Kind) : k.Aligns n i .result = Value.Entry n i := by
  cases k <;> rfl

theorem Kind.aligns_node (n i : Nat) {k : Kind} (hk : k.members? = none) (r : Role) :
    k.Aligns n i r = Value.Entry n i := by
  cases r with
  | result => exact k.aligns_result n i
  | argument =>
    cases k with
    | collection ms => cases hk
    | _ => rfl

/-- Values of vertices over columns, and their values at an entry. -/
inductive Graph.Tracks (g : Graph) (n i : Nat) (r : Role) :
    List Nat → List (Outcome Value) → List (Outcome Value) → Prop
  | nil : Tracks g n i r [] [] []
  | cons {v vs o o' os os'} (h : Lifts ((g.kind v).Aligns n i r) o o') (hs : Tracks g n i r vs os os') :
      Tracks g n i r (v :: vs) (o :: os) (o' :: os')

namespace Graph.Tracks

variable {g : Graph} {n i v : Nat} {r : Role} {vs : List Nat} {o o' : Outcome Value} {os os' : List (Outcome Value)}

theorem length_eq (h : g.Tracks n i r vs os os') : os.length = vs.length := by
  induction h with
  | nil => rfl
  | cons _ _ ih => exact congrArg Nat.succ ih

theorem forall₂ (h : g.Tracks n i .result vs os os') : List.Forall₂ (Lifts (Value.Entry n i)) os os' := by
  induction h with
  | nil => exact .nil
  | cons h _ ih =>
    rw [Kind.aligns_result] at h
    exact .cons h ih

theorem node (h : Lifts ((g.kind v).Aligns n i r) o o') (hv : (g.kind v).isNode = true) :
    Lifts (Value.Entry n i) o o' := by
  rwa [Kind.aligns_node n i (members_of_isNode hv)] at h

theorem collection (h : Lifts ((g.kind v).Aligns n i .argument) o o')
    (hv : ∃ ms, (g.kind v).members? = some ms) : Lifts (Value.Slice n i) o o' := by
  obtain ⟨ms,hms⟩ := hv
  rwa [kind_of_members hms] at h

end Graph.Tracks

section

variable (b : Builtin) (o u t : Outcome Value)

theorem call_two : (do callBuiltin b (← [o, u].mapM id)) = (do callBuiltin b [← o, ← u]) := by
  cases o with
  | error e => rfl
  | ok x => cases u <;> rfl

theorem call_three : (do callBuiltin b (← [o, u, t].mapM id)) = (do callBuiltin b [← o, ← u, ← t]) := by
  cases o with
  | error e => rfl
  | ok x =>
    cases u with
    | error e => rfl
    | ok y => cases t <;> rfl

end

theorem Operand.lifts_whole (n i : Nat) (m : Int) :
    Lifts (fun V v => V = v ∧ Value.Entry n i V v) (wholeValue m) (wholeValue m) := by
  intro V hV
  refine ⟨V,hV,rfl,?_⟩
  rw [wholeValue, Value.signed] at hV
  split at hV
  · obtain ⟨s,_,rfl⟩ := Outcome.map_eq_ok.mp hV
    exact .scalar s
  · cases hV
    exact .scalar _

namespace Graph

variable {g : Graph} {n i v : Nat} {r : Role} {vs : List Nat} {os os' : List (Outcome Value)}
  {make : List Operand → Compound}

/-- What a pointwise node makes of values over columns is, at an entry, what it makes of the values there. -/
theorem Tracks.lifts_combine (hg : g.Typed) (hp : g.Pointwise) (h1 : 1 < n)
    (hk : (g.kind v).combined? = some (r, vs, make)) (h : g.Tracks n i r vs os os') :
    Lifts (Value.Entry n i) ((g.kind v).combine os) ((g.kind v).combine os') := by
  have hnodes := hg.nodes v
  have hcollections := hg.collections v
  cases hkind : g.kind v with
  | sum ts =>
    rw [hkind] at hk
    cases ts with
    | nil => cases hk
    | cons t ts =>
      cases hk
      exact lifts_chain h1 .add (List.ne_nil_of_length_pos (by rw [h.length_eq]; simp)) h.forall₂
  | product fs =>
    rw [hkind] at hk
    cases fs with
    | nil => cases hk
    | cons f fs =>
      cases hk
      exact lifts_chain h1 .mul (List.ne_nil_of_length_pos (by rw [h.length_eq]; simp)) h.forall₂
  | formula template args =>
    rw [hkind] at hk
    obtain ⟨o,ho,hmake⟩ := Option.map_eq_some_iff.mp hk
    cases hmake
    obtain ⟨o',ho',hholes⟩ := hg.templates v template _ hkind
    rw [ho] at ho'
    cases ho'
    rw [Kind.combine, Kind.combine, ho]
    refine Arith.lifts_value h1 fun k hk => ?_
    have hlt := hholes k ((hp.templates v template _ hkind o ho).spelled.holes_subset k hk)
    rw [← h.length_eq] at hlt
    have hlt' : k < os'.length := by rwa [← h.forall₂.length_eq]
    rw [List.getElem?_eq_getElem hlt, List.getElem?_eq_getElem hlt']
    exact h.forall₂.get hlt hlt'
  | gaussian x m s =>
    rw [hkind] at hk
    cases hk
    rcases h with _ | ⟨hx,_ | ⟨hm,_ | ⟨hs,_ | _⟩⟩⟩
    rw [hkind] at hnodes
    simp only [Kind.combine, call_three]
    refine (Tracks.node hx (hnodes x (by simp [Kind.nodeParts]))).bind fun _ _ hX => ?_
    refine (Tracks.node hm (hnodes m (by simp [Kind.nodeParts]))).bind fun _ _ hM => ?_
    refine (Tracks.node hs (hnodes s (by simp [Kind.nodeParts]))).bind fun _ _ hS => ?_
    exact fun U hU => hX.gaussian h1 hM hS hU
  | exponential x c =>
    rw [hkind] at hk
    cases hk
    rcases h with _ | ⟨hx,_ | ⟨hc,_ | _⟩⟩
    rw [hkind] at hnodes
    simp only [Kind.combine, call_two]
    refine (Tracks.node hx (hnodes x (by simp [Kind.nodeParts]))).bind fun _ _ hX => ?_
    refine (Tracks.node hc (hnodes c (by simp [Kind.nodeParts]))).bind fun _ _ hC => ?_
    exact fun U hU => hX.exponential h1 hC hU
  | polynomial x cs order =>
    rw [hkind] at hk
    cases hk
    rcases h with _ | ⟨hx,_ | ⟨hc,_ | _⟩⟩
    rw [hkind] at hnodes hcollections
    simp only [Kind.combine, List.cons_append, List.nil_append, call_three]
    refine (Tracks.node hx (hnodes x (by simp [Kind.nodeParts]))).bind fun _ _ hX => ?_
    refine (Tracks.collection hc (hcollections cs (by simp [Kind.collectionParts]))).bind fun _ _ hC => ?_
    refine (Operand.lifts_whole n i order).bind fun V v hV => ?_
    obtain ⟨rfl,hO⟩ := hV
    exact fun U hU => hX.polynomial h1 hC hO hU
  | mixture ds cs =>
    rw [hkind] at hk
    cases hk
    rcases h with _ | ⟨hd,_ | ⟨hc,_ | _⟩⟩
    rw [hkind] at hcollections
    simp only [Kind.combine, call_two]
    refine (Tracks.collection hd (hcollections ds (by simp [Kind.collectionParts]))).bind fun _ _ hD => ?_
    refine (Tracks.collection hc (hcollections cs (by simp [Kind.collectionParts]))).bind fun _ _ hC => ?_
    exact fun U hU => Value.Entry.weightedSum h1 hD hC hU
  | _ =>
    rw [hkind] at hk
    cases hk

end Graph

namespace Demand

def role : Demand → Role
  | one r _ => r
  | all r _ => r

def vertices : Demand → List Nat
  | one _ v => [v]
  | all _ vs => vs

end Demand

theorem Kind.mem_targets_of_combined {k : Kind} {r : Role} {vs : List Nat} {make : List Operand → Compound}
    (hk : k.combined? = some (r, vs, make)) {w : Nat} (hw : w ∈ vs) : w ∈ k.targets := by
  cases k with
  | sum ts =>
    cases ts with
    | nil => cases hk
    | cons t ts =>
      cases hk
      simpa [targets, parts?, members?] using hw
  | product fs =>
    cases fs with
    | nil => cases hk
    | cons f fs =>
      cases hk
      simpa [targets, parts?, members?] using hw
  | formula template args =>
    obtain ⟨o,_,hmake⟩ := Option.map_eq_some_iff.mp hk
    cases hmake
    simpa [targets, parts?, members?] using hw
  | gaussian x m s => cases hk; simpa [targets, parts?, members?] using hw
  | exponential x c => cases hk; simpa [targets, parts?, members?] using hw
  | polynomial x cs order => cases hk; simpa [targets, parts?, members?] using hw
  | mixture ds cs => cases hk; simpa [targets, parts?, members?] using hw
  | _ => cases hk

theorem Datum.lifts_literal (n i : Nat) (a : Float) :
    Lifts (Value.Entry n i) (literalValue a) (literalValue a) := by
  have hsigned : ∀ (negative : Bool) (x : Float) (V : Value),
      (Value.float x).signed negative = .ok V → Value.Entry n i V V := by
    intro negative x V hV
    rw [Value.signed] at hV
    split at hV
    · obtain ⟨s,_,rfl⟩ := Outcome.map_eq_ok.mp hV
      exact .scalar s
    · cases hV
      exact .scalar _
  intro V hV
  refine ⟨V,hV,?_⟩
  rw [literalValue] at hV
  split at hV
  · cases hV
    exact .scalar _
  · exact hsigned _ _ V hV
  · exact hsigned _ _ V hV

/-- If the leaves that a vertex depends on have entries of columns in place of columns, then its value is
the entry of its value over the columns. -/
theorem Means.lifts {s : Setting} (hg : s.graph.Typed) (hp : s.graph.Pointwise) {n i : Nat} (h1 : 1 < n)
    {base base' : Option Nat → Nat → Option (Outcome Value)} {pass pass' : Option Nat} {Q : Nat → Prop}
    (hQ : ∀ v w, Q v → w ∈ (s.graph.kind v).targets → Q w)
    (hnone : ∀ v, Q v → base pass v = none → base' pass' v = none)
    (hsome : ∀ v o, Q v → base pass v = some o →
      ∃ o', base' pass' v = some o' ∧ Lifts (Value.Entry n i) o o')
    {d : Demand} {os : List (Outcome Value)} (h : Means s base pass d os) (hd : ∀ v ∈ d.vertices, Q v) :
    ∃ os', Means s base' pass' d os' ∧ s.graph.Tracks n i d.role d.vertices os os' := by
  have hresult : ∀ {v : Nat} {o o' : Outcome Value}, Lifts (Value.Entry n i) o o' →
      s.graph.Tracks n i .result [v] [o] [o'] := by
    intro v o o' ho
    refine .cons ?_ .nil
    rwa [Kind.aligns_result]
  induction h with
  | @given _ v o hb =>
    obtain ⟨o',hb',ho⟩ := hsome v o (hd v (by simp [Demand.vertices])) hb
    exact ⟨[o'],.given hb',hresult ho⟩
  | @literal _ v a hb hk =>
    exact ⟨_,.literal (hnone v (hd v (by simp [Demand.vertices])) hb) hk,hresult (Datum.lifts_literal n i a)⟩
  | @combined _ v r vs make os w hb hk _ hw ih =>
    have hv : Q v := hd v (by simp [Demand.vertices])
    obtain ⟨os',hos,htracks⟩ := ih hnone hsome fun u hu => hQ v u hv (Kind.mem_targets_of_combined hk hu)
    obtain ⟨w',hw',hentry⟩ := htracks.lifts_combine hg hp h1 hk w hw
    exact ⟨[.ok w'],.combined (hnone v hv hb) hk hos hw',hresult (.of_ok hentry)⟩
  | added _ hk =>
    rw [hp.reduced?] at hk
    cases hk
  | summed _ hk =>
    rw [hp.reduced?] at hk
    cases hk
  | @node _ v o hk _ ih =>
    obtain ⟨os',hos,htracks⟩ := ih hnone hsome hd
    rcases htracks with _ | ⟨ho,_ | _⟩
    refine ⟨_,.node hk hos,.cons ?_ .nil⟩
    rwa [Kind.aligns_node n i hk] at ho ⊢
  | @collection _ v ms os w hk _ hw ih =>
    have hv : Q v := hd v (by simp [Demand.vertices])
    obtain ⟨os',hos,htracks⟩ := ih hnone hsome fun u hu => hQ v u hv (List.mem_append_right _ (by rw [hk]; exact hu))
    obtain ⟨w',hw',hslice⟩ := lifts_arrayOf htracks.forall₂ w hw
    refine ⟨[.ok w'],.collection hk hos hw',.cons ?_ .nil⟩
    rw [Graph.kind_of_members hk]
    exact .of_ok hslice
  | nil => exact ⟨[],.nil,.nil⟩
  | @cons _ r v vs o os _ _ ih ihs =>
    obtain ⟨us,hus,ht⟩ := ih hnone hsome fun u hu => hd u (by simp_all [Demand.vertices])
    obtain ⟨os',hos,hts⟩ := ihs hnone hsome fun u hu => hd u (by simp_all [Demand.vertices])
    rcases ht with _ | ⟨ho,_ | _⟩
    exact ⟨_,.cons hus hos,.cons ho hts⟩

end FitCode
