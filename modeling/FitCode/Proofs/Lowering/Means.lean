import FitCode.Proofs.Code.Meaning
import FitCode.Proofs.Lowering.Readable

/-! # Values of a graph

What the nodes of a graph stand for, given the values of the leaves that are bound. Code that is
lowered from the graph computes these values, and it runs as far as there are any.
-/
namespace FitCode

open Numeric Program

/-- What values are asked for. -/
inductive Demand where
  | one (r : Role) (v : Nat)
  | all (r : Role) (vs : List Nat)

/-- How many entries a vertex has. -/
def Setting.size (s : Setting) (v : Nat) : Nat := s.sizes.size (s.graph.idOf v)

/-- The values of vertices in one pass of a loop or outside of loops, where `base` gives those of the bound
ones. Leaves may have values that are errors, nodes that combine others may not. A reducer with a term of
many entries adds up what the term is in each pass, wherever the reducer stands. -/
inductive Means (s : Setting) (base : Option Nat → Nat → Option (Outcome Value)) :
    Option Nat → Demand → List (Outcome Value) → Prop
  | given {i v o} (hb : base i v = some o) : Means s base i (.one .result v) [o]
  | literal {i v a} (hb : base i v = none) (hk : (s.graph.kind v).value? = some a) :
      Means s base i (.one .result v) [Datum.literalValue a]
  | combined {i v r vs make os w} (hb : base i v = none)
      (hk : (s.graph.kind v).combined? = some (r, vs, make)) (hs : Means s base i (.all r vs) os)
      (hw : (s.graph.kind v).combine os = .ok w) : Means s base i (.one .result v) [.ok w]
  | added {i v t log u w} (hb : base i v = none) (hk : (s.graph.kind v).reduced? = some (t, log))
      (hn : s.size t ≤ 1) (h : Means s base i (.one .result t) [.ok u])
      (hw : accumulate log (.float 0) u = .ok w) : Means s base i (.one .result v) [.ok w]
  | summed {i v t log w} {us : Nat → Value} (hb : base i v = none)
      (hk : (s.graph.kind v).reduced? = some (t, log))
      (hn : 1 < s.size t) (h : ∀ j < s.size t, Means s base (some j) (.one .result t) [.ok (us j)])
      (hw : (List.range (s.size t)).foldlM (fun sum j => accumulate log sum (us j)) (.float 0) = .ok w) :
      Means s base i (.one .result v) [.ok w]
  | node {i v o} (hk : (s.graph.kind v).members? = none) (h : Means s base i (.one .result v) [o]) :
      Means s base i (.one .argument v) [o]
  | collection {i v ms os w} (hk : (s.graph.kind v).members? = some ms)
      (hs : Means s base i (.all .result ms) os) (hw : arrayOf os = .ok w) :
      Means s base i (.one .argument v) [.ok w]
  | nil {i r} : Means s base i (.all r []) []
  | cons {i r v vs o os} (h : Means s base i (.one r v) [o]) (hs : Means s base i (.all r vs) os) :
      Means s base i (.all r (v :: vs)) (o :: os)

namespace Kind

variable {k : Kind}

theorem value?_of_combined {x : Role × List Nat × (List Operand → Compound)} (h : k.combined? = some x) :
    k.value? = none := by
  cases k with
  | sum ts =>
    cases ts with
    | nil => cases h
    | cons t ts => rfl
  | product fs =>
    cases fs with
    | nil => cases h
    | cons f fs => rfl
  | formula => rfl
  | gaussian => rfl
  | exponential => rfl
  | polynomial => rfl
  | mixture => rfl
  | _ => cases h

theorem value?_of_reduced {x : Nat × Bool} (h : k.reduced? = some x) : k.value? = none := by
  cases k with
  | entrySum => rfl
  | negLogLikelihood => rfl
  | _ => cases h

theorem combined?_of_reduced {x : Nat × Bool} (h : k.reduced? = some x) : k.combined? = none := by
  cases k with
  | entrySum => rfl
  | negLogLikelihood => rfl
  | _ => cases h

end Kind

theorem foldlM_accumulate_congr {n : Nat} {us us' : Nat → Value} (h : ∀ j < n, us j = us' j) (log : Bool)
    (w : Value) :
    (List.range n).foldlM (fun sum j => accumulate log sum (us j)) w =
      (List.range n).foldlM (fun sum j => accumulate log sum (us' j)) w := by
  have hcongr : ∀ (js : List Nat) (w : Value), (∀ j ∈ js, us j = us' j) →
      js.foldlM (fun sum j => accumulate log sum (us j)) w =
        js.foldlM (fun sum j => accumulate log sum (us' j)) w := by
    intro js
    induction js with
    | nil => exact fun _ _ => rfl
    | cons j js ih =>
      intro w hjs
      rw [List.foldlM_cons, List.foldlM_cons, hjs j (by simp)]
      exact bind_congr fun w' => ih w' fun k hk => hjs k (by simp [hk])
  exact hcongr _ w fun j hj => h j (List.mem_range.mp hj)

namespace Means

variable {s : Setting} {base : Option Nat → Nat → Option (Outcome Value)} {i : Option Nat} {d : Demand}
  {v t : Nat} {r : Role} {vs ms : List Nat} {make : List Operand → Compound} {log : Bool} {o : Outcome Value}
  {os os' : List (Outcome Value)} {a : Float}

theorem given_inv (hb : base i v = some o) (h : Means s base i (.one .result v) os) : os = [o] := by
  cases h with
  | given hb' => rw [Option.some.inj (hb.symm.trans hb')]
  | literal hb' => rw [hb] at hb'; cases hb'
  | combined hb' => rw [hb] at hb'; cases hb'
  | added hb' => rw [hb] at hb'; cases hb'
  | summed hb' => rw [hb] at hb'; cases hb'

theorem literal_inv (hb : base i v = none) (hk : (s.graph.kind v).value? = some a)
    (h : Means s base i (.one .result v) os) : os = [Datum.literalValue a] := by
  cases h with
  | given hb' => rw [hb] at hb'; cases hb'
  | literal _ hk' => rw [Option.some.inj (hk.symm.trans hk')]
  | combined _ hk' => rw [Kind.value?_of_combined hk'] at hk; cases hk
  | added _ hk' => rw [Kind.value?_of_reduced hk'] at hk; cases hk
  | summed _ hk' => rw [Kind.value?_of_reduced hk'] at hk; cases hk

theorem combined_inv (hb : base i v = none) (hk : (s.graph.kind v).combined? = some (r, vs, make))
    (h : Means s base i (.one .result v) os) :
    ∃ us w, Means s base i (.all r vs) us ∧ (s.graph.kind v).combine us = .ok w ∧ os = [.ok w] := by
  cases h with
  | given hb' => rw [hb] at hb'; cases hb'
  | literal _ hk' => rw [Kind.value?_of_combined hk] at hk'; cases hk'
  | combined _ hk' hs hw =>
    rw [hk] at hk'
    cases hk'
    exact ⟨_,_,hs,hw,rfl⟩
  | added _ hk' => rw [Kind.combined?_of_reduced hk'] at hk; cases hk
  | summed _ hk' => rw [Kind.combined?_of_reduced hk'] at hk; cases hk

theorem added_inv (hb : base i v = none) (hk : (s.graph.kind v).reduced? = some (t, log)) (hn : s.size t ≤ 1)
    (h : Means s base i (.one .result v) os) :
    ∃ u w, Means s base i (.one .result t) [.ok u] ∧ accumulate log (.float 0) u = .ok w ∧ os = [.ok w] := by
  cases h with
  | given hb' => rw [hb] at hb'; cases hb'
  | literal _ hk' => rw [Kind.value?_of_reduced hk] at hk'; cases hk'
  | combined _ hk' => rw [Kind.combined?_of_reduced hk] at hk'; cases hk'
  | added _ hk' _ ht hw =>
    rw [hk] at hk'
    cases hk'
    exact ⟨_,_,ht,hw,rfl⟩
  | summed _ hk' hn' =>
    rw [hk] at hk'
    cases hk'
    exact absurd hn' (Nat.not_lt.mpr hn)

theorem summed_inv (hb : base i v = none) (hk : (s.graph.kind v).reduced? = some (t, log)) (hn : 1 < s.size t)
    (h : Means s base i (.one .result v) os) :
    ∃ (us : Nat → Value) (w : Value), (∀ j < s.size t, Means s base (some j) (.one .result t) [.ok (us j)]) ∧
      (List.range (s.size t)).foldlM (fun sum j => accumulate log sum (us j)) (.float 0) = .ok w ∧
      os = [.ok w] := by
  cases h with
  | given hb' => rw [hb] at hb'; cases hb'
  | literal _ hk' => rw [Kind.value?_of_reduced hk] at hk'; cases hk'
  | combined _ hk' => rw [Kind.combined?_of_reduced hk] at hk'; cases hk'
  | added _ hk' hn' =>
    rw [hk] at hk'
    cases hk'
    exact absurd hn (Nat.not_lt.mpr hn')
  | summed _ hk' _ ht hw =>
    rw [hk] at hk'
    cases hk'
    exact ⟨_,_,ht,hw,rfl⟩

theorem node_inv (hk : (s.graph.kind v).members? = none) (h : Means s base i (.one .argument v) os) :
    Means s base i (.one .result v) os := by
  cases h with
  | node _ h => exact h
  | collection hk' => rw [hk] at hk'; cases hk'

theorem collection_inv (hk : (s.graph.kind v).members? = some ms) (h : Means s base i (.one .argument v) os) :
    ∃ us w, Means s base i (.all .result ms) us ∧ arrayOf us = .ok w ∧ os = [.ok w] := by
  cases h with
  | node hk' => rw [hk] at hk'; cases hk'
  | collection hk' hs hw =>
    rw [hk] at hk'
    cases hk'
    exact ⟨_,_,hs,hw,rfl⟩

theorem members_of_collection (hk : (s.graph.kind v).members? = some ms)
    (h : ∃ o, Means s base i (.one .argument v) [o]) : ∃ os, Means s base i (.all .result ms) os := by
  obtain ⟨o,ho⟩ := h
  obtain ⟨us,_,hus,_⟩ := ho.collection_inv hk
  exact ⟨us,hus⟩

theorem members_of_combined (hb : base i v = none) (hk : (s.graph.kind v).combined? = some (r, vs, make))
    (h : ∃ o, Means s base i (.one .result v) [o]) : ∃ os, Means s base i (.all r vs) os := by
  obtain ⟨o,ho⟩ := h
  obtain ⟨us,_,hus,_⟩ := ho.combined_inv hb hk
  exact ⟨us,hus⟩

theorem cons_inv (h : Means s base i (.all r (v :: vs)) os) :
    ∃ u us, os = u :: us ∧ Means s base i (.one r v) [u] ∧ Means s base i (.all r vs) us := by
  cases h with
  | cons h hs => exact ⟨_,_,rfl,h,hs⟩

theorem head_of_cons (h : ∃ os, Means s base i (.all r (v :: vs)) os) : ∃ o, Means s base i (.one r v) [o] := by
  obtain ⟨os,hos⟩ := h
  obtain ⟨u,_,_,hu,_⟩ := hos.cons_inv
  exact ⟨u,hu⟩

theorem tail_of_cons (h : ∃ os, Means s base i (.all r (v :: vs)) os) : ∃ os, Means s base i (.all r vs) os := by
  obtain ⟨os,hos⟩ := h
  obtain ⟨_,us,_,_,hus⟩ := hos.cons_inv
  exact ⟨us,hus⟩

theorem unique (h : Means s base i d os) (h' : Means s base i d os') : os = os' := by
  induction h generalizing os' with
  | given hb => exact (h'.given_inv hb).symm
  | literal hb hk => exact (h'.literal_inv hb hk).symm
  | combined hb hk _ hw ih =>
    obtain ⟨us,w,hs,hw',rfl⟩ := h'.combined_inv hb hk
    rw [ih hs, hw'] at hw
    cases hw
    rfl
  | added hb hk hn _ hw ih =>
    obtain ⟨u,w,ht,hw',rfl⟩ := h'.added_inv hb hk hn
    cases ih ht
    rw [hw'] at hw
    cases hw
    rfl
  | summed hb hk hn _ hw ih =>
    obtain ⟨us,w,ht,hw',rfl⟩ := h'.summed_inv hb hk hn
    rw [foldlM_accumulate_congr fun j hj => Except.ok.inj (List.singleton_inj.mp (ih j hj (ht j hj))), hw'] at hw
    cases hw
    rfl
  | node hk _ ih => exact ih (h'.node_inv hk)
  | collection hk _ hw ih =>
    obtain ⟨us,w,hs,hw',rfl⟩ := h'.collection_inv hk
    rw [ih hs, hw'] at hw
    cases hw
    rfl
  | nil =>
    cases h'
    rfl
  | cons _ _ ih ihs =>
    obtain ⟨u,us,rfl,hu,hus⟩ := h'.cons_inv
    rw [List.singleton_inj.mp (ih hu), ihs hus]

end Means

namespace Sketch

/-- The operand of a bound leaf: what it is registered as, its entry in an open loop, or its column. -/
def leaf? (p : Plan) (σ : Sketch) (v : Nat) : Option Operand :=
  ((σ.results v).map (·.operand)).or ((σ.binding p v).or ((p.column? v).map .column))

/-- The values of the bound leaves. -/
def base (p : Plan) (σ : Sketch) (s : Store) (v : Nat) : Option (Outcome Value) := (σ.leaf? p v).map (·.value s)

/-- The values of vertices where the bound leaves have the values that a sketch binds them to. -/
abbrev Denotes (p : Plan) (σ : Sketch) (s : Store) : Demand → List (Outcome Value) → Prop :=
  Means p.toSetting (fun _ => σ.base p s) none

/-- A sketch in which nothing but leaves has been bound. -/
structure Opening (p : Plan) (σ : Sketch) : Prop where
  leaves : ∀ v e, σ.results v = some e → (p.graph.kind v).parts? = some []
  columns : ∀ v c, p.column? v = some c → p.graph.kind v = .observable ∧ σ.results v = none
  bindings : ∀ v x, σ.binding p v = some x → σ.results v = none
  arrays : ∀ v, σ.arrays v = none

/-- Every name of the code has the value of the expression that it is bound to. -/
def Solves (s : Store) (σ : Sketch) : Prop := ∀ x e, .assign x e ∈ σ.code → s.vars x = e.value s

/-- Every name of the code has a value. -/
def Fine (s : Store) (σ : Sketch) : Prop := ∀ x e, .assign x e ∈ σ.code → ∃ w, s.vars x = .ok w

end Sketch

end FitCode
