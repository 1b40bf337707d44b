import FitCode.Proofs.Lowering.Nesting

/-! # What lowering a node is put together from

A node asks for the results and arrays of its operands. Apart from that it takes few steps of its own.
A property that passes to what is put together, and that these have, holds of lowering the node.
-/
namespace FitCode

namespace Emit

/-- What is put together from steps with the property has it. -/
structure Composes (P : {α : Type} → Emit α → Prop) : Prop where
  pure {α : Type} (a : α) : P (pure a : Emit α)
  throw {α : Type} (e : Fault) : P (throw e : Emit α)
  bind {α β : Type} {x : Emit α} {f : α → Emit β} (hx : P x) (hf : ∀ a, P (f a)) : P (x >>= f)
  get_bind {α : Type} {f : Draft → Emit α} (hf : ∀ c, P (f c)) : P (get >>= f)

namespace Composes

variable {P : {α : Type} → Emit α → Prop} {α β : Type} {x : Emit α} {f : α → Emit β}

theorem throw_bind (h : Composes P) (e : Fault) (f : α → Emit β) : P (MonadExcept.throw e >>= f) :=
  h.throw e

theorem ofExcept_bind (h : Composes P) {r : Except Fault α} (hf : ∀ a, r = .ok a → P (f a)) :
    P (Emit.ofExcept r >>= f) := by
  cases r with
  | error e => exact h.throw e
  | ok a => exact hf a rfl

theorem ofExcept (h : Composes P) (r : Except Fault α) : P (Emit.ofExcept r) := by
  cases r with
  | error e => exact h.throw e
  | ok a => exact h.pure a

theorem map (h : Composes P) (hx : P x) (g : α → β) : P (g <$> x) := by
  rw [map_eq_pure_bind]
  exact h.bind hx fun a => h.pure (g a)

theorem mapM (h : Composes P) {as : List α} (hf : ∀ a ∈ as, P (f a)) : P (as.mapM f) := by
  induction as with
  | nil => exact h.pure []
  | cons a as ih =>
    rw [List.mapM_cons]
    refine h.bind (hf a (by simp)) fun b => ?_
    exact h.bind (ih fun a' ha' => hf a' (by simp [ha'])) fun bs => h.pure (b :: bs)

end Composes

end Emit

open Emit

namespace Graph

/-- Lowering a graph runs no scripts. -/
def Scriptless (g : Graph) : Prop := ∀ v steps args reducer, g.kind v ≠ .script steps args reducer

theorem scriptless_of_vertices {g : Graph}
    (h : ∀ v ∈ g.vertices.toList, ∀ steps args reducer, v.kind ≠ .script steps args reducer) :
    g.Scriptless := by
  intro v steps args reducer hk
  rw [kind, vertex] at hk
  cases hv : g.vertices[v]? with
  | none => simp [hv] at hk
  | some x =>
    rw [hv, Option.getD_some] at hk
    exact h x (Array.mem_toList_iff.mpr (Array.mem_of_getElem? hv)) steps args reducer hk

theorem eq_datum_of_toArgument {g : Graph} {w : Nat} {k : ArgumentKind} {d : Datum}
    (h : g.toArgument (g.datum w) = .ok (k, d)) : d = g.datum w := by
  cases hd : g.datum w with
  | object u =>
    rw [hd, toArgument] at h
    split at h <;> cases h <;> rfl
  | identity i => simp [hd, toArgument] at h
  | _ => rw [datum] at hd; split at hd <;> cases hd

end Graph

namespace Setting

/-- The property also holds of the steps by which `v` itself counts a call, names, writes, registers and
loops. -/
structure Hooks (s : Setting) (v : Nat) (P : {α : Type} → Emit α → Prop) : Prop extends Composes P where
  count : P (modify fun c => { c with calls := c.calls ++ [v] } : Emit Unit)
  freshTemp : P s.freshTemp
  write (text : String) : P (s.write text)
  register (expr : String) (save : Bool) : P (s.register (.object v) expr save)
  loop {x : Emit Unit} (hx : P x) : P (s.openLoop (.object v) >>= fun h => insideLoop h x)

variable {s : Setting} {P : {α : Type} → Emit α → Prop} {l : Lowerer} {v : Nat}

theorem argumentCode_composes (h : Composes P) {d : Datum} (hr : ∀ trail, P (l.resolve trail d))
    (ha : ∀ trail, P (s.arrayOf l trail d none)) (trail : Trail) (k : ArgumentKind) :
    P (s.argumentCode l trail (k, d)) := by
  cases k with
  | float => exact h.bind (h.ofExcept _) fun _ => h.pure _
  | int => exact h.bind (h.ofExcept _) fun _ => h.pure _
  | text => exact h.pure d
  | node => exact h.bind (hr _) fun _ => h.pure _
  | collection => exact h.bind (ha _) fun _ => h.pure _

theorem argumentsCode_composes (h : Composes P) {args : List Datum}
    (hargs : ∀ d ∈ args, ∀ k d', s.graph.toArgument d = .ok (k, d') →
      ∀ trail, P (s.argumentCode l trail (k, d'))) (trail : Trail) : P (s.argumentsCode l trail args) := by
  refine h.bind (h.mapM fun d hd => h.ofExcept_bind fun a ha => hargs d hd a.1 a.2 ha _) fun codes => ?_
  split
  · exact h.pure _
  · exact h.throw _

theorem callCode_composes (h : Composes P) {args : List Datum}
    (hargs : ∀ d ∈ args, ∀ k d', s.graph.toArgument d = .ok (k, d') →
      ∀ trail, P (s.argumentCode l trail (k, d'))) (trail : Trail) (function : String) :
    P (s.callCode l trail function args) :=
  h.bind (argumentsCode_composes h hargs _) fun _ => h.pure _

namespace Hooks

theorem save (h : s.Hooks v P) (expr : String) (save : Bool) :
    P (discard (s.register (.object v) expr save)) :=
  h.map (h.register expr save) _

theorem addUp (h : s.Hooks v P) {t : Nat} (ht : ∀ trail, P (l.resolve trail (s.graph.datum t)))
    (trail : Trail) (update : String → String → String) : P (s.addUp l trail v t update) := by
  refine h.bind h.freshTemp fun acc => h.bind (h.write _) fun _ => ?_
  have hadd : P (do
      s.write (update acc (← l.resolve (trail.deeper 2) (s.graph.datum t))) : Emit Unit) :=
    h.bind (ht _) fun _ => h.write _
  split
  · rw [← bind_assoc]
    exact h.bind (h.loop hadd) fun _ => h.save acc false
  · exact h.bind hadd fun _ => h.save acc false

end Hooks

theorem mem_targets_of_parts {k : Kind} {ws : List Nat} (hk : k.parts? = some ws) {w : Nat}
    (hw : w ∈ ws) : w ∈ k.targets := by
  simp [Kind.targets, hk, hw]

/-- Lowering a node has the property, if asking for its operands does. -/
theorem Hooks.emitNode (h : s.Hooks v P) (hg : s.graph.Scriptless)
    (hr : ∀ w, w ∈ (s.graph.kind v).targets ∨ w ∈ s.graph.operands v →
      ∀ trail, P (l.resolve trail (s.graph.datum w)))
    (ha : ∀ w ∈ (s.graph.kind v).targets, ∀ trail, P (s.arrayOf l trail (s.graph.datum w) none))
    (trail : Trail) : P (s.emitNode l trail v) := by
  have hpart : ∀ {w ws}, (s.graph.kind v).parts? = some ws → w ∈ ws →
      ∀ trail, P (l.resolve trail (s.graph.datum w)) :=
    fun hws hw => hr _ (.inl (mem_targets_of_parts hws hw))
  have hwrapped : ∀ {ws}, (s.graph.kind v).parts? = some ws → P
      (ws.mapM fun w => do return "(" ++ (← l.resolve (trail.deeper 2) (s.graph.datum w)) ++ ")") :=
    fun hws => h.mapM fun w hw => h.bind (hpart hws hw _) fun _ => h.pure _
  have harg : ∀ {w ws}, (s.graph.kind v).parts? = some ws → w ∈ ws →
      ∀ k d', s.graph.toArgument (s.graph.datum w) = .ok (k, d') →
        ∀ trail, P (s.argumentCode l trail (k, d')) := by
    intro w ws hws hw k d' hd trail
    rw [Graph.eq_datum_of_toArgument hd]
    exact argumentCode_composes h.toComposes (hpart hws hw) (ha w (mem_targets_of_parts hws hw)) trail k
  have hcall : ∀ f ws, (s.graph.kind v).parts? = some ws →
      P (s.callCode l trail f (ws.map s.graph.datum)) := by
    intro f ws hws
    refine callCode_composes h.toComposes (fun d hd => ?_) trail f
    obtain ⟨w,hw,rfl⟩ := List.mem_map.mp hd
    exact harg hws hw
  unfold Setting.emitNode
  dsimp only
  cases hk : s.graph.kind v with
  | parameter value isConstant => exact iteInduction (fun _ => h.save _ _) fun _ => h.throw _
  | observable =>
    refine h.get_bind fun c => ?_
    split
    · exact h.save _ _
    · exact h.throw _
  | constant value => exact h.save _ _
  | sum ts =>
    cases ts with
    | nil => exact h.save _ _
    | cons t ts =>
      exact h.bind (h.mapM fun w hw => hpart (by rw [hk]; rfl) hw _) fun _ => h.save _ _
  | product fs =>
    cases fs with
    | nil => exact h.save _ _
    | cons f fs => exact h.bind (hwrapped (by rw [hk]; rfl)) fun _ => h.save _ _
  | formula template args =>
    refine h.bind (hwrapped (by rw [hk]; rfl)) fun _ => ?_
    exact h.bind (h.ofExcept _) fun _ => h.save _ _
  | gaussian x mean sigma =>
    exact h.bind (hcall _ [x, mean, sigma] (by rw [hk]; rfl)) fun _ => h.save _ _
  | exponential x c => exact h.bind (hcall _ [x, c] (by rw [hk]; rfl)) fun _ => h.save _ _
  | polynomial x cs order =>
    -- The order is an argument that stands for itself, so the parts do not cover the arguments.
    have hparts : (s.graph.kind v).parts? = some [x, cs] := by rw [hk]; rfl
    refine h.bind (callCode_composes h.toComposes (fun d hd => ?_) trail _) fun _ => h.save _ _
    simp only [List.mem_cons, List.not_mem_nil, or_false] at hd
    rcases hd with rfl | rfl | rfl
    · exact harg hparts (by simp)
    · exact harg hparts (by simp)
    · intro k d' hd trail
      cases hd
      exact h.bind (h.ofExcept _) fun _ => h.pure _
  | mixture ds cs => exact h.bind (hcall _ [ds, cs] (by rw [hk]; rfl)) fun _ => h.save _ _
  | entrySum t => exact h.addUp (@hpart t [t] (by rw [hk]; rfl) (by simp)) trail _
  | negLogLikelihood t => exact h.addUp (@hpart t [t] (by rw [hk]; rfl) (by simp)) trail _
  | custom expr args save =>
    refine h.bind h.count fun _ => h.bind (h.mapM fun w hw => hr w (.inr hw) _) fun _ => ?_
    exact h.save _ _
  | script steps args reducer => exact absurd hk (hg v steps args reducer)
  | collection ms => exact h.throw _
  | identity => exact h.throw _

end Setting

end FitCode
