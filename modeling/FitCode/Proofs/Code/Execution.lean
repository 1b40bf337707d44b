import FitCode.Proofs.Code.Meaning
import FitCode.Proofs.Code.Scope

/-! # Running bindings

A store that satisfies the equations of bindings says what running them does: the run succeeds if all
names have values, and leaves each name with its value. For bindings of distinct names whose uses are
covered there is such a store.
-/
namespace FitCode

open Text Numeric Program

namespace Compound

theorem value_congr {e : Compound} (he : e.IsReadable) {s t : Store} (hp : s.params = t.params)
    (hc : s.columns = t.columns) (hv : ∀ y ∈ e.vars, s.vars y = t.vars y) : e.value s = e.value t := by
  have hoperand : ∀ x ∈ e.operands, x.value s = x.value t := by
    intro x hx
    have hvars : ∀ y ∈ x.vars, s.vars y = t.vars y := fun y hy => hv y (List.mem_flatMap.mpr ⟨x,hx,hy⟩)
    cases x with
    | var y => exact hvars y (by simp [Operand.vars])
    | entry c k => simp only [Operand.value, hc, hvars (.index k) (by simp [Operand.vars])]
    | _ => simp only [Operand.value, hp, hc]
  have hall : e.arguments = e.operands → e.value s = e.value t := by
    intro h
    rw [value, value, h]
    exact congrArg _ (List.map_congr_left hoperand)
  cases e with
  | filled o xs =>
    obtain ⟨ho,hlt⟩ := he.template o xs rfl
    refine Arith.value_congr fun i hi => ?_
    have hi := ho.spelled.holes_subset i hi
    have hx := List.getElem?_eq_getElem (hlt i hi)
    simp only [arguments, List.getElem?_map, hx, Option.map_some, Option.getD_some]
    exact hoperand _ (List.mem_filterMap.mpr ⟨i,hi,hx⟩)
  | single x => exact hall rfl
  | sum xs => exact hall rfl
  | product xs => exact hall rfl
  | call f xs => exact hall rfl
  | array xs => exact hall rfl

end Compound

namespace Store

variable {s : Store} {c : Bindings} {x : Var}

def set (s : Store) (x : Var) (o : Outcome Value) : Store := { s with vars := Function.update s.vars x o }

/-- The names bound in order. -/
noncomputable def bind (s : Store) : Bindings → Store
  | [] => s
  | b :: c => (s.set b.1 (b.2.value s)).bind c

@[simp] theorem params_bind (s : Store) (c : Bindings) : (s.bind c).params = s.params := by
  induction c generalizing s with
  | nil => rfl
  | cons b c ih => exact ih _

@[simp] theorem columns_bind (s : Store) (c : Bindings) : (s.bind c).columns = s.columns := by
  induction c generalizing s with
  | nil => rfl
  | cons b c ih => exact ih _

theorem vars_bind (hx : x ∉ c.map (·.1)) : (s.bind c).vars x = s.vars x := by
  induction c generalizing s with
  | nil => rfl
  | cons b c ih =>
    simp only [List.map_cons, List.mem_cons, not_or] at hx
    rw [bind, ih hx.2]
    exact Function.update_of_ne hx.1 _ _

theorem bind_append (s : Store) (c d : Bindings) : s.bind (c ++ d) = (s.bind c).bind d := by
  induction c generalizing s with
  | nil => rfl
  | cons b c ih => exact ih _

/-- Names get the same values in stores that agree on what their bindings use. -/
theorem bind_congr {S : Var → Prop} {t : Store} (h : Item.Scoped S c.items) (hr : c.IsReadable)
    (hp : s.params = t.params) (hc : s.columns = t.columns) (hS : ∀ y, S y → s.vars y = t.vars y) :
    ∀ y, S y ∨ y ∈ c.map (·.1) → (s.bind c).vars y = (t.bind c).vars y := by
  induction c generalizing S s t with
  | nil => exact fun y hy => hS y (hy.elim id fun hy => by cases hy)
  | cons b c ih =>
    obtain ⟨x,e⟩ := b
    cases h with
    | assign hx _ he h =>
      have hvalue : e.value s = e.value t :=
        Compound.value_congr (hr (x, e) (by simp)) hp hc fun y hy => hS y (he y hy)
      intro y hy
      refine ih (s := s.set x (e.value s)) (t := t.set x (e.value t)) h (fun b hb => hr b (by simp [hb]))
        hp hc (fun z hz => ?_) y ?_
      · by_cases hzx : z = x
        · subst hzx
          simp [set, hvalue]
        · simp only [set, Function.update_of_ne hzx]
          exact hS z (hz.resolve_right hzx)
      · rw [List.map_cons, List.mem_cons] at hy
        tauto

/-- Every name has the value of what it is bound to. -/
def Solves (s : Store) (c : Bindings) : Prop := ∀ b ∈ c, s.vars b.1 = b.2.value s

theorem solves_bind {S : Var → Prop} (h : Item.Scoped S c.items) (hr : c.IsReadable)
    (hd : (c.map (·.1)).Nodup) (hS : ∀ x ∈ c.map (·.1), ¬ S x) (s : Store) : (s.bind c).Solves c := by
  induction c generalizing S s with
  | nil => simp [Solves]
  | cons b c ih =>
    obtain ⟨x,e⟩ := b
    rw [List.map_cons, List.nodup_cons] at hd
    cases h with
    | assign hx hp he h =>
      refine List.forall_mem_cons.mpr ⟨?_,ih h (fun b hb => hr b (by simp [hb])) hd.2 (fun y hy => ?_) _⟩
      · rw [bind, vars_bind hd.1]
        refine (Function.update_self x _ _).trans ?_
        refine Compound.value_congr (hr (x, e) (by simp)) (by simp [set]) (by simp [set]) fun y hy => ?_
        have hy := he y hy
        have hyc : y ∉ c.map (·.1) := fun hc => hS y (List.mem_cons_of_mem _ hc) hy
        have hyx : y ≠ x := fun hyx => hS x (by simp) (hyx ▸ hy)
        rw [vars_bind hyc]
        exact (Function.update_of_ne hyx _ _).symm
      · rintro (hSy | rfl)
        · exact hS y (List.mem_cons_of_mem _ hy) hSy
        · exact hd.1 hy

end Store

namespace Program

variable {F : Frame} {env : Env} {s : Store} {xs : List Var} {x : Var} {c : Bindings}

/-- A frame of a function whose variables are its arguments and introduced names, at least those of a
list. -/
structure Frame.Hosts (F : Frame) (xs : List Var) : Prop where
  name : F.name = "squashed"
  params : "params" ∈ F.locals
  columns : "obs" ∈ F.locals
  vars : ∀ x ∈ xs, x.text ∈ F.locals
  locals : ∀ n ∈ F.locals, n = "params" ∨ n = "obs" ∨ ∃ x : Var, n = x.text

theorem lookup_cons_eq (env : Env) (n n' : String) (v : Value) :
    List.lookup n' ((n, v) :: env) = if n = n' then some v else env.lookup n' := by
  rw [List.lookup_cons]
  by_cases h : n = n'
  · rw [if_pos h, h, beq_self_eq_true]
  · rw [if_neg h, beq_eq_false_iff_ne.mpr (Ne.symm h)]

theorem lookup_set (env : Env) (n n' : String) (v : Value) :
    (env.set n v).lookup n' = if n = n' then some v else env.lookup n' := by
  induction env with
  | nil => exact lookup_cons_eq [] n n' v
  | cons e env ih =>
    obtain ⟨k,w⟩ := e
    by_cases hk : k = n
    · subst hk
      simp only [Env.set, beq_self_eq_true, if_true, lookup_cons_eq]
      split <;> rfl
    · simp only [Env.set, beq_eq_false_iff_ne.mpr hk, Bool.false_eq_true, if_false, lookup_cons_eq,
        ih]
      by_cases h : k = n'
      · rw [if_pos h, if_neg fun hn => hk (h.trans hn.symm), if_pos h]
      · rw [if_neg h, if_neg h]

theorem Frame.lookup_set_of_ne (F : Frame) (env : Env) {n n' : String} (h : n ≠ n') (v : Value) :
    F.lookup (env.set n v) n' = F.lookup env n' := by
  simp only [Frame.lookup, Program.lookup_set, if_neg h]

theorem Frame.lookup_set_self {n : String} (h : n ∈ F.locals) (env : Env) (v : Value) :
    F.lookup (env.set n v) n = .ok v := by
  simp [Frame.lookup, Program.lookup_set, h]

theorem Frame.Holds.set (h : F.Holds env s xs) (hx : x.text ∈ F.locals) {v : Value} (hv : s.vars x = .ok v) :
    F.Holds (env.set x.text v) s (x :: xs) where
  params := (F.lookup_set_of_ne env (Var.text_ne (by decide) x) v).trans h.params
  columns := (F.lookup_set_of_ne env (Var.text_ne (by decide) x) v).trans h.columns
  numeric := (F.lookup_set_of_ne env (Var.text_ne (by decide) x) v).trans h.numeric
  routines := fun f => by
    have hne : x.text ≠ f.name := by cases f <;> exact Var.text_ne (by decide) x
    exact (F.lookup_set_of_ne env hne v).trans (h.routines f)
  vars := fun y hy => by
    by_cases hyx : x = y
    · subst hyx
      rw [F.lookup_set_self hx, hv]
    · rw [F.lookup_set_of_ne env (by simpa using hyx)]
      exact h.vars y ((List.mem_cons.mp hy).resolve_left (Ne.symm hyx))

/-- A name that belongs to no variable is looked up among the loaded ones. -/
theorem Frame.Hosts.lookup_loaded (hF : F.Hosts xs) (env : Env) {n : String} {v : Value}
    (hp : n ≠ "params") (ho : n ≠ "obs") (hs : n ≠ "squashed")
    (hd : n.toList.getLast?.any Char.isDigit = false) (hv : loaded? n = some v) : F.lookup env n = .ok v := by
  have hlocal : n ∉ F.locals := by
    intro hn
    rcases hF.locals n hn with h | h | ⟨x,h⟩
    · exact hp h
    · exact ho h
    · exact Var.text_ne hd x h.symm
  simp [Frame.lookup, hlocal, hF.name, hs, hv]

theorem Frame.Hosts.holds (hF : F.Hosts xs) (s : Store) :
    F.Holds [("params", s.params), ("obs", s.columns)] s [] where
  params := by simp [Frame.lookup, hF.params]
  columns := by
    have hne : ("obs" == "params") = false := by decide
    simp [Frame.lookup, hF.columns, List.lookup_cons, hne]
  numeric := hF.lookup_loaded _ (by decide) (by decide) (by decide) (by decide) rfl
  routines := fun f => by
    cases f <;> exact hF.lookup_loaded _ (by decide) (by decide) (by decide) (by decide) rfl
  vars := by simp

variable {S : Var → Prop} {rest : List Stmt}

theorem Frame.Holds.execAll_bind (h : F.Holds env s xs) (hF : ∀ b ∈ c, b.1.text ∈ F.locals)
    (hc : Item.Scoped S c.items) (hr : c.IsReadable) (hS : ∀ y, S y → y ∈ xs) (hs : s.Solves c)
    (hok : ∀ b ∈ c, ∃ v, s.vars b.1 = .ok v) (rest : List Stmt) :
    ∃ env', F.Holds env' s (xs ++ c.map (·.1)) ∧
      execAll F env (c.trees ++ rest) = execAll F env' rest := by
  induction c generalizing S env xs with
  | nil => exact ⟨env,by simpa using h,rfl⟩
  | cons b c ih =>
    obtain ⟨x,e⟩ := b
    cases hc with
    | assign hx hp he hc =>
      obtain ⟨v,hv⟩ := hok (x, e) (by simp)
      have heval : e.tree.eval F env = .ok v := by
        rw [Compound.eval_tree (hr (x, e) (by simp)) (h.mono fun y hy => hS y (he y hy)),
          ← hs (x, e) (by simp), hv]
      have hS' : ∀ y, S y ∨ y = x → y ∈ x :: xs := by
        rintro y (hy | rfl)
        · exact List.mem_cons_of_mem _ (hS y hy)
        · exact List.mem_cons_self
      obtain ⟨env',hholds,hexec⟩ := ih (h.set (hF (x, e) (by simp)) hv) (fun b hb => hF b (by simp [hb])) hc
        (fun b hb => hr b (by simp [hb])) hS' (fun b hb => hs b (by simp [hb]))
        (fun b hb => hok b (by simp [hb]))
      refine ⟨env',hholds.mono fun y hy => ?_,?_⟩
      · simp only [List.map_cons, List.mem_append, List.mem_cons] at hy ⊢
        rcases hy with hy | hy | hy
        · exact .inl (.inr hy)
        · exact .inl (.inl hy)
        · exact .inr hy
      · rw [← hexec]
        simp [Bindings.trees, execAll, Stmt.exec, heval, bind, Except.bind]

/-- Bindings that are run without error leave every name with a value. -/
theorem Frame.Holds.ok_of_execAll (h : F.Holds env s xs) (hF : ∀ b ∈ c, b.1.text ∈ F.locals)
    (hc : Item.Scoped S c.items) (hr : c.IsReadable) (hS : ∀ y, S y → y ∈ xs) (hs : s.Solves c) {r : Flow}
    (hrun : execAll F env (c.trees ++ rest) = .ok r) : ∀ b ∈ c, ∃ v, s.vars b.1 = .ok v := by
  induction c generalizing S env xs with
  | nil => simp
  | cons b c ih =>
    obtain ⟨x,e⟩ := b
    cases hc with
    | assign hx hp he hc =>
      have heval : e.tree.eval F env = s.vars x := by
        rw [Compound.eval_tree (hr (x, e) (by simp)) (h.mono fun y hy => hS y (he y hy)),
          ← hs (x, e) (by simp)]
      cases hv : s.vars x with
      | error err =>
        rw [hv] at heval
        simp [Bindings.trees, execAll, Stmt.exec, heval, bind, Except.bind] at hrun
      | ok v =>
        rw [hv] at heval
        simp only [Bindings.trees, List.map_cons, List.cons_append, execAll, Stmt.exec, heval, bind,
          Except.bind, List.foldl_cons, List.foldl_nil] at hrun
        have hS' : ∀ y, S y ∨ y = x → y ∈ x :: xs := by
          rintro y (hy | rfl)
          · exact List.mem_cons_of_mem _ (hS y hy)
          · exact List.mem_cons_self
        exact List.forall_mem_cons.mpr ⟨⟨v,hv⟩,ih (h.set (hF (x, e) (by simp)) hv)
          (fun b hb => hF b (by simp [hb])) hc (fun b hb => hr b (by simp [hb])) hS'
          (fun b hb => hs b (by simp [hb])) hrun⟩

end Program

end FitCode
