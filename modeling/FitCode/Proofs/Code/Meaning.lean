import FitCode.Proofs.Code.Source
import FitCode.Proofs.Lowering.Builds
import FitCode.Proofs.Numeric.Entries

/-! # What generated code computes

The value of an operand depends on the two arguments of the function and on the values of the names
that the lowering has introduced, and that of an expression on the values of its operands. An operand
that an expression does not use may fail to have a value. Evaluating the tree of an expression gives
its value.
-/
namespace FitCode

open Text Numeric Program

/-- A number with its sign. -/
def Numeric.Value.signed (negative : Bool) (v : Value) : Outcome Value := if negative then v.negate else .ok v

/-- The value of a number that is written into code. -/
def Datum.literalValue (x : Float) : Outcome Value :=
  match Decimal.read x with
  | .nan => .ok (.float Decimal.nanValue)
  | .infinite negative => (Value.float Decimal.infinity).signed negative
  | .finite negative _ _ => (Value.float (Datum.reread x)).signed negative

/-- The two arguments of a function and the values of the names it introduces. -/
structure Store where
  params : Value
  columns : Value
  vars : Var → Outcome Value

namespace Operand

/-- The value of a whole number that is written into code. -/
def wholeValue (n : Int) : Outcome Value := (Value.int n.natAbs).signed (n < 0)

def value (s : Store) : Operand → Outcome Value
  | var x => s.vars x
  | parameter i => s.params.index (.int i)
  | column c => s.columns.index (.int c)
  | first c => do (← s.columns.index (.int c)).index (.int 0)
  | entry c k => do
    let column ← s.columns.index (.int c)
    column.index (← s.vars (.index k))
  | literal x => Datum.literalValue x
  | whole n => wholeValue n

end Operand

/-- Values joined from the left. -/
def chain (op : Op) : List (Outcome Value) → Outcome Value
  | [] => .ok .null
  | o :: os => os.foldl (fun total o => do
      let x ← total
      Value.binary op x (← o)) o

def Routine.builtin : Routine → Builtin
  | gaussian => .gaussian
  | exponential => .exponential
  | polynomial => .polynomial
  | mixture => .weightedSum

/-- The array of some values. -/
def arrayOf : List (Outcome Value) → Outcome Value
  | [] => .ok (.array (.ofList []))
  | os => do Value.ofItems (← os.mapM id)

/-- Adds a value to a sum, or subtracts its logarithm. -/
def accumulate (log : Bool) (sum w : Value) : Outcome Value :=
  if log then do sum.inPlace .sub (← w.log) else sum.inPlace .add w

namespace Compound

/-- The operands as they are given; a template need not use all of them. -/
def arguments : Compound → List Operand
  | single x => [x]
  | sum xs => xs
  | product xs => xs
  | filled _ xs => xs
  | call _ xs => xs
  | array xs => xs

/-- What an expression makes of the values of its operands. -/
noncomputable def combine : Compound → List (Outcome Value) → Outcome Value
  | single _, os => (os[0]?).getD (.ok .null)
  | sum _, os => chain .add os
  | product _, os => chain .mul os
  | filled o _, os => o.arith.value fun i => (os[i]?).getD (.ok .null)
  | call f _, os => do callBuiltin f.builtin (← os.mapM id)
  | array _, os => arrayOf os

noncomputable def value (s : Store) (e : Compound) : Outcome Value := e.combine (e.arguments.map (·.value s))

end Compound

/-- What a node that combines operands makes of their values. -/
noncomputable def Kind.combine : Kind → List (Outcome Value) → Outcome Value
  | sum _, os => chain .add os
  | product _, os => chain .mul os
  | formula template _, os =>
    ((outline? template).getD []).arith.value fun i => (os[i]?).getD (.ok .null)
  | gaussian .., os => do callBuiltin .gaussian (← os.mapM id)
  | exponential .., os => do callBuiltin .exponential (← os.mapM id)
  | polynomial _ _ order, os => do
    callBuiltin .polynomial (← (os ++ [Operand.wholeValue order]).mapM id)
  | mixture .., os => do callBuiltin .weightedSum (← os.mapM id)
  | _, _ => .ok .null

/-- The expression of a node computes what the node makes of its operands. -/
theorem Kind.value_make {k : Kind} {r : Role} {vs : List Nat} {make : List Operand → Compound}
    (hk : k.combined? = some (r, vs, make)) (s : Store) (xs : List Operand) :
    (make xs).value s = k.combine (xs.map (·.value s)) := by
  cases k with
  | sum ts =>
    cases ts with
    | nil => cases hk
    | cons t ts => cases hk; rfl
  | product fs =>
    cases fs with
    | nil => cases hk
    | cons f fs => cases hk; rfl
  | formula template args =>
    simp only [combined?, Option.map_eq_some_iff] at hk
    obtain ⟨o,ho,hk⟩ := hk
    cases hk
    rw [combine, ho]
    rfl
  | polynomial x cs order =>
    cases hk
    simp only [Compound.value, Compound.arguments, Compound.combine, List.map_append, List.map_cons,
      List.map_nil, combine, Operand.value]
    rfl
  | gaussian x m s => cases hk; rfl
  | exponential x c => cases hk; rfl
  | mixture ds cs => cases hk; rfl
  | _ => cases hk

namespace Program

/-- A frame and variables that hold a store's arguments and the values of some of its names. -/
structure Frame.Holds (F : Frame) (env : Env) (s : Store) (xs : List Var) : Prop where
  params : F.lookup env "params" = .ok s.params
  columns : F.lookup env "obs" = .ok s.columns
  numeric : F.lookup env "np" = .ok .numeric
  routines : ∀ f : Routine, F.lookup env f.name = .ok (.builtin f.builtin)
  vars : ∀ x ∈ xs, F.lookup env x.text = s.vars x

variable {F : Frame} {env : Env} {s : Store} {xs ys : List Var}

theorem Frame.Holds.mono (h : F.Holds env s xs) (hs : ∀ x ∈ ys, x ∈ xs) : F.Holds env s ys :=
  { h with vars := fun x hx => h.vars x (hs x hx) }

theorem eval_signedTree (negative : Bool) {e : Expr} {v : Value} (h : e.eval F env = .ok v) :
    (Datum.signedTree negative e).eval F env = v.signed negative := by
  cases negative with
  | false => exact h
  | true =>
    simp only [Datum.signedTree, if_true, Expr.eval, h, Value.signed]
    rfl

theorem Frame.Holds.eval_part (h : F.Holds env s xs) {name : String} {v : Value}
    (hv : numericPart? name = some v) : (Expr.attribute (.name "np") name).eval F env = .ok v := by
  simp [Expr.eval, h.numeric, hv, bind, Except.bind]

end Program

namespace Operand

variable {F : Program.Frame} {env : Env} {s : Store} {xs : List Var}

theorem eval_tree {x : Operand} (h : F.Holds env s x.vars) : x.tree.eval F env = x.value s := by
  cases x with
  | var x => exact h.vars x (by simp [vars])
  | parameter i => simp [tree, Expr.eval, h.params, value, bind, Except.bind]
  | column c => simp [tree, Expr.eval, h.columns, value, bind, Except.bind]
  | first c => simp [tree, Expr.eval, h.columns, value, bind, Except.bind]
  | entry c k =>
    have hk := h.vars (.index k) (by simp [vars])
    simp [tree, Expr.eval, h.columns, hk, value, bind, Except.bind]
  | literal x =>
    simp only [tree, Datum.floatTree, value, Datum.literalValue]
    cases Decimal.read x with
    | nan => exact h.eval_part rfl
    | infinite negative => exact eval_signedTree negative (h.eval_part rfl)
    | finite negative m q => exact eval_signedTree negative rfl
  | whole n => exact eval_signedTree _ rfl

theorem evalAll_trees {es : List Operand} (h : F.Holds env s (es.flatMap vars)) :
    evalAll F env (es.map tree) = (es.map (·.value s)).mapM id := by
  induction es with
  | nil => rfl
  | cons e es ih =>
    have he := eval_tree (x := e) (h.mono fun x hx => by simp [hx])
    have hes := ih (h.mono fun x hx => by simp only [List.flatMap_cons, List.mem_append, hx, or_true])
    rw [List.map_cons, evalAll, he, hes, List.map_cons, List.mapM_cons]
    rfl

end Operand

namespace Program

variable {F : Frame} {env : Env}

theorem eval_chain (op : Op) (es : List Expr) :
    (Expr.chain op es).eval F env = FitCode.chain op (es.map (·.eval F env)) := by
  have hfold : ∀ (es : List Expr) (e : Expr) (o : Outcome Value), e.eval F env = o →
      (es.foldl (Expr.binary op) e).eval F env =
        (es.map (·.eval F env)).foldl (fun total o => do
          let x ← total
          Value.binary op x (← o)) o := by
    intro es
    induction es with
    | nil => exact fun e o h => h
    | cons e' es ih =>
      intro e o h
      refine ih _ _ ?_
      rw [Expr.eval, h]
  cases es with
  | nil => rfl
  | cons e es => exact hfold es e _ rfl

end Program

namespace Compound

variable {F : Program.Frame} {env : Env} {s : Store}

theorem eval_tree {e : Compound} (he : e.IsReadable) (h : F.Holds env s e.vars) :
    e.tree.eval F env = e.value s := by
  cases e with
  | single x => exact Operand.eval_tree (h.mono fun y hy => by simpa [vars, operands] using hy)
  | sum xs =>
    have hxs : ∀ x ∈ xs, x.tree.eval F env = x.value s := fun x hx =>
      Operand.eval_tree (h.mono fun y hy => List.mem_flatMap.mpr ⟨x,hx,hy⟩)
    rw [tree, eval_chain, List.map_map, value, arguments, combine]
    exact congrArg _ (List.map_congr_left hxs)
  | product xs =>
    have hxs : ∀ x ∈ xs, x.tree.eval F env = x.value s := fun x hx =>
      Operand.eval_tree (h.mono fun y hy => List.mem_flatMap.mpr ⟨x,hx,hy⟩)
    rw [tree, eval_chain, List.map_map, value, arguments, combine]
    exact congrArg _ (List.map_congr_left hxs)
  | filled o xs =>
    obtain ⟨ho,hlt⟩ := he.template o xs rfl
    rw [tree, Arith.eval_tree h.numeric, value, arguments, combine]
    refine Arith.value_congr fun i hi => ?_
    have hi := ho.spelled.holes_subset i hi
    have hx := List.getElem?_eq_getElem (hlt i hi)
    rw [List.getElem?_map, hx]
    exact Operand.eval_tree (h.mono fun y hy =>
      List.mem_flatMap.mpr ⟨_,List.mem_filterMap.mpr ⟨i,hi,hx⟩,hy⟩)
  | call f xs =>
    have hxs : evalAll F env (xs.map Operand.tree) = (xs.map (·.value s)).mapM id := Operand.evalAll_trees h
    rw [tree, Expr.eval, Expr.eval, h.routines, hxs]
    rfl
  | array xs =>
    cases xs with
    | nil =>
      rw [tree, Expr.eval, h.eval_part (v := .builtin .empty) rfl]
      rfl
    | cons x xs =>
      have hxs : evalAll F env ((x :: xs).map Operand.tree) = ((x :: xs).map (Operand.value s)).mapM id :=
        Operand.evalAll_trees h
      have htree : (array (x :: xs)).tree =
          .call (.attribute (.name "np") "array") [.list ((x :: xs).map Operand.tree)] := rfl
      have hvalue : (array (x :: xs)).value s =
          (((x :: xs).map (Operand.value s)).mapM id).bind Value.ofItems := rfl
      rw [htree, hvalue, Expr.eval, h.eval_part (v := .builtin .array) rfl]
      simp only [evalAll, Expr.eval, hxs]
      cases ((x :: xs).map (Operand.value s)).mapM id with
      | error e => rfl
      | ok vs => rfl

end Compound

end FitCode
