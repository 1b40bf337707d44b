import FitCode.Program.Run
import FitCode.Proofs.Program.Spelling
import FitCode.Proofs.Text.Outline

/-! # Arithmetic templates

An outline is arithmetic if it is made of holes, numbers, signs, the four operations, parentheses,
exponentials and logarithms, with blanks between them. Filled with the texts of operands, each in
parentheses, it spells the expression of the same shape.
-/
namespace FitCode

open Numeric Program Text

/-- An arithmetic expression over numbered holes. -/
inductive Arith where
  | hole (i : Nat)
  | whole (n : Nat)
  | decimal (x : Float)
  | negate (a : Arith)
  | keep (a : Arith)
  | binary (op : Op) (a b : Arith)
  | exp (a : Arith)
  | log (a : Arith)

namespace Arith

/-- The expression with others in its holes. -/
def tree (holes : Nat → Expr) : Arith → Expr
  | hole i => holes i
  | whole n => .int n
  | decimal x => .float x
  | negate a => .negate (a.tree holes)
  | keep a => .keep (a.tree holes)
  | binary op a b => .binary op (a.tree holes) (b.tree holes)
  | exp a => .call (.attribute (.name "np") "exp") [a.tree holes]
  | log a => .call (.attribute (.name "np") "log") [a.tree holes]

/-- The value, where a hole may fail to have one. -/
def value (holes : Nat → Outcome Value) : Arith → Outcome Value
  | hole i => holes i
  | whole n => .ok (.int n)
  | decimal x => .ok (.float x)
  | negate a => do (← a.value holes).negate
  | keep a => do (← a.value holes).keep
  | binary op a b => do
    let x ← a.value holes
    Value.binary op x (← b.value holes)
  | exp a => do (← a.value holes).exp
  | log a => do (← a.value holes).log

/-- The holes that occur. -/
def holes : Arith → List Nat
  | hole i => [i]
  | whole _ => []
  | decimal _ => []
  | negate a => a.holes
  | keep a => a.holes
  | binary _ a b => a.holes ++ b.holes
  | exp a => a.holes
  | log a => a.holes

theorem value_congr {a : Arith} {f f' : Nat → Outcome Value} (h : ∀ i ∈ a.holes, f i = f' i) :
    a.value f = a.value f' := by
  induction a with
  | hole i => exact h i (by simp [holes])
  | whole n => rfl
  | decimal x => rfl
  | negate a ih => rw [value, value, ih h]
  | keep a ih => rw [value, value, ih h]
  | binary op a b iha ihb =>
    simp only [holes, List.mem_append, or_imp, forall_and] at h
    rw [value, value, iha h.1, ihb h.2]
  | exp a ih => rw [value, value, ih h]
  | log a ih => rw [value, value, ih h]

theorem eval_tree {F : Program.Frame} {env : Env} (hnp : F.lookup env "np" = .ok .numeric) (holes : Nat → Expr)
    (a : Arith) : (a.tree holes).eval F env = a.value fun i => (holes i).eval F env := by
  have hcall : ∀ (s : String) (b : Builtin) (op : Value → Outcome Value) (a : Expr),
      numericPart? s = some (.builtin b) → (∀ v, callBuiltin b [v] = op v) →
      (Expr.call (.attribute (.name "np") s) [a]).eval F env = (a.eval F env).bind op := by
    intro s b op a hs hb
    simp only [Expr.eval, evalAll, hnp, hs, bind, Except.bind, Option.elim]
    cases a.eval F env with
    | error e => rfl
    | ok v => exact hb v
  induction a with
  | hole i => rfl
  | whole n => rfl
  | decimal x => rfl
  | negate a ih => rw [tree, Expr.eval, ih, value]
  | keep a ih => rw [tree, Expr.eval, ih, value]
  | binary op a b iha ihb => rw [tree, Expr.eval, iha, ihb, value]
  | exp a ih =>
    rw [tree, hcall "exp" .exp Value.exp _ rfl (fun _ => rfl), ih, value]
    rfl
  | log a ih =>
    rw [tree, hcall "log" .log Value.log _ rfl (fun _ => rfl), ih, value]
    rfl

end Arith

namespace Text.Outline

/-- What an outline can stand for without parentheses around it. -/
inductive Rank where
  | sum
  | product
  | factor
  | primary

def Rank.form : Rank → Expr → Construct
  | sum => .sum
  | product => .product
  | factor => .factor
  | primary => .primary

/-- The outline of a text without holes. -/
def plain (cs : List Char) : Outline := cs.map .inl

/-- An outline of an arithmetic expression, with at most `d` brackets of its own open at a time. -/
inductive Spelled : Nat → Rank → Outline → Arith → Prop
  | hole {d} (i : Nat) : Spelled d .primary [.inr i] (.hole i)
  | whole {d n} (m : Numeral) (hm : m.Valid) (ht : m.token? = some (.int n)) :
      Spelled d .primary (plain m.chars) (.whole n)
  | decimal {d x} (m : Numeral) (hm : m.Valid) (ht : m.token? = some (.float x)) :
      Spelled d .primary (plain m.chars) (.decimal x)
  | paren {d o a} (h : Spelled d .sum o a) (k : Nat) :
      Spelled (d + 1) .primary (.inl '(' :: (o ++ plain (List.replicate k ' ' ++ [')']))) a
  | exp {d o a} (h : Spelled d .sum o a) (k : Nat) :
      Spelled (d + 1) .primary (plain "np.exp(".toList ++ (o ++ plain (List.replicate k ' ' ++ [')']))) (.exp a)
  | log {d o a} (h : Spelled d .sum o a) (k : Nat) :
      Spelled (d + 1) .primary (plain "np.log(".toList ++ (o ++ plain (List.replicate k ' ' ++ [')']))) (.log a)
  | blank {d r o a} (h : Spelled d r o a) : Spelled d r (.inl ' ' :: o) a
  | operand {d o a} (h : Spelled d .primary o a) : Spelled d .factor o a
  | negate {d o a} (h : Spelled d .factor o a) : Spelled d .factor (.inl '-' :: o) (.negate a)
  | keep {d o a} (h : Spelled d .factor o a) : Spelled d .factor (.inl '+' :: o) (.keep a)
  | factor {d o a} (h : Spelled d .factor o a) : Spelled d .product o a
  | times {d o a o' b c op} (hc : productOp? (String.ofList [c]) = some op) (h : Spelled d .product o a)
      (k : Nat) (h' : Spelled d .factor o' b) :
      Spelled d .product (o ++ (plain (List.replicate k ' ' ++ [c]) ++ o')) (.binary op a b)
  | product {d o a} (h : Spelled d .product o a) : Spelled d .sum o a
  | plus {d o a o' b c op} (hc : sumOp? (String.ofList [c]) = some op) (h : Spelled d .sum o a)
      (k : Nat) (h' : Spelled d .product o' b) :
      Spelled d .sum (o ++ (plain (List.replicate k ' ' ++ [c]) ++ o')) (.binary op a b)

@[simp] theorem fill_append (args : List (List Char)) (o o' : Outline) :
    fill args (o ++ o') = fill args o ++ fill args o' := List.flatMap_append

@[simp] theorem fill_plain (args : List (List Char)) (cs : List Char) : fill args (plain cs) = cs := by
  induction cs with
  | nil => rfl
  | cons c cs ih => rw [plain, List.map_cons, fill_inl, ← plain, ih]

@[simp] theorem holes_plain (cs : List Char) : holes (plain cs) = [] := by
  induction cs with
  | nil => rfl
  | cons c cs ih => rw [plain, List.map_cons, holes_inl, ← plain, ih]

theorem Spelled.holes_subset {d : Nat} {r : Rank} {o : Outline} {a : Arith} (h : Spelled d r o a) :
    ∀ i ∈ a.holes, i ∈ o.holes := by
  induction h with
  | hole i => simp [Arith.holes]
  | whole m hm ht => simp [Arith.holes]
  | decimal m hm ht => simp [Arith.holes]
  | paren h k ih => simpa using ih
  | exp h k ih => simpa [Arith.holes] using ih
  | log h k ih => simpa [Arith.holes] using ih
  | blank h ih => exact ih
  | operand h ih => exact ih
  | negate h ih => exact ih
  | keep h ih => exact ih
  | factor h ih => exact ih
  | times hc h k h' ih ih' =>
    intro i hi
    simp only [holes_append, holes_plain, List.nil_append, List.mem_append]
    exact (List.mem_append.mp hi).imp (ih i) (ih' i)
  | product h ih => exact ih
  | plus hc h k h' ih ih' =>
    intro i hi
    simp only [holes_append, holes_plain, List.nil_append, List.mem_append]
    exact (List.mem_append.mp hi).imp (ih i) (ih' i)

/-- A filled outline spells the expression with the operands in its holes. -/
theorem Spelled.spells {d : Nat} {r : Rank} {o : Outline} {a : Arith} (h : Spelled d r o a)
    {args : List (List Char)} {operand : Nat → Expr}
    (hargs : ∀ i ∈ o.holes, ∃ cs, args[i]? = some cs ∧ Spells 1 cs (.sum (operand i))) :
    Spells (d + 2) (fill (args.map parens) o) (r.form (a.tree operand)) := by
  induction h with
  | hole i =>
    obtain ⟨cs,hcs,hs⟩ := hargs i (by simp)
    have hfill : fill (args.map parens) [.inr i] = '(' :: (cs ++ (List.replicate 0 ' ' ++ [')'])) := by
      simp [fill, hcs, parens]
    rw [hfill]
    exact (hs.paren 0).mono (by omega)
  | whole m hm ht =>
    rw [fill_plain]
    exact (Spells.int hm ht).mono (by omega)
  | decimal m hm ht =>
    rw [fill_plain]
    exact (Spells.float hm ht).mono (by omega)
  | paren h k ih =>
    simp only [holes_inl, holes_append, holes_plain, List.append_nil] at hargs
    simp only [fill_inl, fill_append, fill_plain]
    exact (ih hargs).paren k
  | exp h k ih =>
    simp only [holes_append, holes_plain, List.append_nil, List.nil_append] at hargs
    simp only [fill_append, fill_plain]
    have hpart : Spells 0 "np.exp".toList (.primary (.attribute (.name "np") "exp")) :=
      Spells.part (w := "exp".toList) (Scan.isWord_of_all (by decide)) (by decide)
    exact (hpart.mono (Nat.zero_le _)).call (ih hargs).one k
  | log h k ih =>
    simp only [holes_append, holes_plain, List.append_nil, List.nil_append] at hargs
    simp only [fill_append, fill_plain]
    have hpart : Spells 0 "np.log".toList (.primary (.attribute (.name "np") "log")) :=
      Spells.part (w := "log".toList) (Scan.isWord_of_all (by decide)) (by decide)
    exact (hpart.mono (Nat.zero_le _)).call (ih hargs).one k
  | blank h ih => exact (ih hargs).blank
  | operand h ih => exact (ih hargs).operand
  | negate h ih => exact (ih hargs).negate
  | keep h ih => exact (ih hargs).keep
  | factor h ih => exact (ih hargs).factor
  | times hc h k h' ih ih' =>
    simp only [holes_append, holes_plain, List.nil_append, List.mem_append, or_imp, forall_and] at hargs
    simp only [fill_append, fill_plain, List.append_assoc, List.singleton_append]
    exact (ih hargs.1).times hc k (ih' hargs.2)
  | product h ih => exact (ih hargs).product
  | plus hc h k h' ih ih' =>
    simp only [holes_append, holes_plain, List.nil_append, List.mem_append, or_imp, forall_and] at hargs
    simp only [fill_append, fill_plain, List.append_assoc, List.singleton_append]
    exact (ih hargs.1).plus hc k (ih' hargs.2)

end Text.Outline

end FitCode
