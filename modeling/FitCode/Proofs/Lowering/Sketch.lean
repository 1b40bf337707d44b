import FitCode.Proofs.Code.Item
import Mathlib.Logic.Function.Basic

/-! # Lowering as operations on trees

A sketch is the state of a lowering with code as trees. Open loops are frames, the innermost in
front; each keeps the code of its block up to the loop, the code queued in front of the loop and what
was set aside until it closes. So closing a loop puts the pieces together in order, and no position
in a text is needed.
-/
namespace FitCode

/-- What stays fixed during a lowering of built-in nodes. -/
structure Plan extends Setting where
  columns : IdMap Int

namespace Plan

/-- Names have their defaults, and columns are counted from zero. -/
structure Standard (p : Plan) : Prop where
  names : p.options = { hoist := p.options.hoist, machine := p.options.machine }
  columns : ∀ e ∈ p.columns, 0 ≤ e.2

/-- The column of a vector observable. -/
def column? (p : Plan) (v : Nat) : Option Nat := (p.columns.get? (p.graph.idOf v)).map Int.toNat

def column (p : Plan) (v : Nat) : Nat := (p.column? v).getD 0

/-- The vector observables that a vertex depends on without looking into other reducers. -/
def inputs (p : Plan) (v : Nat) : Except Fault (List Identity) :=
  return (← p.columns.filterM fun e => p.graph.reaches v e.1.serial true).map (·.1)

end Plan

/-- A cached operand and the loop depth at which it is bound. -/
structure Held where
  operand : Operand
  depth : Nat

/-- Cached operands by serial number. -/
abbrev Holding := Nat → Option Held

namespace Holding

def below (m : Holding) (depth : Nat) : Holding := fun k => (m k).filter (·.depth < depth)

def orElse (m other : Holding) : Holding := fun k => (m k).or (other k)

end Holding

/-- An open loop. -/
structure Frame where
  vars : List Nat
  index : Nat
  length : Nat
  /-- The code of the loop's own block, up to the loop. -/
  before : List Item
  queued : List Item := []
  results : Holding := fun _ => none
  arrays : Holding := fun _ => none

structure Sketch where
  results : Holding := fun _ => none
  arrays : Holding := fun _ => none
  /-- The open loops, innermost first. -/
  frames : List Frame := []
  /-- The code of the innermost block. -/
  current : List Item := []
  temps : Nat := 0
  arrayNames : Nat := 0
  indices : Nat := 0
  /-- The loop depth at which each introduced name is bound. -/
  depths : Var → Nat := fun _ => 0

theorem foldl_max_le_iff {α : Type} (f : α → Nat) (as : List α) (d k : Nat) :
    as.foldl (fun d a => max d (f a)) d ≤ k ↔ d ≤ k ∧ ∀ a ∈ as, f a ≤ k := by
  induction as generalizing d with
  | nil => simp
  | cons a as ih =>
    rw [List.foldl_cons, ih, Nat.max_le, List.forall_mem_cons, and_assoc]

namespace Sketch

def depth (σ : Sketch) : Nat := σ.frames.length

/-- How many names of a variable's kind have been taken. -/
def taken (σ : Sketch) : Var → Nat
  | .temp _ => σ.temps
  | .array _ => σ.arrayNames
  | .index _ => σ.indices

/-- The index of the open loop that iterates a vertex. -/
def index? (σ : Sketch) (v : Nat) : Option Nat :=
  (σ.frames.find? fun f => f.vars.contains v).map (·.index)

/-- The access to a vertex that an open loop iterates. -/
def binding (p : Plan) (σ : Sketch) (v : Nat) : Option Operand :=
  (σ.index? v).map (.entry (p.column v))

def depthOf (σ : Sketch) (xs : List Var) : Nat :=
  min (xs.foldl (fun d x => max d (σ.depths x)) 0) σ.depth

theorem le_depthOf {σ : Sketch} {xs : List Var} {x : Var} (hx : x ∈ xs) {d : Nat}
    (hd : d ≤ σ.depths x) (hle : d ≤ σ.depth) : d ≤ σ.depthOf xs := by
  have h := (foldl_max_le_iff σ.depths xs 0 _).mp (Nat.le_refl _)
  exact Nat.le_min.mpr ⟨Nat.le_trans hd (h.2 x hx),hle⟩

/-- Changes the open loop of the given depth, the outermost having depth one. -/
def modifyFrame (σ : Sketch) (depth : Nat) (f : Frame → Frame) : Sketch :=
  { σ with frames := σ.frames.modify (σ.depth - depth) f }

def queue (σ : Sketch) (depth : Nat) (is : List Item) : Sketch :=
  σ.modifyFrame (depth + 1) fun f => { f with queued := f.queued ++ is }

def write (σ : Sketch) (i : Item) : Sketch := { σ with current := σ.current ++ [i] }

/-- Notes the depth at which a name is bound. -/
def note (σ : Sketch) (x : Var) (depth : Nat) : Sketch :=
  { σ with depths := Function.update σ.depths x depth }

/-- Takes a fresh temporary, bound at the current depth. -/
def takeTemp (σ : Sketch) : Sketch :=
  { σ.note (.temp σ.temps) σ.depth with temps := σ.temps + 1 }

/-- Puts code at `depth`: into the innermost block, or in front of the loop that starts there. -/
def place (σ : Sketch) (depth : Nat) (i : Item) : Sketch :=
  if depth = σ.depth then σ.write i else σ.queue depth [i]

/-- Where an expression over the given variables is bound: as far out as it can be, or at the current
depth without hoisting. -/
def home (p : Plan) (σ : Sketch) (xs : List Var) : Nat :=
  if p.options.hoist then σ.depthOf xs else σ.depth

/-- Binds a name to an expression. -/
def introduce (p : Plan) (σ : Sketch) (x : Var) (e : Compound) : Sketch :=
  (σ.note x (σ.home p e.vars)).place (σ.home p e.vars) (.assign x e)

def bindTemp (p : Plan) (σ : Sketch) (e : Compound) : Sketch :=
  σ.takeTemp.introduce p (.temp σ.temps) e

/-- Binds the array of a collection's results. -/
def bindArray (p : Plan) (σ : Sketch) (v : Nat) (xs : List Operand) : Sketch :=
  let x := Var.array σ.arrayNames
  let σ := { σ with arrayNames := σ.arrayNames + 1 }.introduce p x (.array xs)
  { σ with arrays := Function.update σ.arrays v (some ⟨.var x, σ.depths x⟩) }

def register (σ : Sketch) (v : Nat) (x : Operand) : Sketch :=
  { σ with results := Function.update σ.results v (some ⟨x, σ.depthOf x.vars⟩) }

/-- Binds a temporary to an expression and registers it. -/
def save (p : Plan) (σ : Sketch) (v : Nat) (e : Compound) : Sketch :=
  (σ.bindTemp p e).register v (.var (.temp σ.temps))

/-- Starts a sum in a fresh temporary. -/
def startSum (σ : Sketch) : Sketch :=
  σ.takeTemp.write (.assign (.temp σ.temps) (.single (.literal 0)))

def openLoop (σ : Sketch) (vars : List Nat) (length : Nat) : Sketch :=
  { σ.note (.index σ.indices) (σ.depth + 1) with
    frames := ⟨vars, σ.indices, length, σ.current, [], fun _ => none, fun _ => none⟩ :: σ.frames
    current := []
    indices := σ.indices + 1 }

/-- Closes the innermost loop: its results are dropped and those it set aside come back. -/
def closeLoop (σ : Sketch) : Sketch :=
  match σ.frames with
  | [] => σ
  | f :: fs =>
    { σ with
      frames := fs
      current := f.before ++ f.queued ++ [.loop f.index f.length σ.current]
      results := f.results.orElse (σ.results.below σ.depth)
      arrays := f.arrays.orElse (σ.arrays.below σ.depth) }

/-- The state seen at top level. -/
def atTop (σ : Sketch) : Sketch :=
  { σ with
    frames := []
    current := []
    results := σ.results.below 1
    arrays := σ.arrays.below 1 }

/-- Takes over what was lowered at top level. -/
def adopt (σ inner : Sketch) : Sketch :=
  { inner with
    frames := (σ.queue 0 inner.current).frames
    current := σ.current
    results := σ.results.orElse inner.results
    arrays := σ.arrays.orElse inner.arrays }

def setResultAside (σ : Sketch) (v : Nat) (e : Held) (depth : Nat) : Sketch :=
  { σ.modifyFrame depth fun f => { f with results := Function.update f.results v (some e) } with
    results := Function.update σ.results v none }

def setArrayAside (σ : Sketch) (v : Nat) (e : Held) (depth : Nat) : Sketch :=
  { σ.modifyFrame depth fun f => { f with arrays := Function.update f.arrays v (some e) } with
    arrays := Function.update σ.arrays v none }

end Sketch

namespace Plan

/-- Whether a vertex is a reducer with inputs that open loops iterate, all of them. -/
def isLiftable (p : Plan) (σ : Sketch) (v : Nat) : Except Fault Bool := do
  if σ.frames.isEmpty || !(p.graph.kind v).isReducer then return false
  let inputs ← p.inputs v
  return !inputs.isEmpty && inputs.all fun id => (σ.index? id.serial).isSome

/-- The depth of the innermost open loop over an input of the vertex. -/
def iterationDepth (p : Plan) (σ : Sketch) (v : Nat) : Except Fault Nat := do
  if σ.frames.isEmpty then return 0
  if ← p.isLiftable σ v then return 0
  let inputs ← p.inputs v
  return ((σ.frames.dropWhile fun f => !f.vars.any fun w => inputs.any (·.serial == w)).length)

variable {p : Plan} {σ : Sketch}

theorem iterationDepth_le {v d : Nat} (h : p.iterationDepth σ v = .ok d) : d ≤ σ.depth := by
  simp only [iterationDepth, pure, Except.pure, bind, Except.bind] at h
  split at h
  · cases h
    exact Nat.zero_le _
  · split at h
    · cases h
    · split at h
      · cases h
        exact Nat.zero_le _
      · split at h
        · cases h
        · cases h
          exact (List.dropWhile_sublist _).length_le

theorem depth_pos_of_isLiftable {v : Nat} (h : p.isLiftable σ v = .ok true) : 0 < σ.depth := by
  simp only [isLiftable, pure, Except.pure, bind, Except.bind] at h
  split at h
  · cases h
  · rename_i hne
    simp only [Bool.or_eq_true, not_or, Bool.not_eq_true, List.isEmpty_eq_false_iff] at hne
    exact List.length_pos_iff.mpr hne.1

end Plan

end FitCode
