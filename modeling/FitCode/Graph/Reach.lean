import FitCode.Graph.Basic
import Std.Data.TreeSet

/-! # Dependence between vertices

A node depends on itself and on everything its operands depend on. A search that stops at reducers
does not look behind reducers other than the node it starts from. Bare identities have no operands
and fail the search when they come up; so do collections inside collections.
-/
namespace FitCode.Graph

/-- Searches depth first, the last operand of a node first. `stack` has its top in front. Vertices
seen before are passed over, so each step but the last looks at a new one; the first argument bounds
the steps. -/
def search (g : Graph) (start target : Nat) (stop : Bool) :
    (steps : Nat) → (seen : Std.TreeSet Nat) → (stack : List Nat) → Except Fault Bool
  | 0, _, _ => .ok false
  | steps + 1, seen, stack =>
    match stack.dropWhile seen.contains with
    | [] => .ok false
    | v :: stack =>
      match g.kind v with
      | .identity => .error .noAttribute
      | k =>
        if v == target then .ok true
        else if stop && k.isReducer && v != start then
          g.search start target stop steps (seen.insert v) stack
        else
          match g.operands? v with
          | none => .error .noAttribute
          | some vs => g.search start target stop steps (seen.insert v) (vs.reverse ++ stack)

def nodeReaches (g : Graph) (v target : Nat) (stop : Bool) : Except Fault Bool :=
  g.search v target stop (g.size + 1) ∅ [v]

/-- Whether one of the members depends on `target`, tried in order; `inside` answers for the members
of a nested collection. -/
def anyReaches (g : Graph) (target : Nat) (stop : Bool) (inside : List Nat → Except Fault Bool) :
    List Nat → Except Fault Bool
  | [] => .ok false
  | m :: ms =>
    match g.kind m with
    | .identity => .error .noAttribute
    | k => do
      if m == target then return true
      let found ← match k with
        | .collection inner => if stop then .error .noAttribute else inside inner
        | k => if stop && k.isReducer then .ok false else g.nodeReaches m target stop
      if found then return true
      g.anyReaches target stop inside ms

/-- Whether a member of a collection depends on `target`. The first argument bounds the nesting of
collections. -/
def membersReach (g : Graph) (target : Nat) (stop : Bool) :
    (nesting : Nat) → List Nat → Except Fault Bool
  | 0, _ => .ok false
  | nesting + 1, ms => g.anyReaches target stop (g.membersReach target stop nesting) ms

/-- Whether a node or collection depends on the vertex `target`. -/
def reaches (g : Graph) (v target : Nat) (stop : Bool) : Except Fault Bool :=
  match g.kind v with
  | .identity => .error .noAttribute
  | .collection ms => g.membersReach target stop (g.size + 1) ms
  | _ => g.nodeReaches v target stop

end FitCode.Graph
