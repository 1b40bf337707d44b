import FitCode.Numeric.Density
import FitCode.Program.Tree

/-! # Running generated code

A name that the function sets anywhere is one of its variables; other names are looked up among
the names the code is loaded with, the function's own name first.
-/
namespace FitCode.Program

open FitCode.Numeric

abbrev Env := List (String × Value)

namespace Env

def set : Env → String → Value → Env
  | [], name, v => [(name, v)]
  | e :: env, name, v => if e.1 == name then (name, v) :: env else e :: set env name v

end Env

def loaded? : String → Option Value
  | "np" => some .numeric
  | "gaussian" => some (.builtin .gaussian)
  | "exponential" => some (.builtin .exponential)
  | "polynomial" => some (.builtin .polynomial)
  | "weighted_sum" => some (.builtin .weightedSum)
  | "range" => some (.builtin .range)
  | "__debug__" => some (.scalar (.flag true))
  | _ => none

def numericPart? : String → Option Value
  | "nan" => some (Value.float Decimal.nanValue)
  | "inf" => some (Value.float Decimal.infinity)
  | "exp" => some (.builtin .exp)
  | "log" => some (.builtin .log)
  | "sum" => some (.builtin .sum)
  | "array" => some (.builtin .array)
  | "empty" => some (.builtin .empty)
  | _ => none

def callBuiltin : Builtin → List Value → Outcome Value
  | .range, [.scalar (.int n)] => .ok (.range n)
  | .exp, [v] => v.exp
  | .log, [v] => v.log
  | .sum, [v] => v.sum
  | .array, [.list vs] => Value.ofItems vs
  | .array, [.array t] => .ok (.array t)
  | .empty, [.scalar (.int n)] =>
    if n < 0 then .error .value else .ok (.array (.ofList (List.replicate n.toNat 0)))
  | .gaussian, [x, mean, sigma] => Value.gaussian x mean sigma
  | .exponential, [x, c] => Value.exponential x c
  | .polynomial, [x, cs, n] => Value.polynomial x cs n
  | .weightedSum, [vs, cs] => Value.weightedSum vs cs
  | _, _ => .error .type

def callNamed (name : String) (vs : List Value) : Outcome Value :=
  match loaded? name with
  | some (.builtin b) => callBuiltin b vs
  | some _ => .error .type
  | none => .error .unknownName

structure Frame where
  name : String
  locals : List String
  /-- Calls the function itself. -/
  callSelf : Value → Value → Outcome Value

def Frame.lookup (f : Frame) (env : Env) (name : String) : Outcome Value :=
  if f.locals.contains name then (env.lookup name).elim (.error .unboundName) .ok
  else if name == f.name then .ok .self
  else (loaded? name).elim (.error .unknownName) .ok

def Frame.call (f : Frame) : Value → List Value → Outcome Value
  | .builtin b, vs => callBuiltin b vs
  | .self, [a, b] => f.callSelf a b
  | _, _ => .error .type

mutual

def Expr.eval (f : Frame) (env : Env) : Expr → Outcome Value
  | .int n => .ok (Value.int n)
  | .float x => .ok (Value.float x)
  | .text s => .ok (.text s)
  | .flag b => .ok (.scalar (.flag b))
  | .null => .ok .null
  | .name s => f.lookup env s
  | .negate e => do (← e.eval f env).negate
  | .keep e => do (← e.eval f env).keep
  | .binary op a b => do
    let x ← a.eval f env
    Value.binary op x (← b.eval f env)
  | .call g args => do
    let g ← g.eval f env
    f.call g (← evalAll f env args)
  | .index e i => do
    let x ← e.eval f env
    x.index (← i.eval f env)
  | .attribute e s => do
    match ← e.eval f env with
    | .numeric => (numericPart? s).elim (.error .attribute) .ok
    | _ => .error .attribute
  | .list es => do .ok (.list (← evalAll f env es))

def evalAll (f : Frame) (env : Env) : List Expr → Outcome (List Value)
  | [] => .ok []
  | e :: es => do
    let v ← e.eval f env
    .ok (v :: (← evalAll f env es))

end

inductive Flow where
  | next (env : Env)
  | returned (v : Value)

/-- Runs the body of a loop for the whole numbers from `i` on, `count` of them. -/
def iterateRange (body : Env → Outcome Flow) (name : String) :
    (count i : Nat) → Env → Outcome Flow
  | 0, _, env => .ok (.next env)
  | count + 1, i, env => do
    match ← body (env.set name (Value.int i)) with
    | .next env => iterateRange body name count (i + 1) env
    | .returned r => .ok (.returned r)

def iterate (body : Env → Outcome Flow) (name : String) : List Value → Env → Outcome Flow
  | [], env => .ok (.next env)
  | v :: vs, env => do
    match ← body (env.set name v) with
    | .next env => iterate body name vs env
    | .returned r => .ok (.returned r)

mutual

def Stmt.exec (f : Frame) (env : Env) : Stmt → Outcome Flow
  | .assign names e => do
    let v ← e.eval f env
    .ok (.next (names.foldl (fun env name => env.set name v) env))
  | .update name op e => do
    let old ← f.lookup env name
    .ok (.next (env.set name (← old.inPlace op (← e.eval f env))))
  | .forEach name es body => do
    match ← es.eval f env with
    | .range n => iterateRange (fun env => execAll f env body) name n.toNat 0 env
    | v => iterate (fun env => execAll f env body) name (← v.items) env
  | .pass => .ok (.next env)
  | .expr e => do
    discard (e.eval f env)
    .ok (.next env)
  | .result none => .ok (.returned .null)
  | .result (some e) => do .ok (.returned (← e.eval f env))

def execAll (f : Frame) (env : Env) : List Stmt → Outcome Flow
  | [] => .ok (.next env)
  | s :: ss => do
    match ← s.exec f env with
    | .next env => execAll f env ss
    | .returned v => .ok (.returned v)

end

/-- Calls a function with two arguments; it may call itself at most `depth` levels deep. -/
def Function.call (f : Function) : (depth : Nat) → Value → Value → Outcome Value
  | 0, _, _ => .error .recursion
  | depth + 1, a, b => do
    let frame : Frame := ⟨f.name, f.locals, f.call depth⟩
    match ← execAll frame [(f.first, a), (f.second, b)] f.body with
    | .next _ => .ok .null
    | .returned v => .ok v

def maxDepth : Nat := 900

def Function.run (f : Function) (a b : Value) : Outcome Value := f.call maxDepth a b

end FitCode.Program
