import FitCode.Program.Diagnosis
import FitCode.Program.Parser

/-! # Loading generated code

A source that parses can still be refused: for its depth, for what it binds and for how its loops
nest.
-/
namespace FitCode.Program

/-- Why a source gives no function. -/
inductive LoadError where
  /-- The source is wrong at a line, or cannot be read at all. -/
  | malformed (line : Option Nat)
  /-- Expressions nest too deep. -/
  | tooDeep
  /-- Signs follow one another without end. -/
  | exhausted
  /-- The function goes by another name. -/
  | undefined
  /-- Well formed, but no code that is ever generated. -/
  | foreign
  deriving Repr, DecidableEq

mutual

def Expr.depth : Expr → Nat
  | .negate e => e.depth + 1
  | .keep e => e.depth + 1
  | .binary _ a b => max a.depth b.depth + 1
  | .call f args => max f.depth (depthOf args) + 1
  | .index e i => max e.depth i.depth + 1
  | .attribute e _ => e.depth + 1
  | .list es => depthOf es + 1
  | _ => 1

def depthOf : List Expr → Nat
  | [] => 0
  | e :: es => max e.depth (depthOf es)

end

mutual

def Stmt.depth : Stmt → Nat
  | .assign _ e => e.depth + 1
  | .update _ _ e => e.depth + 1
  | .forEach _ e body => max e.depth (depthOfAll body) + 1
  | .pass => 1
  | .expr e => e.depth + 1
  | .result none => 1
  | .result (some e) => e.depth + 1

def depthOfAll : List Stmt → Nat
  | [] => 0
  | s :: ss => max s.depth (depthOfAll ss)

end

/-- What the machine that loads a source allows. -/
structure Limits where
  /-- The most levels that a source may have. -/
  levels : Nat := 2980
  /-- The most signs that may follow one another. -/
  signs : Nat := 5950
  /-- Loops can be nested so deep. -/
  loops : Nat := 20

def longestSigns (ts : Array Located) : Nat :=
  (ts.foldl (fun (s : Nat × Nat) t => match t.token with
    | .mark m => if m == "-" || m == "+" then (s.1 + 1, max s.2 (s.1 + 1)) else (0, s.2)
    | _ => (0, s.2)) (0, 0)).2

/-- A constant that nothing can be bound to. -/
def constantName : String := "__debug__"

/-- The line of the first loop that is nested too deep or of the first use of the constant as a
variable, in the tokens of a function. `depth` counts the blocks open. -/
def misuse? (loops : Nat) : (depth : Nat) → List Located → Option Nat
  | _, [] => none
  | depth, ⟨.indent, _, _⟩ :: ts => misuse? loops (depth + 1) ts
  | depth, ⟨.dedent, _, _⟩ :: ts => misuse? loops (depth - 1) ts
  | depth, ⟨.keyword "for", line, _⟩ :: t :: ts =>
    if loops < depth then some line
    else match t.token with
      | .name s => if s == constantName then some t.line else misuse? loops depth ts
      | _ => misuse? loops depth ts
  | depth, ⟨.name s, line, 0⟩ :: ⟨.mark m, _, _⟩ :: ts =>
    if s == constantName && (m == "=" || (updateOp? m).isSome) then some line
    else misuse? loops depth ts
  | depth, _ :: ts => misuse? loops depth ts

/-- The line of the first binding that is not allowed. Arguments come first, the function's own name
last. -/
def Function.misuse? (f : Function) (loops : Nat) (ts : List Located) : Option Nat :=
  let start := ts.head?.map (·.line)
  if f.first == f.second || f.first == constantName || f.second == constantName then start
  else (Program.misuse? loops 0 ts).or (if f.name == constantName then start else none)

def load (name source : String) (limits : Limits := {}) : Except LoadError Function :=
  if source.toList.contains '\x00' then .error (.malformed none)
  else
    let lexed := lex source
    if limits.signs < longestSigns lexed.tokens then .error .exhausted
    else
      match parse? lexed.tokens.toList with
      | none => .error (lexed.faultLine?.elim .foreign fun line => .malformed (some line))
      | some f =>
        if limits.levels < depthOfAll f.body + 1 then .error .tooDeep
        else
          match f.misuse? limits.loops lexed.tokens.toList with
          | some line => .error (.malformed (some line))
          | none => if f.name == name then .ok f else .error .undefined

end FitCode.Program
