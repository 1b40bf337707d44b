import FitCode.Program.Token
import FitCode.Program.Tree

/-! # Parsing generated code

A parser takes tokens and gives a tree and the tokens behind it, or nothing. Its first argument
bounds the nesting of calls and is never reached for the bound `parse?` sets.
-/
namespace FitCode.Program

open FitCode.Numeric

abbrev Parser (α : Type) := List Located → Option (α × List Located)

def expectMark (s : String) : Parser Unit
  | ⟨.mark m, _, _⟩ :: ts => if m == s then some ((), ts) else none
  | _ => none

def expectName : Parser String
  | ⟨.name s, _, _⟩ :: ts => some (s, ts)
  | _ => none

def expectKeyword (k : String) : Parser Unit
  | ⟨.keyword s, _, _⟩ :: ts => if s == k then some ((), ts) else none
  | _ => none

def sumOp? : String → Option Op
  | "+" => some .add
  | "-" => some .sub
  | _ => none

def productOp? : String → Option Op
  | "*" => some .mul
  | "/" => some .div
  | _ => none

def updateOp? : String → Option Op
  | "+=" => some .add
  | "-=" => some .sub
  | "*=" => some .mul
  | "/=" => some .div
  | _ => none

mutual

def sum : Nat → Parser Expr
  | 0, _ => none
  | n + 1, ts => do
    let (a, ts) ← product n ts
    sumRest n a ts

def sumRest : Nat → Expr → Parser Expr
  | 0, _, _ => none
  | n + 1, a, ts =>
    match ts with
    | ⟨.mark m, line, level⟩ :: rest =>
      match sumOp? m with
      | some op => do
        let (b, ts) ← product n rest
        sumRest n (.binary op a b) ts
      | none => some (a, ⟨.mark m, line, level⟩ :: rest)
    | ts => some (a, ts)

def product : Nat → Parser Expr
  | 0, _ => none
  | n + 1, ts => do
    let (a, ts) ← factor n ts
    productRest n a ts

def productRest : Nat → Expr → Parser Expr
  | 0, _, _ => none
  | n + 1, a, ts =>
    match ts with
    | ⟨.mark m, line, level⟩ :: rest =>
      match productOp? m with
      | some op => do
        let (b, ts) ← factor n rest
        productRest n (.binary op a b) ts
      | none => some (a, ⟨.mark m, line, level⟩ :: rest)
    | ts => some (a, ts)

def factor : Nat → Parser Expr
  | 0, _ => none
  | n + 1, ts =>
    match ts with
    | ⟨.mark "-", _, _⟩ :: ts => do
      let (e, ts) ← factor n ts
      some (.negate e, ts)
    | ⟨.mark "+", _, _⟩ :: ts => do
      let (e, ts) ← factor n ts
      some (.keep e, ts)
    | ts => do
      let (e, ts) ← atom n ts
      let (e, ts) ← trailer n e ts
      match ts with
      | ⟨.mark "**", _, _⟩ :: ts => do
        let (k, ts) ← factor n ts
        some (.binary .pow e k, ts)
      | ts => some (e, ts)

def trailer : Nat → Expr → Parser Expr
  | 0, _, _ => none
  | n + 1, e, ts =>
    match ts with
    | ⟨.mark "(", _, _⟩ :: ts => do
      let (args, ts) ← items n ")" ts
      trailer n (.call e args) ts
    | ⟨.mark "[", _, _⟩ :: ts => do
      let (i, ts) ← sum n ts
      let ((), ts) ← expectMark "]" ts
      trailer n (.index e i) ts
    | ⟨.mark ".", _, _⟩ :: ts => do
      let (s, ts) ← expectName ts
      trailer n (.attribute e s) ts
    | ts => some (e, ts)

def atom : Nat → Parser Expr
  | 0, _ => none
  | n + 1, ts =>
    match ts with
    | ⟨.int k, _, _⟩ :: ts => some (.int k, ts)
    | ⟨.float x, _, _⟩ :: ts => some (.float x, ts)
    | ⟨.text s, _, _⟩ :: ts => textRest n s ts
    | ⟨.keyword "True", _, _⟩ :: ts => some (.flag true, ts)
    | ⟨.keyword "False", _, _⟩ :: ts => some (.flag false, ts)
    | ⟨.keyword "None", _, _⟩ :: ts => some (.null, ts)
    | ⟨.mark "(", _, _⟩ :: ⟨.mark ")", _, _⟩ :: ts => some (.list [], ts)
    | ⟨.mark "(", _, _⟩ :: ts => do
      let (e, ts) ← sum n ts
      match ts with
      | ⟨.mark ",", _, _⟩ :: ts => do
        let (es, ts) ← items n ")" ts
        some (.list (e :: es), ts)
      | ts => do
        let ((), ts) ← expectMark ")" ts
        some (e, ts)
    | ⟨.mark "[", _, _⟩ :: ts => do
      let (es, ts) ← items n "]" ts
      some (.list es, ts)
    | ts => do
      let (s, ts) ← expectName ts
      some (.name s, ts)

/-- Texts side by side are one text. -/
def textRest : Nat → String → Parser Expr
  | 0, _, _ => none
  | n + 1, s, ts =>
    match ts with
    | ⟨.text t, _, _⟩ :: ts => textRest n (s ++ t) ts
    | ts => some (.text s, ts)

def items : Nat → (close : String) → Parser (List Expr)
  | 0, _, _ => none
  | n + 1, close, ts =>
    match expectMark close ts with
    | some ((), ts) => some ([], ts)
    | none => do
      let (e, ts) ← sum n ts
      match ts with
      | ⟨.mark ",", _, _⟩ :: ts => do
        let (es, ts) ← items n close ts
        some (e :: es, ts)
      | ts => do
        let ((), ts) ← expectMark close ts
        some ([e], ts)

end

def endsSeries : Token → Bool
  | .newline => true
  | .mark s => s == "=" || s == ";" || s == ":"
  | _ => false

def seriesRest (bound : Nat) : Nat → Parser (List Expr)
  | 0, _ => none
  | n + 1, ts =>
    match ts with
    | ⟨.mark ",", _, _⟩ :: t :: ts =>
      if endsSeries t.token then some ([], t :: ts)
      else do
        let (e, ts) ← sum bound (t :: ts)
        let (es, ts) ← seriesRest bound n ts
        some (e :: es, ts)
    | ts => some ([], ts)

/-- An expression, or several ones with commas, which are a list. -/
def series (bound : Nat) (ts : List Located) : Option (Expr × List Located) := do
  let (e, ts) ← sum bound ts
  match ts with
  | ⟨.mark ",", _, _⟩ :: _ => do
    let (es, ts) ← seriesRest bound bound ts
    some (.list (e :: es), ts)
  | ts => some (e, ts)

/-- What follows the first expression of a statement: more targets and a value, or nothing. Only
variables can be set. -/
def setting (bound : Nat) : (tries : Nat) → (targets : List String) → Expr → Parser Stmt
  | 0, _, _, _ => none
  | tries + 1, targets, e, ts =>
    match e, ts with
    | .name s, ⟨.mark "=", _, _⟩ :: ts => do
      let (e, ts) ← series bound ts
      setting bound tries (targets ++ [s]) e ts
    | _, ⟨.mark "=", _, _⟩ :: _ => none
    | e, ts => if targets.isEmpty then some (.expr e, ts) else some (.assign targets e, ts)

def simple (bound : Nat) : Parser Stmt
  | ⟨.keyword "pass", _, _⟩ :: ts => some (.pass, ts)
  | ⟨.keyword "return", _, _⟩ :: t :: ts =>
    if endsSeries t.token then some (.result none, t :: ts)
    else do
      let (e, ts) ← series bound (t :: ts)
      some (.result (some e), ts)
  | ts => do
    let (e, ts) ← series bound ts
    match e, ts with
    | .name s, ⟨.mark m, line, level⟩ :: rest =>
      match updateOp? m with
      | some op => do
        let (e, ts) ← series bound rest
        some (.update s op e, ts)
      | none => setting bound bound [] (.name s) (⟨.mark m, line, level⟩ :: rest)
    | e, ts => setting bound bound [] e ts

def simpleLine (bound : Nat) : Nat → Parser (List Stmt)
  | 0, _ => none
  | n + 1, ts => do
    let (s, ts) ← simple bound ts
    match ts with
    | ⟨.newline, _, _⟩ :: ts => some ([s], ts)
    | ⟨.mark ";", _, _⟩ :: ⟨.newline, _, _⟩ :: ts => some ([s], ts)
    | ⟨.mark ";", _, _⟩ :: ts => do
      let (ss, ts) ← simpleLine bound n ts
      some (s :: ss, ts)
    | _ => none

mutual

/-- The statements of a line, together with the block that belongs to it. -/
def statement (bound : Nat) : Nat → Parser (List Stmt)
  | 0, _ => none
  | n + 1, ts =>
    match ts with
    | ⟨.keyword "for", _, _⟩ :: ts => do
      let (v, ts) ← expectName ts
      let ((), ts) ← expectKeyword "in" ts
      let (e, ts) ← series bound ts
      let ((), ts) ← expectMark ":" ts
      let (body, ts) ← block bound n ts
      some ([.forEach v e body], ts)
    | ts => simpleLine bound bound ts

def block (bound : Nat) : Nat → Parser (List Stmt)
  | 0, _ => none
  | n + 1, ts =>
    match ts with
    | ⟨.newline, _, _⟩ :: ⟨.indent, _, _⟩ :: ts => do
      let (s, ts) ← statement bound n ts
      let (ss, ts) ← statements bound n ts
      some (s ++ ss, ts)
    | ⟨.newline, _, _⟩ :: _ => none
    | ts => simpleLine bound bound ts

def statements (bound : Nat) : Nat → Parser (List Stmt)
  | 0, _ => none
  | n + 1, ts =>
    match ts with
    | ⟨.dedent, _, _⟩ :: ts => some ([], ts)
    | ts => do
      let (s, ts) ← statement bound n ts
      let (ss, ts) ← statements bound n ts
      some (s ++ ss, ts)

end

def function (bound : Nat) (ts : List Located) : Option Function := do
  let ((), ts) ← expectKeyword "def" ts
  let (name, ts) ← expectName ts
  let ((), ts) ← expectMark "(" ts
  let (first, ts) ← expectName ts
  let ((), ts) ← expectMark "," ts
  let (second, ts) ← expectName ts
  let ((), ts) ← expectMark ")" ts
  let ((), ts) ← expectMark ":" ts
  let (body, ts) ← block bound bound ts
  match ts with
  | [⟨.stop, _, _⟩] => some ⟨name, first, second, body⟩
  | _ => none

def parse? (ts : List Located) : Option Function := function (8 * (ts.length + 1)) ts

end FitCode.Program
