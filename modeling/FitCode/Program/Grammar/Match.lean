import FitCode.Program.Grammar.Rules
import Std.Data.HashMap

/-! # Matching a grammar

Matching looks at tokens from left to right and goes back where a choice fails. What some rules
match at a place is kept for the next time they are tried there, also between passes in which
different forms are looked for. The furthest token that was looked at is kept, too.
-/
namespace FitCode.Program

inductive Match where
  /-- No match; with the flag set, other choices are not to be tried. -/
  | none (isFinal : Bool)
  /-- A match up to the token `next`. -/
  | found (next : Nat) (pieces : List Piece)
  /-- The source is wrong. A fault that is not settled gives way to text that is no token. -/
  | fault (line : Nat) (isSettled : Bool)
  deriving Inhabited

structure Search where
  furthest : Nat := 0
  /-- Matches by rule and place. -/
  known : Std.HashMap (Nat × Nat) Match := ∅

abbrev Matching := StateM Search

def Located.piece (t : Located) : Piece :=
  match t.token with
  | .name s => .name t.line s
  | .keyword s => .word t.line s
  | _ => .other t.line

def softKeywords : List String := ["_", "case", "match"]

def Terminal.accepts : Terminal → Token → Bool
  | .name, .name _ => true
  | .softKeyword, .name s => softKeywords.contains s
  | .keyword s, .keyword t => s == t
  | .mark s, .mark t => s == t
  | .number, .int _ => true
  | .number, .hugeInt => true
  | .number, .float _ => true
  | .number, .imaginary => true
  | .text, .text _ => true
  | .text, .badText => true
  | .text, .bytes _ => true
  | .text, .pattern => true
  | .newline, .newline => true
  | .indent, .indent => true
  | .dedent, .dedent => true
  | .stop, .stop => true
  | _, _ => false

/-- The statements that were once written without brackets. -/
def oldStatements : List String := ["print", "exec"]

def Piece.isOldStatement : Piece → Bool
  | .name _ s => oldStatements.contains s
  | _ => false

mutual

def Piece.misfit? (u : Use) : Piece → Option Nat
  | .name .. => .none
  | .place _ => .none
  | .series _ items => misfitOf? u items
  | .starred line p =>
    match u with
    | .delete => some line
    | _ => p.misfit? u
  | .comparison line first isIn =>
    match u with
    | .loop => if isIn then first.misfit? u else .none
    | _ => some line
  | .word line _ => some line
  | .other line => some line

def misfitOf? (u : Use) : List Piece → Option Nat
  | [] => .none
  | p :: ps => (p.misfit? u).or (misfitOf? u ps)

end

def Form.build (f : Form) (line : Nat) (pieces : List Piece) : Piece :=
  match f, pieces with
  | .whole, [p] => p
  | .place, _ => .place line
  | .series, ps => .series line ps
  | .starred, [p] => .starred line p
  | .comparison, [p] => p
  | .comparison, p :: q :: _ =>
    .comparison line p (match q with
      | .word _ s => s == "in"
      | _ => false)
  | .applied, [p] => p
  | .applied, ps =>
    match ps.getLast? with
    | some (.place _) => .place line
    | _ => .other line
  | _, _ => .other line

/-- The rules whose matches are kept. -/
def Rule.slot? : Rule → Option Nat
  | .simple => some 0
  | .block => some 1
  | .expression => some 2
  | .starExpression => some 3
  | .disjunction => some 4
  | .inversion => some 5
  | .arithmetic => some 6
  | .factor => some 7
  | .primary => some 8
  | .arguments => some 9
  | .target => some 10
  | .plainTarget => some 11
  | .targetPrimary => some 12
  | .deleteTarget => some 13
  | .wrongNamedExpression => some 14
  | .dottedName => some 15
  | _ => none

section

variable (ts : Array Located)

def tokenAt (pos : Nat) : Located := ts.getD pos ⟨.stop, 0, 0⟩

def furthestLine (s : Search) : Nat := (tokenAt ts s.furthest).line

/-- The token at a place, or a fault if the source cannot be read as far. -/
def lookAt (pos : Nat) : Matching (Except Match Located) := do
  modify fun s => { s with furthest := max s.furthest pos }
  let t := tokenAt ts pos
  match t.token with
  | .broken => return .error (.fault t.line true)
  | _ => return .ok t

def matchToken (t : Terminal) (pos : Nat) : Matching Match := do
  match ← lookAt ts pos with
  | .error m => return m
  | .ok found =>
    if t.accepts found.token then
      match found.token with
      | .hugeInt => return .fault found.line false
      | _ => return .found (pos + 1) [found.piece]
    else return .none false

/-- Matches texts side by side. The first argument bounds their number. -/
def matchTexts : Nat → Nat → List Located → Matching Match
  | 0, _, _ => return .none false
  | n + 1, pos, texts => do
    match ← lookAt ts pos with
    | .error m => return m
    | .ok t =>
      if Terminal.text.accepts t.token then matchTexts n (pos + 1) (t :: texts)
      else
        let texts := texts.reverse
        match texts with
        | [] => return .none false
        | first :: _ =>
          let line := furthestLine ts (← get)
          let isBytes := fun (t : Located) => match t.token with
            | .bytes _ => true
            | _ => false
          let fault := texts.findSome? fun t => match t.token with
            | .badText => some line
            | .bytes false => some t.line
            | _ => if isBytes t == isBytes first then .none else some line
          match fault with
          | some line => return .fault line false
          | .none => return .found pos [.other first.line]

def Blame.line? (b : Blame) (s : Search) (next : Nat) (pieces : List Piece) : Option Nat :=
  match b with
  | .first => pieces.head?.map Piece.line
  | .lastOfMany => if 1 < pieces.length then pieces.getLast?.map Piece.line else .none
  | .furthest => some (furthestLine ts s)
  | .target u => pieces.head?.bind (Piece.misfit? u)
  | .neighbours =>
    if (tokenAt ts (next - 1)).level = 0 then .none
    else (pieces.head?.filter fun p => !p.isOldStatement).map Piece.line
  | .statementName => (pieces.head?.filter Piece.isOldStatement).map Piece.line
  | .starred =>
    match pieces with
    | .starred line _ :: _ => some line
    | _ => .none

mutual

/-- Matches an expression at a place. The first argument bounds the depth of the search. -/
def Peg.match : Nat → Mode → Peg → Nat → Matching Match
  | 0, _, _, _ => return .none true
  | n + 1, mode, p, pos =>
    match p with
    | .token t => matchToken ts t pos
    | .must t => do
      match ← matchToken ts t pos with
      | .none _ => return .fault (tokenAt ts pos).line false
      | m => return m
    | .texts => matchTexts ts (ts.size + 1 - pos) pos []
    | .rule r => Rule.match n mode r pos
    | .all ps => matchAll n mode ps pos false []
    | .any ps => matchAny n mode ps pos
    | .many p => matchMany n mode p pos []
    | .optional p => do
      match ← Peg.match n mode p pos with
      | .none _ => return .found pos []
      | m => return m
    | .ahead p => do
      match ← Peg.match n mode p pos with
      | .found .. => return .found pos []
      | .none _ => return .none false
      | m => return m
    | .notAhead p => do
      match ← Peg.match n mode p pos with
      | .found .. => return .none false
      | .none _ => return .found pos []
      | m => return m
    | .commit => return .found pos []
    | .skip p => do
      match ← Peg.match n mode p pos with
      | .found next _ => return .found next []
      | m => return m
    | .form f p => do
      match ← Peg.match n mode p pos with
      | .found next pieces => return .found next [f.build (tokenAt ts pos).line pieces]
      | m => return m
    | .only m p => if m = mode then Peg.match n mode p pos else return .none false
    | .blame b p => do
      match ← Peg.match n mode p pos with
      | .found next pieces =>
        match b.line? ts (← get) next pieces with
        | some line => return .fault line false
        | .none => return .none false
      | m => return m
    | .quiet p => Peg.match n .valid p pos

/-- Matches a rule at a place, or recalls what it matched there. -/
def Rule.match : Nat → Mode → Rule → Nat → Matching Match
  | 0, _, _, _ => return .none true
  | n + 1, mode, r, pos => do
    let s ← get
    match r.slot?.bind fun k => s.known[(k, pos)]? with
    | some m => return m
    | .none =>
      let m ← Peg.match n mode r.peg pos
      let m := match m with
        | .none _ => Match.none false
        | m => m
      match r.slot? with
      | some k => modify fun s => { s with known := s.known.insert (k, pos) m }
      | .none => pure ()
      return m

/-- Matches expressions one behind the other. `pieces` are those matched so far, last one first. -/
def matchAll :
    Nat → Mode → List Peg → Nat → (committed : Bool) → List Piece → Matching Match
  | 0, _, _, _, _, _ => return .none true
  | n + 1, mode, ps, pos, committed, pieces =>
    match ps with
    | [] => return .found pos pieces.reverse
    | .commit :: ps => matchAll n mode ps pos true pieces
    | p :: ps => do
      match ← Peg.match n mode p pos with
      | .found next more => matchAll n mode ps next committed (more.reverse ++ pieces)
      | .none _ => return .none committed
      | m => return m

def matchAny : Nat → Mode → List Peg → Nat → Matching Match
  | 0, _, _, _ => return .none true
  | n + 1, mode, ps, pos =>
    match ps with
    | [] => return .none false
    | p :: ps => do
      match ← Peg.match n mode p pos with
      | .none false => matchAny n mode ps pos
      | m => return m

def matchMany : Nat → Mode → Peg → Nat → List Piece → Matching Match
  | 0, _, _, _, _ => return .none true
  | n + 1, mode, p, pos, pieces => do
    match ← Peg.match n mode p pos with
    | .found next more => matchMany n mode p next (more.reverse ++ pieces)
    | .none _ => return .found pos pieces.reverse
    | m => return m

end

end

end FitCode.Program
