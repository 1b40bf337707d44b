import FitCode.Program.Token

/-! # Grammars

A grammar gives every rule an expression over tokens. Choices are ordered: the first one that
matches is taken and later ones are not looked at. Besides its valid forms a grammar describes forms
that are wrong in a known way, with the place that is to blame.
-/
namespace FitCode.Program

inductive Terminal where
  | name
  /-- A name with a special meaning in some places. -/
  | softKeyword
  | keyword (s : String)
  | mark (s : String)
  | number
  | text
  | newline
  | indent
  | dedent
  | stop

/-- A matched stretch of source: the line where it starts, and as much of its structure as decides
whether it can be assigned to. -/
inductive Piece where
  | name (line : Nat) (s : String)
  | word (line : Nat) (s : String)
  /-- An item or an attribute. -/
  | place (line : Nat)
  /-- A tuple or a list. -/
  | series (line : Nat) (items : List Piece)
  | starred (line : Nat) (p : Piece)
  /-- A comparison, its first operand and whether its first operator is `in`. -/
  | comparison (line : Nat) (first : Piece) (isIn : Bool)
  | other (line : Nat)
  deriving Inhabited

def Piece.line : Piece → Nat
  | .name line _ => line
  | .word line _ => line
  | .place line => line
  | .series line _ => line
  | .starred line _ => line
  | .comparison line _ _ => line
  | .other line => line

inductive Form where
  /-- A single piece stays; several pieces are something else. -/
  | whole
  | place
  | series
  | starred
  | comparison
  /-- An operand and what is applied to it. -/
  | applied
  | other

inductive Use where
  | assign
  | loop
  | delete

inductive Blame where
  /-- The first piece. -/
  | first
  /-- The last of several pieces. -/
  | lastOfMany
  /-- The furthest token that was looked at. -/
  | furthest
  /-- The part of the first piece that cannot be a target. -/
  | target (u : Use)
  /-- The first of two expressions inside brackets. -/
  | neighbours
  /-- The first piece, if it is the name of a statement of old. -/
  | statementName
  /-- The first piece, if it is starred. -/
  | starred

inductive Mode where
  | valid
  /-- Forms known to be wrong. -/
  | wrong
  /-- Stars that no tuple or call surrounds, in a source that is valid otherwise. -/
  | stars
  deriving DecidableEq

inductive Rule where
  | file | statements | statement | simpleLine | simple | compound | block
  | assignment | annotatedValue | update | wrongAssignment | wrongAnnotated
  | returning | raising | naming | deleting | asserting | importing | importTargets | importNames
  | dottedName | decorators | classDef | functionDef | parameters | parameter
  | ifStatement | elifStatement | elseBlock | whileStatement | forStatement | wrongLoopTarget
  | withStatement | withItem | tryStatement | exceptBlock | finallyBlock
  | expressions | expression | quietExpression | wrongExpression | yielding
  | starExpressions | starExpression | starNamedExpressions | starNamedExpression
  | assignmentExpression | namedExpression | wrongNamedExpression | argumentExpression
  | disjunction | inversion | comparison | arithmetic | factor | power | primary | trailer
  | slices | slice | atom | group | wrongGroup | lambda | list | tuple | set | dict | pairs | pair
  | wrongPairs | wrongPair | clauses | clause | listComprehension | setComprehension
  | dictComprehension | generator | wrongComprehension
  | arguments | args | keywordArgs | starredArg | keywordOrStarred | keywordOrDoubleStarred
  | wrongArguments | wrongKeyword
  | targets | target | plainTarget | targetAtom | singleTarget | singlePlace | targetPrimary
  | targetMore | deleteTargets | deleteTarget | deleteAtom

inductive Peg where
  | token (t : Terminal)
  /-- A token without which the source is wrong at this place. -/
  | must (t : Terminal)
  /-- Texts side by side. -/
  | texts
  | rule (r : Rule)
  | all (ps : List Peg)
  | any (ps : List Peg)
  | many (p : Peg)
  | optional (p : Peg)
  | ahead (p : Peg)
  | notAhead (p : Peg)
  /-- No other choice of the rule is tried from here on. -/
  | commit
  /-- Matches without keeping the pieces. -/
  | skip (p : Peg)
  | form (f : Form) (p : Peg)
  /-- Tried in one mode only. -/
  | only (m : Mode) (p : Peg)
  | blame (b : Blame) (p : Peg)
  /-- Tried as if only valid forms were looked for. -/
  | quiet (p : Peg)

namespace Peg

def mark (s : String) : Peg := token (.mark s)

def keyword (s : String) : Peg := token (.keyword s)

def name : Peg := token .name

def newline : Peg := token .newline

def some (p : Peg) : Peg := all [p, many p]

def list (p : Peg) : Peg := all [p, many (all [skip (mark ","), p])]

def wrong (b : Blame) (ps : List Peg) : Peg := blame b (all ps)

/-- A value that must not be starred on its own. -/
def unstarred (p : Peg) : Peg := any [only .stars (blame .starred p), p]

end Peg

end FitCode.Program
