import FitCode.Program.Grammar.Match
import FitCode.Program.Scan

/-! # Where a malformed source is at fault

A first pass looks for valid forms. If it fails, a second one looks also for forms known to be
wrong, and the first of them decides. Otherwise the furthest token that the first pass looked at is
at fault. Text that is no token goes before what parsing finds, and so does a bracket that is never
closed, if it stands on an earlier line than where parsing got to.
-/
namespace FitCode.Program

/-- The depth to which a search may go. Between two tokens matching goes through fewer expressions
than the factor. -/
def searchDepth (l : Lexed) : Nat := 1000 * (l.tokens.size + 2)

/-- The line of a fault that parsing found, having looked up to `reached`, unless something else
goes before it. -/
def Lexed.settle (l : Lexed) (line reached : Nat) : Nat :=
  match l.ending with
  | some b =>
    if b.isMalformed then b.line
    else
      match b.bracket with
      | some opened => if opened < reached then opened else line
      | none => line
  | none => line

def Token.isBlockChange : Token → Bool
  | .indent => true
  | .dedent => true
  | _ => false

def Lexed.faultLine? (l : Lexed) : Option Nat :=
  let ts := l.tokens
  let pass := fun (mode : Mode) (s : Search) => (Rule.match ts (searchDepth l) mode .file 0).run s
  let settled := fun (line : Nat) (isSettled : Bool) (s : Search) =>
    if isSettled then line else l.settle line (furthestLine ts s)
  match pass .valid {} with
  | (.fault line isSettled, s) => some (settled line isSettled s)
  | (.found .., _) =>
    match pass .stars {} with
    | (.fault line _, _) => some line
    | _ => none
  | (.none _, s) =>
    let last := tokenAt ts s.furthest
    match pass .wrong { furthest := s.furthest } with
    | (.fault line isSettled, s) => some (settled line isSettled s)
    | (_, s) =>
      if last.token.isBlockChange then some (furthestLine ts s)
      else some (l.settle last.line (furthestLine ts s))

end FitCode.Program
