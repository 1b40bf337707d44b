import FitCode.Program.Literal
import FitCode.Text.Identifier

/-! # Reading tokens

Outside of brackets a line is a statement: its indentation opens and closes blocks and its end is a
token. Inside brackets line ends mean nothing. Blank lines and comments are passed over, and a
backslash joins a line to the next one. Reading stops at the first text that is no token.
-/
namespace FitCode.Program

open FitCode.Text

/-- The columns at which a block starts: with tabs that go to multiples of eight, and with tabs of
one column. Both have to agree on how blocks nest. -/
abbrev Margin := Nat × Nat

abbrev Bracket := Char × Nat

structure Scan where
  tokens : Array Located := #[]
  line : Nat := 1
  /-- The blocks open, innermost first. -/
  blocks : List Margin := []
  /-- The brackets open, innermost first. -/
  brackets : List Bracket := []
  /-- Whether reading is at the start of a line. -/
  isFresh : Bool := true

inductive Progress where
  | more (s : Scan) (rest : List Char)
  | done (l : Lexed)

namespace Scan

def push (s : Scan) (t : Token) : Scan :=
  { s with tokens := s.tokens.push ⟨t, s.line, s.brackets.length⟩ }

def bracketLine (s : Scan) : Option Nat := s.brackets.head?.map (·.2)

def fail (s : Scan) (line : Nat) (isMalformed : Bool) : Progress :=
  .done ⟨s.tokens.push ⟨.broken, line, s.brackets.length⟩,
    some ⟨line, isMalformed, s.bracketLine⟩⟩

/-- Ends reading where the source ends too early. A bracket that is still open is at fault. -/
def failAtEnd (s : Scan) : Progress := s.fail (s.bracketLine.getD s.line) false

def maxBrackets : Nat := 200

/-- Fewer than so many blocks can be open. -/
def maxBlocks : Nat := 100

def changeBlocks (s : Scan) (m : Margin) (rest : List Char) : Progress :=
  let (col, alt) := s.blocks.headD (0, 0)
  let s := { s with isFresh := false }
  if m.1 == col then if m.2 == alt then .more s rest else s.fail s.line false
  else if col < m.1 then
    if maxBlocks ≤ s.blocks.length + 1 || m.2 ≤ alt then s.fail s.line false
    else .more ({ s with blocks := m :: s.blocks }.push .indent) rest
  else
    let closed := s.blocks.takeWhile fun b => m.1 < b.1
    let blocks := s.blocks.dropWhile fun b => m.1 < b.1
    if blocks.headD (0, 0) == m then
      .more (closed.foldl (fun s _ => s.push .dedent) { s with blocks := blocks }) rest
    else s.fail s.line false

end Scan

inductive Indentation where
  | at (m : Margin) (line : Nat) (rest : List Char)
  /-- A backslash that does not end its line. -/
  | stray (line : Nat)
  /-- A backslash that ends the source. -/
  | cut (line : Nat)

/-- Measures the indentation of a line. A form feed starts anew. Of a line that backslashes join to
the next ones, the first indentation that is not empty counts; it is `kept`. -/
def indentation (line : Nat) (kept : Nat) : Margin → List Char → Indentation
  | (col, alt), ' ' :: cs => indentation line kept (col + 1, alt + 1) cs
  | (col, alt), '\t' :: cs => indentation line kept ((col / 8 + 1) * 8, alt + 1) cs
  | _, '\x0c' :: cs => indentation line kept (0, 0) cs
  | _, ['\\', '\n'] => .cut line
  | m, '\\' :: '\n' :: cs => indentation (line + 1) (if kept = 0 then m.1 else kept) m cs
  | _, '\\' :: _ => .stray line
  | m, cs => .at (if kept = 0 then m else (kept, kept)) line cs

def longMarks : List (List Char) :=
  ["**=", "//=", "<<=", ">>=", "...", "!=", "%=", "&=", "**", "*=", "+=", "-=", "->", "//", "/=",
   ":=", "<<", "<=", "<>", "==", ">=", ">>", "@=", "^=", "|="].map String.toList

def closing? : Char → Option Char
  | '(' => some ')'
  | '[' => some ']'
  | '\x7b' => some '\x7d'
  | _ => none

def isClosing (c : Char) : Bool := c == ')' || c == ']' || c == '\x7d'

namespace Scan

def word (s : Scan) (cs : List Char) : Progress :=
  let (chars, rest) := cs.span isWordChar
  let text := String.ofList chars
  if !isIdentifier text then s.fail s.line true
  else if keywords.contains text then .more (s.push (.keyword text)) rest
  else .more (s.push (.name (normalForm text))) rest

def quoted (s : Scan) (style : TextStyle) (cs : List Char) : Progress :=
  match quoted? cs with
  | none => s.fail s.line true
  | some (content, rest) =>
    let s := s.push (style.token content)
    .more { s with line := s.line + content.count '\n' } rest

def mark (s : Scan) (c : Char) (cs : List Char) : Progress :=
  match longMarks.find? (·.isPrefixOf (c :: cs)) with
  | some m => .more (s.push (.mark (String.ofList m))) (cs.drop (m.length - 1))
  | none =>
    let text := String.ofList [c]
    if (closing? c).isSome then
      if maxBrackets ≤ s.brackets.length then s.fail s.line true
      else .more ({ s with brackets := (c, s.line) :: s.brackets }.push (.mark text)) cs
    else if isClosing c then
      match s.brackets with
      | (o, _) :: rest =>
        if closing? o == some c then .more ({ s with brackets := rest }.push (.mark text)) cs
        else s.fail s.line true
      | [] => s.fail s.line true
    else if c.toNat < 32 || c.toNat == 127 then s.fail s.line true
    else .more (s.push (.mark text)) cs

def token (s : Scan) (cs : List Char) : Progress :=
  match cs.dropWhile fun c => c == ' ' || c == '\t' || c == '\x0c' with
  | [] =>
    if s.brackets.isEmpty then .done ⟨(s.push .stop).tokens, none⟩ else s.failAtEnd
  | '#' :: cs => .more s (cs.dropWhile (· != '\n'))
  | '\n' :: cs =>
    let t := if s.brackets.isEmpty then s.push .newline else s
    .more { t with line := s.line + 1, isFresh := true } cs
  | ['\\', '\n'] => s.failAtEnd
  | '\\' :: '\n' :: cs => .more { s with line := s.line + 1 } cs
  | '\\' :: _ => s.fail s.line false
  | c :: cs =>
    let letters := (c :: cs).takeWhile Char.isAlpha
    let behind := (c :: cs).drop letters.length
    match behind.head?.bind fun q => if q == '"' || q == '\'' then textStyle? letters else none with
    | some style => s.quoted style behind
    | none =>
      if isWordChar c && !isDigit c then s.word (c :: cs)
      else if isDigit c || (c == '.' && cs.head?.any isDigit) then
        match number? (c :: cs) with
        | some (t, rest) => .more (s.push t) rest
        | none => s.fail s.line true
      else s.mark c cs

/-- Reads the start of a line. Lines without tokens leave the blocks as they are. -/
def start (s : Scan) (cs : List Char) : Progress :=
  match indentation s.line 0 (0, 0) cs with
  | .stray line => s.fail line false
  | .cut line => { s with line := line }.failAtEnd
  | .at m line rest =>
    let s := { s with line := line }
    match rest with
    | '#' :: _ => .more s (rest.dropWhile (· != '\n'))
    | '\n' :: cs => .more { s with line := line + 1 } cs
    | [] => if s.brackets.isEmpty then { s with line := s.line - 1 }.changeBlocks m rest
      else { s with line := s.line - 1 }.failAtEnd
    | _ => if s.brackets.isEmpty then s.changeBlocks m rest
      else .more { s with isFresh := false } rest

def step (s : Scan) (cs : List Char) : Progress := if s.isFresh then s.start cs else s.token cs

/-- Reads on to the end. Every two steps pass over at least one character, so the first argument, at
twice the number of characters and more, does not run out. -/
def finish : Nat → Scan → List Char → Lexed
  | 0, s, _ => ⟨s.tokens, none⟩
  | n + 1, s, cs =>
    match s.step cs with
    | .more s rest => finish n s rest
    | .done l => l

end Scan

/-- The characters of a source with all its line ends as newlines, the last line's included. -/
def sourceChars (source : String) : List Char :=
  let cs := source.toList.foldl (fun (cs : List Char) c =>
    match cs with
    | '\r' :: rest => if c == '\n' then '\n' :: rest else c :: '\n' :: rest
    | cs => c :: cs) []
  let cs := match cs with
    | '\r' :: rest => '\n' :: rest
    | '\n' :: rest => '\n' :: rest
    | [] => []
    | cs => '\n' :: cs
  cs.reverse

def lex (source : String) : Lexed :=
  let cs := sourceChars source
  Scan.finish (2 * cs.length + 4) {} cs

end FitCode.Program
