import FitCode.Text.Blank

/-! # Lines, margins and indentation

`dedent` removes the longest run of spaces and tabs that all lines with content share. `indent`
puts a margin in front of every line with content, where lines end at any line end.
-/
namespace FitCode.Text

/-- Cuts a text at its newlines, which are dropped. The result is never empty. -/
def lines : List Char → List (List Char)
  | [] => [[]]
  | c :: cs =>
    if c == '\n' then [] :: lines cs
    else match lines cs with
      | [] => [[c]]
      | l :: ls => (c :: l) :: ls

def joinLines : List (List Char) → List Char
  | [] => []
  | [l] => l
  | l :: ls => l ++ '\n' :: joinLines ls

def isPad (c : Char) : Bool := c == ' ' || c == '\t'

def commonStart : List Char → List Char → List Char
  | a :: as, b :: bs => if a == b then a :: commonStart as bs else []
  | _, _ => []

/-- The margin of a list of lines, or none if no line has content. -/
def margin? : List (List Char) → Option (List Char)
  | [] => none
  | l :: ls =>
    if l.all isPad then margin? ls
    else
      let own := l.takeWhile isPad
      some ((margin? ls).elim own (commonStart own))

/-- Lines without their common margin; lines of spaces and tabs become empty. -/
def dropMarginLines (ls : List (List Char)) : List (List Char) :=
  let width := ((margin? ls).getD []).length
  ls.map fun l => if l.all isPad then [] else l.drop width

def dropMargin (cs : List Char) : List Char := joinLines (dropMarginLines (lines cs))

/-- Cuts a text after each line end, keeping the line ends. -/
def cutLines : List Char → List (List Char)
  | [] => []
  | '\r' :: '\n' :: cs => ['\r', '\n'] :: cutLines cs
  | c :: cs =>
    if isLineEnd c then [c] :: cutLines cs
    else match cutLines cs with
      | [] => [[c]]
      | l :: ls => (c :: l) :: ls

def indent (pad : List Char) (cs : List Char) : List Char :=
  (cutLines cs).flatMap fun l => if l.all isBlank then l else pad ++ l

end FitCode.Text
