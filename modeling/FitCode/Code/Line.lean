import FitCode.Text.Margin

/-! # Lines of generated code

A line knows the block it belongs to by its depth, so lines can be moved before they are printed.
-/
namespace FitCode

structure Line where
  depth : Int
  text : String
  deriving Repr, DecidableEq

namespace Line

/-- An empty line is printed without indentation, and a negative depth counts as none. -/
def render (indentSize : Int) (l : Line) : String :=
  if l.text == "" then ""
  else String.ofList (List.replicate (l.depth * indentSize).toNat ' ') ++ l.text

def snippetIndent : Nat := 4

def ofSnippetLine (depth : Int) (l : List Char) : Line :=
  let pad := l.takeWhile (· == ' ')
  let rest := l.dropWhile (· == ' ')
  ⟨depth + (pad.length / snippetIndent : Nat), String.ofList (Text.trimEnd Text.isBlank rest)⟩

/-- The lines of a snippet, placed at `depth` with their relative indentation kept. -/
def ofSnippet (text : String) (depth : Int) : List Line :=
  let cs := Text.trimBoth (· == '\n') (Text.dropMargin text.toList)
  (Text.lines cs).map (ofSnippetLine depth)

def renderAll (indentSize : Int) (ls : List Line) : String :=
  String.join (ls.map fun l => l.render indentSize ++ "\n")

end Line

end FitCode
