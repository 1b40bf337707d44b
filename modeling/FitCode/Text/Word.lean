import FitCode.Text.Table.Letter
import FitCode.Text.Table.Numeral

/-! # Words and the names in an expression

A name starts with an ASCII letter or an underscore, is not continued from the left by a word
character, and is not an attribute after a dot.
-/
namespace FitCode.Text

def isWord (c : Char) : Bool :=
  if c.toNat < 128 then c.isAlphanum || c == '_'
  else Table.letters.contains c || Table.numerals.contains c

def isNameStart (c : Char) : Bool := c.isAlpha || c == '_'

/-- Walks over a text. `word` holds the name being read, backwards; `free` says whether the
character before the current one leaves room for a name to start. -/
def scanNames : (word : Option (List Char)) → (free : Bool) → List Char → List String
  | none, _, [] => []
  | some w, _, [] => [String.ofList w.reverse]
  | some w, free, c :: cs =>
    if isWord c then scanNames (some (c :: w)) free cs
    else String.ofList w.reverse :: scanNames none (c != '.') cs
  | none, free, c :: cs =>
    if free && isNameStart c then scanNames (some [c]) free cs
    else scanNames none (!isWord c && c != '.') cs

def names (text : String) : List String := scanNames none true text.toList

end FitCode.Text
