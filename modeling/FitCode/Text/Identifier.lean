import FitCode.Text.Table.Letter
import FitCode.Text.Table.Identifier

/-! # Identifiers of the generated language -/
namespace FitCode.Text

def isIdentStart (c : Char) : Bool :=
  if c.toNat < 128 then c.isAlpha || c == '_'
  else Table.letters.contains c != Table.startExceptions.contains c

def isIdentContinue (c : Char) : Bool :=
  if c.toNat < 128 then c.isAlphanum || c == '_'
  else isIdentStart c || Table.continueOnly.contains c

def isIdentifier (text : String) : Bool :=
  match text.toList with
  | [] => false
  | c :: cs => isIdentStart c && cs.all isIdentContinue

def keywords : List String :=
  ["False", "None", "True", "and", "as", "assert", "async", "await", "break", "class", "continue",
   "def", "del", "elif", "else", "except", "finally", "for", "from", "global", "if", "import",
   "in", "is", "lambda", "nonlocal", "not", "or", "pass", "raise", "return", "try", "while",
   "with", "yield"]

def isVariable (text : String) : Bool := isIdentifier text && !keywords.contains text

end FitCode.Text
