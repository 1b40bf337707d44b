/-! # Tokens of generated code -/
namespace FitCode.Program

inductive Token where
  /-- An identifier in its normal form. -/
  | name (s : String)
  | keyword (s : String)
  | int (n : Nat)
  /-- A whole number with more digits than can be read. -/
  | hugeInt
  | float (x : Float)
  | imaginary
  | text (s : String)
  /-- A text with a malformed escape. -/
  | badText
  /-- Bytes; only ASCII characters may spell them. -/
  | bytes (isAscii : Bool)
  /-- A text with fields to be filled in. -/
  | pattern
  /-- An operator, a bracket or a separator, or a character that is none of these. -/
  | mark (s : String)
  | newline
  | indent
  | dedent
  | stop
  /-- The place where the source cannot be read further. -/
  | broken
  deriving Inhabited

/-- A token, the line it starts on and the number of brackets open behind it. -/
structure Located where
  token : Token
  line : Nat
  level : Nat
  deriving Inhabited

structure Break where
  /-- The line to report if parsing gets as far. -/
  line : Nat
  /-- Whether the text there is no token at all. Such a place is at fault before everything that
  parsing finds before it; wrong indentation and a missing end are not. -/
  isMalformed : Bool
  /-- The line of the innermost bracket open there. -/
  bracket : Option Nat

/-- The tokens of a source. The last one is `stop` or `broken`. -/
structure Lexed where
  tokens : Array Located
  ending : Option Break

end FitCode.Program
