import FitCode.Decimal.Binary
import FitCode.Text.Blank
import FitCode.Text.Digit

/-! # Reading numerals

Blanks around a numeral are ignored, except the information separators. Digits may be of any script,
and single underscores may stand between digits.
-/
namespace FitCode.Decimal

open FitCode.Text

/-- A character with digits of all scripts mapped to the ASCII ones. -/
def plainDigit (c : Char) : Char :=
  match digitValue? c with
  | some d => Char.ofNat (48 + d)
  | none => c

/-- Drops the underscores, each of which must stand between two digits. `afterDigit` says whether
the character before was a digit. -/
def dropUnderscores : (afterDigit : Bool) → List Char → Option (List Char)
  | _, [] => some []
  | afterDigit, c :: cs =>
    if c == '_' then
      if afterDigit && cs.head?.any isDigit then dropUnderscores false cs else none
    else (dropUnderscores (isDigit c) cs).map (c :: ·)

def isNumeralBlank (c : Char) : Bool := isBlank c && !(28 ≤ c.toNat && c.toNat ≤ 31)

def numeralChars (text : String) : Option (List Char) :=
  dropUnderscores false ((trimBoth isNumeralBlank text.toList).map plainDigit)

def splitSign : List Char → Bool × List Char
  | '-' :: cs => (true, cs)
  | '+' :: cs => (false, cs)
  | cs => (false, cs)

/-- Whole numbers are read up to this number of digits, leading zeros included. -/
def maxDigits : Nat := 4300

def readInt? (text : String) : Option Int := do
  let (negative, cs) := splitSign (← numeralChars text)
  if maxDigits < cs.length then none
  let n ← natOfDigits? cs
  if cs.all isDigit then some (if negative then -n else n) else none

/-- The fraction part and exponent of a decimal numeral without sign: whole digits, then optionally
a point and digits, then optionally an exponent. -/
def readDecimal? (cs : List Char) : Option (Nat × Int) := do
  let whole := cs.takeWhile isDigit
  let cs := cs.dropWhile isDigit
  let (frac, cs) := match cs with
    | '.' :: cs => (cs.takeWhile isDigit, cs.dropWhile isDigit)
    | cs => ([], cs)
  if whole.isEmpty && frac.isEmpty then none
  let n ← natOfDigits? (whole ++ frac)
  match cs with
  | [] => some (n, -frac.length)
  | c :: cs =>
    if c == 'e' || c == 'E' then
      let (negative, cs) := splitSign cs
      let e ← natOfDigits? cs
      if cs.all isDigit then some (n, (if negative then -(e : Int) else e) - frac.length) else none
    else none

/-- The double nearest to `n · 10 ^ e`, infinite beyond the range. Exponents far outside the range
are settled without writing out the power. -/
def ofScientific (negative : Bool) (n : Nat) (e : Int) : Float :=
  let magnitude : Int := (Nat.toDigits 10 n).length + e
  if n = 0 || magnitude < -400 then withSign negative 0
  else if 400 < magnitude then withSign negative infinity
  else
    let (a, b) := scaleTen n 1 e
    (ofFraction? negative a b).getD (withSign negative infinity)

/-- A decimal numeral, or one of the words for infinity and not-a-number in any case. -/
def readFloat? (text : String) : Option Float := do
  let (negative, cs) := splitSign (← numeralChars text)
  let word := String.ofList (cs.map Char.toLower)
  if word == "inf" || word == "infinity" then some (withSign negative infinity)
  else if word == "nan" then some nanValue
  else
    let (n, e) ← readDecimal? cs
    some (ofScientific negative n e)

end FitCode.Decimal
