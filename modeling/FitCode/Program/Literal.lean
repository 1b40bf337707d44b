import FitCode.Decimal.Numeral
import FitCode.Program.Token
import FitCode.Text.Normal

/-! # Literals of generated code

Numbers and quoted texts, as far as a source's characters spell them. A malformed literal has no
reading.
-/
namespace FitCode.Program

open FitCode.Text

/-- Whether a character belongs to an identifier as far as its first look goes: all characters
beyond ASCII do. -/
def isWordChar (c : Char) : Bool := c.isAlphanum || c == '_' || 128 ≤ c.toNat

/-- The digits of a numeral with its underscores left out, each of which must follow a digit and be
followed by one. `afterDigit` says whether a digit stands before. -/
def joinGroups : (afterDigit : Bool) → List Char → Option (List Char)
  | afterDigit, [] => if afterDigit then some [] else none
  | afterDigit, c :: cs =>
    if c == '_' then if afterDigit then joinGroups false cs else none
    else (joinGroups true cs).map (c :: ·)

def digitRun (isDigit : Char → Bool) (cs : List Char) : List Char × List Char :=
  cs.span fun c => isDigit c || c == '_'

def wordsBehindNumbers : List String := ["and", "else", "for", "or", "not"]

def endsNumber (rest : List Char) : Bool :=
  match rest with
  | [] => true
  | 'i' :: c :: _ => c == 'f' || c == 'n' || c == 's'
  | c :: _ =>
    !isWordChar c || wordsBehindNumbers.contains (String.ofList (rest.takeWhile isWordChar))

def basedNumber? (base : Nat) (cs : List Char) : Option (Token × List Char) := do
  let (run, rest) := digitRun (fun c => (hexValue? c).any (· < base)) cs
  let digits ← (← joinGroups true run).mapM hexValue?
  if digits.isEmpty || !endsNumber rest then none
  return (.int (digits.foldl (fun n d => base * n + d) 0), rest)

/-- The exponent in front of a text, if there is one. The outer failure is a malformed exponent. -/
def exponent? (cs : List Char) : Option (Option Int × List Char) :=
  match cs with
  | [] => some (none, cs)
  | e :: r =>
    if e == 'e' || e == 'E' then
      let (isNegative, digits) := Decimal.splitSign r
      let isSigned := digits.length != r.length
      if digits.head?.any isDigit then
        let (run, rest) := digitRun isDigit digits
        ((joinGroups false run).bind natOfDigits?).map fun n =>
          (some (if isNegative then -(n : Int) else n), rest)
      else if !isSigned && endsNumber cs then some (none, cs)
      else none
    else some (none, cs)

/-- A whole number from its digits. Only zero may start with a zero. -/
def wholeNumber? (digits : List Char) : Option Token :=
  if digits.head? == some '0' then if digits.all (· == '0') then some (.int 0) else none
  else if Decimal.maxDigits < digits.length then some .hugeInt
  else (natOfDigits? digits).map .int

/-- The decimal number in front of a text. Only before the word `else` other numbers than zero may
start with a zero, and these have a fraction without places. -/
def decimalNumber? (cs : List Char) : Option (Token × List Char) := do
  let (run, rest) := digitRun isDigit cs
  let whole ← if run.isEmpty then some [] else joinGroups false run
  let (fraction, rest) ← match rest with
    | '.' :: r =>
      if r.head?.any isDigit then
        (joinGroups false (digitRun isDigit r).1).map fun ds => (some ds, (digitRun isDigit r).2)
      else some (some [], r)
    | r => some (none, r)
  let (exponent, rest) ← exponent? rest
  match rest with
  | c :: r =>
    if c == 'j' || c == 'J' then
      if endsNumber r then some (.imaginary, r) else none
    else ending whole fraction exponent rest
  | [] => ending whole fraction exponent rest
where
  ending (whole : List Char) (fraction : Option (List Char)) (exponent : Option Int)
      (rest : List Char) : Option (Token × List Char) := do
    if !endsNumber rest then none
    let places := fraction.getD []
    let n := ofDigits ((whole ++ places).map fun c => c.toNat - 48)
    let x := Decimal.ofScientific false n (exponent.getD 0 - places.length)
    if fraction.isSome || exponent.isSome then return (.float x, rest)
    match wholeNumber? whole with
    | some t => return (t, rest)
    | none => if rest.head? == some 'e' then return (.float x, rest) else none

def number? : List Char → Option (Token × List Char)
  | '0' :: c :: cs =>
    if c == 'x' || c == 'X' then basedNumber? 16 cs
    else if c == 'o' || c == 'O' then basedNumber? 8 cs
    else if c == 'b' || c == 'B' then basedNumber? 2 cs
    else decimalNumber? ('0' :: c :: cs)
  | cs => decimalNumber? cs

structure TextStyle where
  isRaw : Bool := false
  isBytes : Bool := false
  hasFields : Bool := false

def textStyle? (letters : List Char) : Option TextStyle :=
  match String.ofList (letters.map Char.toLower) with
  | "" => some {}
  | "u" => some {}
  | "r" => some { isRaw := true }
  | "b" => some { isBytes := true }
  | "f" => some { hasFields := true }
  | "br" => some { isRaw := true, isBytes := true }
  | "rb" => some { isRaw := true, isBytes := true }
  | "fr" => some { isRaw := true, hasFields := true }
  | "rf" => some { isRaw := true, hasFields := true }
  | _ => none

/-- The characters up to the closing quotes, and the rest. A text in single quotes ends with its
line, unless a backslash stands before the line end. -/
def untilQuotes (quotes : List Char) : List Char → Option (List Char × List Char)
  | [] => none
  | '\\' :: c :: cs => (untilQuotes quotes cs).map fun (s, rest) => ('\\' :: c :: s, rest)
  | c :: cs =>
    if quotes.isPrefixOf (c :: cs) then some ([], (c :: cs).drop quotes.length)
    else if c == '\n' && quotes.length == 1 then none
    else (untilQuotes quotes cs).map fun (s, rest) => (c :: s, rest)

def hexEscape? (count : Nat) (cs : List Char) : Option Nat :=
  if cs.length < count then none
  else ((cs.take count).mapM hexValue?).map fun ds => ds.foldl (fun n d => 16 * n + d) 0

def isOctal (c : Char) : Bool := '0' ≤ c && c ≤ '7'

def plainEscape? : Char → Option Char
  | '\\' => some '\\'
  | '\'' => some '\''
  | '"' => some '"'
  | 'a' => some '\x07'
  | 'b' => some '\x08'
  | 'f' => some '\x0c'
  | 'n' => some '\n'
  | 'r' => some '\r'
  | 't' => some '\t'
  | 'v' => some '\x0b'
  | _ => none

/-- The character an escape stands for and the number of characters behind the backslash that spell
it. An escape that stands for nothing is a backslash. -/
def escape? (isBytes : Bool) (cs : List Char) : Option (List Char × Nat) :=
  match cs with
  | [] => some (['\\'], 0)
  | '\n' :: _ => some ([], 1)
  | 'x' :: r => (hexEscape? 2 r).map fun n => ([Char.ofNat n], 3)
  | c :: r =>
    if let some d := plainEscape? c then some ([d], 1)
    else if isOctal c then
      let digits := (cs.take 3).takeWhile isOctal
      some ([Char.ofNat (digits.foldl (fun n d => 8 * n + (d.toNat - 48)) 0)], digits.length)
    else if isBytes then some (['\\'], 0)
    else if c == 'u' then (hexEscape? 4 r).map fun n => ([Char.ofNat n], 5)
    else if c == 'U' then do
      let n ← hexEscape? 8 r
      if n < 0x110000 then some ([Char.ofNat n], 9) else none
    else if c == 'N' then
      let name := r.takeWhile (· != '\x7d')
      if r.head? == some '\x7b' && name.length < r.length && 1 < name.length then
        some (['�'], name.length + 2)
      else none
    else some (['\\'], 0)

/-- The text that characters with escapes stand for. `skip` counts the characters of an escape that
are still to be passed over. -/
def unescape (isBytes : Bool) : (skip : Nat) → List Char → Option (List Char)
  | _, [] => some []
  | skip + 1, _ :: cs => unescape isBytes skip cs
  | 0, c :: cs =>
    if c == '\\' then do
      let (ds, width) ← escape? isBytes cs
      return ds ++ (← unescape isBytes width cs)
    else (unescape isBytes 0 cs).map (c :: ·)

def TextStyle.token (style : TextStyle) (content : List Char) : Token :=
  if style.hasFields then .pattern
  else if style.isBytes then
    if !style.isRaw && (unescape true 0 content).isNone then .badText
    else .bytes (content.all fun c => c.toNat < 128)
  else if style.isRaw then .text (String.ofList content)
  else (unescape false 0 content).elim .badText fun cs => .text (String.ofList cs)

def quoted? (cs : List Char) : Option (List Char × List Char) :=
  match cs with
  | q :: r =>
    if [q, q].isPrefixOf r then untilQuotes [q, q, q] (r.drop 2) else untilQuotes [q] r
  | [] => none

end FitCode.Program
