import FitCode.Text.Table.Hidden

/-! # Quoted texts

A text is quoted with apostrophes unless it holds an apostrophe and no double quote. Backslash,
the quote itself and every character without a printed form are escaped.
-/
namespace FitCode.Text

def isPrinted (c : Char) : Bool :=
  if c.toNat < 128 then 32 ≤ c.toNat && c.toNat < 127 else !Table.hidden.contains c

def hexDigits (width n : Nat) : List Char :=
  let ds := Nat.toDigits 16 n
  List.replicate (width - ds.length) '0' ++ ds

def hexEscape (c : Char) : List Char :=
  let n := c.toNat
  if n < 0x100 then '\\' :: 'x' :: hexDigits 2 n
  else if n < 0x10000 then '\\' :: 'u' :: hexDigits 4 n
  else '\\' :: 'U' :: hexDigits 8 n

def escapeChar (shown : Char → Bool) (quote c : Char) : List Char :=
  if c == quote || c == '\\' then ['\\', c]
  else if c == '\n' then ['\\', 'n']
  else if c == '\r' then ['\\', 'r']
  else if c == '\t' then ['\\', 't']
  else if shown c then [c]
  else hexEscape c

def quoteFor (cs : List Char) : Char :=
  if cs.contains '\'' && !cs.contains '"' then '"' else '\''

def quoteWith (shown : Char → Bool) (cs : List Char) : List Char :=
  let q := quoteFor cs
  q :: cs.flatMap (escapeChar shown q) ++ [q]

def quoted (text : String) : String := String.ofList (quoteWith isPrinted text.toList)

/-- The quoted form with everything outside ASCII escaped. -/
def quotedAscii (cs : List Char) : List Char :=
  quoteWith (fun c => isPrinted c && c.toNat < 128) cs

end FitCode.Text
