import FitCode.Text.Table.Normal
import Std.Data.HashMap

/-! # Names that count as equal

A character can stand for others: a letter with its accents, a ligature, a wide or a styled letter.
Two identifiers are the same name when they have the same normal form: every character is replaced
by the characters it stands for, combining characters are put into the order of their classes, and
what can be composed is composed.
-/
namespace FitCode.Text

def hexValue? (c : Char) : Option Nat :=
  if '0' ≤ c && c ≤ '9' then some (c.toNat - 48)
  else if 'a' ≤ c && c ≤ 'f' then some (c.toNat - 87)
  else if 'A' ≤ c && c ≤ 'F' then some (c.toNat - 55)
  else none

/-- A table that is being read: the finished rows, the numbers of the row at hand, latest first, and
the digits of the number at hand. -/
structure TableReader where
  rows : Array (List Nat) := #[]
  row : List Nat := []
  number : Option Nat := none

def TableReader.endNumber (r : TableReader) : TableReader :=
  match r.number with
  | some n => { r with row := n :: r.row, number := none }
  | none => r

def TableReader.step (r : TableReader) (c : Char) : TableReader :=
  match hexValue? c with
  | some d => { r with number := some (16 * r.number.getD 0 + d) }
  | none =>
    let r := r.endNumber
    if c == ';' then { r with rows := r.rows.push r.row.reverse, row := [] } else r

/-- The rows of a table of hexadecimal numbers, each ended by a semicolon. -/
def readRows (table : List String) : Array (List Nat) :=
  (table.foldl (fun r line => line.foldl TableReader.step r) ({} : TableReader)).rows

namespace Normal

def compositions : Std.HashMap (Nat × Nat) Nat :=
  (readRows Table.compositions).foldl (fun m row => m.insert (row.getD 0 0, row.getD 1 0)
    (row.getD 2 0)) ∅

/-- The characters that each character stands for in one step. -/
def expansions : Std.HashMap Nat (List Nat) :=
  let m := (readRows Table.expansions).foldl (fun m row => m.insert (row.headD 0) row.tail) ∅
  let m := (readRows Table.compositions).foldl (fun m row => m.insert (row.getD 2 0) (row.take 2)) m
  (readRows Table.replacements).foldl (fun m row => (List.range (row.getD 1 0)).foldl
    (fun m i => m.insert (row.headD 0 + i) [row.getD 2 0 + i]) m) m

def combiningClasses : Std.HashMap Nat Nat :=
  (readRows Table.combiningClasses).foldl (fun m row =>
    (List.range (row.getD 1 0 + 1 - row.headD 0)).foldl
      (fun m i => m.insert (row.headD 0 + i) (row.getD 2 0)) m) ∅

/-- The first syllable of Hangul. Syllables are numbered by their leading consonant, their vowel and
their trailing consonant, if any. -/
def syllables : Nat := 0xac00

def leads : Nat := 0x1100

def vowels : Nat := 0x1161

/-- The place before the first trailing consonant, which stands for none. -/
def trails : Nat := 0x11a7

def leadCount : Nat := 19

def vowelCount : Nat := 21

def trailCount : Nat := 28

def letters? (c : Nat) : Option (List Nat) :=
  if syllables ≤ c && c < syllables + leadCount * vowelCount * trailCount then
    let i := c - syllables
    let lead := leads + i / (vowelCount * trailCount)
    let vowel := vowels + i / trailCount % vowelCount
    if i % trailCount = 0 then some [lead, vowel] else some [lead, vowel, trails + i % trailCount]
  else none

/-- The characters that a character stands for in one step, if others than itself. -/
def parts? (c : Nat) : Option (List Nat) :=
  match expansions[c]? with
  | some cs => some cs
  | none => letters? c

/-- The characters that a character stands for in the end. No chain of steps is longer than four. -/
def expand : (steps : Nat) → Nat → List Nat
  | 0, c => [c]
  | steps + 1, c =>
    match parts? c with
    | some cs => cs.flatMap (expand steps)
    | none => [c]

def maxSteps : Nat := 8

/-- The class of a combining character; zero for all others. -/
def combiningClass (c : Nat) : Nat := combiningClasses.getD c 0

/-- Puts a character behind the characters of a text, given last one first, but before the combining
characters of a higher class at its end. -/
def place (c : Nat) : List Nat → List Nat
  | [] => [c]
  | d :: ds =>
    if 0 < combiningClass c && combiningClass c < combiningClass d then d :: place c ds
    else c :: d :: ds

def compose? (c d : Nat) : Option Nat :=
  if leads ≤ c && c < leads + leadCount && vowels ≤ d && d < vowels + vowelCount then
    some (syllables + ((c - leads) * vowelCount + (d - vowels)) * trailCount)
  else if syllables ≤ c && c < syllables + leadCount * vowelCount * trailCount
      && (c - syllables) % trailCount == 0 && trails < d && d < trails + trailCount then
    some (c + (d - trails))
  else compositions[(c, d)]?

/-- A text that is being composed: what is finished, last character first, the latest character that
others may still join, and the characters behind it, last one first. -/
structure Composer where
  done : List Nat := []
  base : Option Nat := none
  behind : List Nat := []

/-- A character joins the base unless another one of its class or a higher one, or any one that does
not combine, stands between them. -/
def Composer.step (s : Composer) (c : Nat) : Composer :=
  let free := match s.behind with
    | [] => true
    | d :: _ => combiningClass d != 0 && combiningClass d < combiningClass c
  match s.base.bind fun b => if free then compose? b c else none with
  | some b => { s with base := some b }
  | none =>
    if combiningClass c = 0 then
      { done := s.behind ++ s.base.toList ++ s.done, base := some c, behind := [] }
    else { s with behind := c :: s.behind }

def Composer.result (s : Composer) : List Nat := (s.behind ++ s.base.toList ++ s.done).reverse

def form (cs : List Nat) : List Nat :=
  let ordered := (cs.flatMap (expand maxSteps)).foldl (fun ds c => place c ds) []
  (ordered.reverse.foldl Composer.step {}).result

end Normal

/-- The normal form of an identifier. Identifiers of ASCII characters are their own. -/
def normalForm (name : String) : String :=
  if name.toList.all fun c => c.toNat < 128 then name
  else String.ofList ((Normal.form (name.toList.map Char.toNat)).map Char.ofNat)

end FitCode.Text
