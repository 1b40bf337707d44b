import FitCode.Text.Digit
import FitCode.Text.Subject

/-! # Templates with numbered holes

A template is literal text with fields in braces; doubled braces stand for themselves. A field
names a positional argument by number, or takes the next one if it names none, may pick a character
or an attribute of it, may quote it, and may pad or cut it. Arguments are texts.

Scanning never fails: a malformed tail becomes a `broken` piece, because the fields in front of it
are filled first and their failures win.
-/
namespace FitCode.Text

inductive TemplateError where
  /-- The template or a specification in it cannot be read. -/
  | malformed
  /-- A field names an argument by something that is not a number. -/
  | unknownName
  /-- An argument number or a character position is out of range. -/
  | outOfRange
  /-- An item is picked by something that is not a number, or from something without items. -/
  | notAPosition
  /-- A field asks for an attribute that is not there. -/
  | noAttribute
  /-- Something other than a text is to be padded or cut. -/
  | notPaddable
  /-- The padded text would not fit into memory. -/
  | tooWide
  deriving Repr, DecidableEq

namespace Template

structure Field where
  name : List Char
  conversion : Option Char
  spec : List Char
  deriving Repr, DecidableEq

inductive Piece where
  | char (c : Char)
  | field (f : Field)
  | broken
  deriving Repr, DecidableEq

inductive Mode where
  | literal
  | name (read : List Char) (inBracket : Bool)
  | conversion (name : List Char)
  | spec (name : List Char) (conversion : Option Char) (read : List Char) (nesting : Nat)

/-- Reads a template. What has been read of a field is kept backwards. -/
def scan : Mode → List Char → List Piece
  | .literal, [] => []
  | .literal, '{' :: '{' :: cs => .char '{' :: scan .literal cs
  | .literal, '}' :: '}' :: cs => .char '}' :: scan .literal cs
  | .literal, c :: cs =>
    if c == '{' then scan (.name [] false) cs
    else if c == '}' then [.broken]
    else .char c :: scan .literal cs
  | .name _ _, [] => [.broken]
  | .name read true, c :: cs => scan (.name (c :: read) (c != ']')) cs
  | .name read false, c :: cs =>
    if c == '{' then [.broken]
    else if c == '}' then .field ⟨read.reverse, none, []⟩ :: scan .literal cs
    else if c == ':' then scan (.spec read.reverse none [] 0) cs
    else if c == '!' then scan (.conversion read.reverse) cs
    else scan (.name (c :: read) (c == '[')) cs
  | .conversion name, c :: d :: cs =>
    if d == '}' then .field ⟨name, some c, []⟩ :: scan .literal cs
    else if d == ':' then scan (.spec name (some c) [] 0) cs
    else [.broken]
  | .conversion _, _ => [.broken]
  | .spec _ _ _ _, [] => [.broken]
  | .spec name conv read nesting, c :: cs =>
    if c == '}' then
      match nesting with
      | 0 => .field ⟨name, conv, read.reverse⟩ :: scan .literal cs
      | n + 1 => scan (.spec name conv (c :: read) n) cs
    else if c == '{' then scan (.spec name conv (c :: read) (nesting + 1)) cs
    else scan (.spec name conv (c :: read) nesting) cs

inductive Access where
  | item (key : List Char)
  | attribute (name : List Char)
  | broken

inductive AccessMode where
  | start
  | item (read : List Char)
  | attribute (read : List Char)

def accesses : AccessMode → List Char → List Access
  | .start, [] => []
  | .start, c :: cs =>
    if c == '[' then accesses (.item []) cs
    else if c == '.' then accesses (.attribute []) cs
    else [.broken]
  | .item _, [] => [.broken]
  | .item read, c :: cs =>
    if c == ']' then .item read.reverse :: accesses .start cs
    else accesses (.item (c :: read)) cs
  | .attribute read, [] => [.attribute read.reverse]
  | .attribute read, c :: cs =>
    if c == '[' then .attribute read.reverse :: accesses (.item []) cs
    else if c == '.' then .attribute read.reverse :: accesses (.attribute []) cs
    else accesses (.attribute (c :: read)) cs

/-- Positions and widths are bounded by the largest signed 64-bit number. -/
def maxNumber : Nat := 0x7fffffffffffffff

/-- A number, if the text is a run of digits; too many digits are refused as soon as they are
read. -/
def number? (read : Nat) : List Char → Except TemplateError (Option Nat)
  | [] => .ok (some read)
  | c :: cs =>
    match digitValue? c with
    | none => .ok none
    | some d =>
      if 10 * read + d > maxNumber then .error .malformed else number? (10 * read + d) cs

def position? (cs : List Char) : Except TemplateError (Option Nat) :=
  if cs.isEmpty then .ok none else number? 0 cs

/-- How the fields of a template number their arguments so far. -/
inductive Numbering where
  | undecided
  | automatic (next : Nat)
  | manual
  deriving Repr, DecidableEq

def select (n : Numbering) (name : List Char) : Except TemplateError (Nat × Numbering) := do
  match ← position? name, n with
  | some _, .automatic _ => .error .malformed
  | some i, _ => .ok (i, .manual)
  | none, n =>
    if name.isEmpty then
      match n with
      | .undecided => .ok (0, .automatic 1)
      | .automatic i => .ok (i, .automatic (i + 1))
      | .manual => .error .malformed
    else .error .unknownName

def itemAt (s : Subject) (i : Nat) : Except TemplateError Subject :=
  match s with
  | .text cs => (cs[i]?).elim (.error .outOfRange) fun c => .ok (.text [c])
  | .tuple ss => (ss[i]?).elim (.error .outOfRange) .ok
  | _ => .error .notAPosition

def access (s : Subject) : Access → Except TemplateError Subject
  | .broken => .error .malformed
  | .attribute name =>
    if name.isEmpty then .error .malformed
    else (s.attribute? (String.ofList name)).elim (.error .noAttribute) .ok
  | .item key => do
    match ← position? key with
    | some i => itemAt s i
    | none => .error (if key.isEmpty then .malformed else .notAPosition)

def convert (address : List Char → Nat) (s : Subject) : Option Char → Except TemplateError Subject
  | none => .ok s
  | some c =>
    if c == 's' then .ok (.text (s.shown address))
    else if c == 'r' then .ok (.text (s.described address))
    else if c == 'a' then .ok (.text (s.describedAscii address))
    else .error .malformed

def isAlign (c : Char) : Bool := c == '<' || c == '>' || c == '=' || c == '^'

structure Padding where
  fill : Char
  align : Char
  width : Option Nat
  precision : Option Nat

def Padding.apply (p : Padding) (text : List Char) : List Char :=
  let kept := (p.precision.map text.take).getD text
  let room := p.width.getD 0 - kept.length
  let before := if p.align == '>' then room else if p.align == '^' then room / 2 else 0
  List.replicate before p.fill ++ kept ++ List.replicate (room - before) p.fill

/-- The digits in front, and their number if there are any. -/
def leadingNumber (read : Option Nat) :
    List Char → Except TemplateError (Option Nat × List Char)
  | [] => .ok (read, [])
  | c :: cs =>
    match digitValue? c with
    | none => .ok (read, c :: cs)
    | some d =>
      let n := 10 * read.getD 0 + d
      if n > maxNumber then .error .malformed else leadingNumber (some n) cs

/-- Reads `[[fill]align][0][width][.precision][s]`. Signs, `#`, `z`, `=` and separators are for
numbers and refused. -/
def padding (spec : List Char) : Except TemplateError Padding := do
  let (fill, align, rest) := match spec with
    | f :: a :: cs =>
      if isAlign a then (some f, a, cs)
      else if isAlign f then (none, f, a :: cs)
      else (none, '<', spec)
    | [a] => if isAlign a then (none, a, []) else (none, '<', spec)
    | [] => (none, '<', spec)
  if align == '=' then .error .malformed
  let (fill, rest) := match fill, rest with
    | none, '0' :: cs => ('0', cs)
    | none, cs => (' ', cs)
    | some f, cs => (f, cs)
  let (width, rest) ← leadingNumber none rest
  let (precision, rest) ← match rest with
    | '.' :: cs => do
      let (p, cs) ← leadingNumber none cs
      if p.isNone then .error .malformed
      pure (p, cs)
    | cs => pure (none, cs)
  if rest == [] || rest == ['s'] then .ok ⟨fill, align, width, precision⟩ else .error .malformed

def maxWidth : Nat := 0x1000000000

/-- The text of a subject under a specification. Without one anything has its text. -/
def format (address : List Char → Nat) (s : Subject) (spec : List Char) : Except TemplateError (List Char) :=
  if spec.isEmpty then .ok (s.shown address)
  else
    match s with
    | .text cs => do
      let p ← padding spec
      if maxWidth ≤ p.width.getD 0 then .error .tooWide else .ok (p.apply cs)
    | _ => .error .notPaddable

/-- Fills the pieces in order; `fillSpec` fills a specification that holds fields of its own. -/
def fillPieces (address : Nat → List Char → Nat) (args : List (List Char))
    (fillSpec : Numbering → List Char → Except TemplateError (List Char × Numbering)) :
    Numbering → List Piece → Except TemplateError (List Char × Numbering)
  | n, [] => .ok ([], n)
  | n, .char c :: ps => do
    let (rest, n) ← fillPieces address args fillSpec n ps
    .ok (c :: rest, n)
  | _, .broken :: _ => .error .malformed
  | n, .field f :: ps => do
    let isPlain := fun c => c != '.' && c != '['
    let (i, n) ← select n (f.name.takeWhile isPlain)
    let some arg := args[i]? | .error .outOfRange
    let subject ← (accesses .start (f.name.dropWhile isPlain)).foldlM access (.text arg)
    let subject ← convert (address i) subject f.conversion
    let (spec, n) ← if f.spec.contains '{' then fillSpec n f.spec else .ok (f.spec, n)
    let text ← format (address i) subject spec
    let (rest, n) ← fillPieces address args fillSpec n ps
    .ok (text ++ rest, n)

/-- Fills a template in which specifications nest at most `depth` levels, itself counted. -/
def fill (address : Nat → List Char → Nat) (args : List (List Char)) :
    (depth : Nat) → Numbering → List Char → Except TemplateError (List Char × Numbering)
  | 0, _, _ => .error .malformed
  | depth + 1, n, cs => fillPieces address args (fill address args depth) n (scan .literal cs)

end Template

def fillTemplate (address : Nat → List Char → Nat) (template : String) (args : List String) :
    Except TemplateError String := do
  let (cs, _) ← Template.fill address (args.map String.toList) 2 .undecided template.toList
  .ok (String.ofList cs)

end FitCode.Text
