import FitCode.Text.Digit

/-! # Replacing parts of a text -/
namespace FitCode.Text

/-- Replaces every occurrence of `pattern`, from the left and without overlap. `skip` counts the
characters of an occurrence that are still to be passed over. -/
def replaceFrom (pattern new : List Char) : (skip : Nat) → List Char → List Char
  | _, [] => []
  | skip + 1, _ :: cs => replaceFrom pattern new skip cs
  | 0, c :: cs =>
    if pattern.isPrefixOf (c :: cs) then new ++ replaceFrom pattern new (pattern.length - 1) cs
    else c :: replaceFrom pattern new 0 cs

def replaceAll (pattern new text : String) : String :=
  String.ofList (replaceFrom pattern.toList new.toList 0 text.toList)

/-- Replaces `$0`, `$1`, … by the given texts, one after the other. -/
def replaceSlots (texts : List String) (text : String) : String :=
  texts.zipIdx.foldl (fun t (new, i) => replaceAll ("$" ++ toString i) new t) text

/-- The number and width of a reference `\x7bk\x7d` in front of a text. -/
def reference? : List Char → Option (Nat × Nat)
  | '\x7b' :: cs =>
    let ds := cs.takeWhile isDigit
    match natOfDigits? ds, cs.drop ds.length with
    | some k, '\x7d' :: _ => some (k, ds.length + 2)
    | _, _ => none
  | _ => none

def quoteFrom (result : Nat → String) : (skip : Nat) → List Char → List Char
  | _, [] => []
  | skip + 1, _ :: cs => quoteFrom result skip cs
  | 0, c :: cs =>
    if c == '@' then
      match reference? cs with
      | some (k, width) => (result k).toList ++ quoteFrom result width cs
      | none => c :: quoteFrom result 0 cs
    else c :: quoteFrom result 0 cs

/-- Replaces every `@` followed by a reference by the result it names. -/
def quoteResults (result : Nat → String) (text : String) : String :=
  String.ofList (quoteFrom result 0 text.toList)

end FitCode.Text
