import FitCode.Code.Line
import FitCode.Fault

/-! # Code buffers

A buffer is a list of lines into which lines can be inserted at an earlier position.
-/
namespace FitCode

abbrev Listing := List Line

namespace Listing

def append (b : Listing) (text : String) (depth : Int) : Listing :=
  b ++ Line.ofSnippet text depth

/-- Inserts lines so that the first one stands at position `i`. -/
def insert (b : Listing) (i : Int) (ls : List Line) : Except Fault Listing :=
  if 0 ≤ i && i ≤ b.length then .ok (b.take i.toNat ++ ls ++ b.drop i.toNat)
  else .error (.positionOutside i b.length)

/-- The lines from position `i` on; a negative position counts from the end. -/
def after (b : Listing) (i : Int) : Listing :=
  if 0 ≤ i then b.drop i.toNat else b.drop (b.length + i).toNat

def render (b : Listing) (indentSize : Int) : String := Line.renderAll indentSize b

def indentFault? (b : Listing) (indentSize : Int) : Option Fault :=
  b.findSome? fun l => if l.text == "" then none else Fault.ofLength? (l.depth * indentSize)

def print (b : Listing) (indentSize : Int) : Except Fault String :=
  (b.indentFault? indentSize).elim (.ok (b.render indentSize)) .error

end Listing

end FitCode
