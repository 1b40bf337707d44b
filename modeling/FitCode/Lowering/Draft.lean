import FitCode.Code.Listing
import FitCode.Graph.Reach
import FitCode.Options
import FitCode.Sizes
import FitCode.Text.Word
import Std.Data.TreeMap.Lemmas

/-! # The state of a lowering

Results and arrays are cached by serial number; a second table holds the loop depths at which they
are valid. All loops opened so far are kept; the stack lists those that are open, outermost first.
-/
namespace FitCode

structure Entry where
  text : String
  depth : Nat
  deriving Repr, DecidableEq

/-- Texts by serial number and, in a table of their own, the depths at which they are bound. The two
tables have the same keys. -/
structure Cache where
  texts : Std.TreeMap Nat String
  depths : Std.TreeMap Nat Nat
  same : ∀ k, texts.contains k = depths.contains k

namespace Cache

instance : EmptyCollection Cache := ⟨⟨∅, ∅, fun _ => by simp⟩⟩

def find? (m : Cache) (k : Nat) : Option Entry :=
  (m.texts[k]?).bind fun text => (m.depths[k]?).map fun depth => ⟨text, depth⟩

instance : GetElem? Cache Nat Entry fun m k => (m.find? k).isSome where
  getElem m k h := (m.find? k).get h
  getElem? m k := m.find? k

def contains (m : Cache) (k : Nat) : Bool := m.texts.contains k

def insert (m : Cache) (k : Nat) (e : Entry) : Cache where
  texts := m.texts.insert k e.text
  depths := m.depths.insert k e.depth
  same := fun l => by rw [Std.TreeMap.contains_insert, Std.TreeMap.contains_insert, m.same]

def erase (m : Cache) (k : Nat) : Cache where
  texts := m.texts.erase k
  depths := m.depths.erase k
  same := fun l => by rw [Std.TreeMap.contains_erase, Std.TreeMap.contains_erase, m.same]

def toList (m : Cache) : List (Nat × Entry) :=
  m.texts.toList.filterMap fun t => (m.depths[t.1]?).map fun depth => (t.1, ⟨t.2, depth⟩)

def below (m : Cache) (depth : Nat) : Cache where
  texts := m.texts.filter fun k _ => (m.depths[k]?).any (· < depth)
  depths := m.depths.filter fun _ d => d < depth
  same := fun k => by
    have h := m.same k
    simp only [Std.TreeMap.contains_eq_isSome_getElem?, Std.TreeMap.getElem?_filter'] at h ⊢
    cases ht : m.texts[k]? <;> cases hd : m.depths[k]? <;> simp_all [Option.filter]
    split <;> rfl

def orElse (m other : Cache) : Cache :=
  other.toList.foldl (fun m t => if m.contains t.1 then m else m.insert t.1 t.2) m

end Cache

structure Loop where
  vars : List Identity
  index : String
  /-- The depth of the loop's body; an outermost loop has depth one. -/
  depth : Nat
  length : Nat
  /-- The position of the loop's opening line. -/
  start : Nat
  /-- Lines to be placed in front of the loop when it closes. -/
  queued : List Line := []
  /-- Results set aside until the loop closes. -/
  results : Cache := ∅
  /-- Arrays set aside until the loop closes. -/
  arrays : Cache := ∅
  closed : Bool := false

def Loop.described (l : Loop) : String :=
  "LoopScope(" ++ l.index ++ ", depth=" ++ toString l.depth ++ ", length=" ++ toString l.length ++
    ", " ++ (if l.closed then "closed" else "open") ++ ")"

structure Setting where
  graph : Graph
  options : Options
  sizes : SizeTable

structure Draft where
  results : Cache := ∅
  arrays : Cache := ∅
  /-- Columns of the vector observables. -/
  columns : IdMap Int := []
  /-- Indexed access to the observables that open loops iterate. -/
  bindings : Std.TreeMap Nat String := ∅
  preamble : String := ""
  body : Listing := []
  loops : List Loop := []
  /-- Positions of the open loops in `loops`, outermost first. -/
  stack : List Nat := []
  tempCount : Nat := 0
  arrayCount : Nat := 0
  loopCount : Nat := 0
  taken : List String := []
  /-- The loop depth at which each generated name is bound, latest binding first. -/
  bindingDepths : List (String × Nat) := []
  finished : Bool := false
  /-- Loops opened by commands, in order. -/
  opened : List Nat := []
  /-- Custom and script nodes in the order in which they were lowered. -/
  calls : List Nat := []
  /-- The nodes being lowered, outermost first. -/
  running : List Identity := []
  nextSerial : Nat := 0

namespace Draft

def depth (c : Draft) : Nat := c.stack.length

def loop? (c : Draft) (h : Nat) : Option Loop := c.loops[h]?

def openLoops (c : Draft) : List Loop := c.stack.filterMap c.loop?

def innermost? (c : Draft) : Option Loop := c.stack.getLast?.bind c.loop?

def modifyLoop (c : Draft) (h : Nat) (f : Loop → Loop) : Draft :=
  { c with loops := c.loops.modify h f }

def queueAt (c : Draft) (depth : Nat) (ls : List Line) : Draft :=
  match c.stack[depth]? with
  | some h => c.modifyLoop h fun l => { l with queued := l.queued ++ ls }
  | none => c

/-- Whether a vertex has a result, or an access through an open loop. -/
def isResolved (c : Draft) (k : Nat) : Bool := c.bindings.contains k || c.results.contains k

def bindingDepth (c : Draft) (name : String) : Nat := (c.bindingDepths.lookup name).getD 0

/-- The deepest loop whose names an expression uses, at most the current depth. -/
def depthOf (c : Draft) (expr : String) : Nat :=
  min ((Text.names expr).foldl (fun d n => max d (c.bindingDepth n)) 0) c.depth

end Draft

/-- Steps of a lowering. A failed step keeps what it changed before it failed. -/
abbrev Emit := ExceptT Fault (StateM Draft)

namespace Emit

variable {α : Type}

def ofExcept : Except Fault α → Emit α
  | .ok a => pure a
  | .error e => throw e

def attempt (x : Emit α) : Emit (Except Fault α) := ExceptT.lift x.run

end Emit

end FitCode
