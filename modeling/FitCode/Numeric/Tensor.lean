/-! # Arrays of numbers

A tensor has a shape and its entries in row order. Two tensors are combined entry by entry after
stretching axes of length one; axes are matched from the last one.
-/
namespace FitCode.Numeric

structure Tensor where
  shape : List Nat
  data : List Float
  deriving Repr

namespace Tensor

def volume (shape : List Nat) : Nat := shape.foldr (· * ·) 1

def positions : List Nat → List (List Nat)
  | [] => [[]]
  | d :: ds => (List.range d).flatMap fun i => (positions ds).map (i :: ·)

def offset : (shape position : List Nat) → Nat
  | _ :: ds, i :: is => i * volume ds + offset ds is
  | _, _ => 0

def ofFn (shape : List Nat) (f : List Nat → Float) : Tensor := ⟨shape, (positions shape).map f⟩

def ofList (xs : List Float) : Tensor := ⟨[xs.length], xs⟩

def scalar (x : Float) : Tensor := ⟨[], [x]⟩

def get (t : Tensor) (position : List Nat) : Float := (t.data[offset t.shape position]?).getD 0

/-- The entry that a position of a stretched tensor shows. -/
def stretched (t : Tensor) (position : List Nat) : Float :=
  let own := position.drop (position.length - t.shape.length)
  t.get (t.shape.zipWith (fun d i => if d = 1 then 0 else i) own)

/-- The common shape of two shapes, given with the last axis first. -/
def joinAxes : List Nat → List Nat → Option (List Nat)
  | [], ds => some ds
  | ds, [] => some ds
  | a :: as, b :: bs => do
    let d ← if a = b then some a else if a = 1 then some b else if b = 1 then some a else none
    return d :: (← joinAxes as bs)

def joinShapes (a b : List Nat) : Option (List Nat) :=
  (joinAxes a.reverse b.reverse).map List.reverse

def map (f : Float → Float) (t : Tensor) : Tensor := ⟨t.shape, t.data.map f⟩

/-- Combines two tensors entry by entry, if their shapes match. -/
def zipWith? (f : Float → Float → Float) (a b : Tensor) : Option Tensor := do
  let shape ← joinShapes a.shape b.shape
  return ofFn shape fun p => f (a.stretched p) (b.stretched p)

/-- A slice along the first axis; nothing beyond its end or without an axis. -/
def row? (t : Tensor) (i : Nat) : Option Tensor :=
  match t.shape with
  | [] => none
  | d :: ds => if i < d then some ⟨ds, (t.data.drop (i * volume ds)).take (volume ds)⟩ else none

/-- The tensor with the given rows, which must agree in shape. -/
def stack? : List Tensor → Option Tensor
  | [] => some ⟨[0], []⟩
  | t :: ts =>
    if ts.all fun u => u.shape == t.shape then
      some ⟨(ts.length + 1) :: t.shape, (t :: ts).flatMap (·.data)⟩
    else none

end Tensor

/-- Adds up eight numbers at a time, each lane on its own. -/
def laneSums : (lanes : List Float) → List Float → List Float × List Float
  | lanes, a :: b :: c :: d :: e :: f :: g :: h :: xs =>
    laneSums (lanes.zipWith (· + ·) [a, b, c, d, e, f, g, h]) xs
  | lanes, xs => (lanes, xs)

def blockSum (xs : List Float) : Float :=
  if xs.length < 8 then xs.foldl (· + ·) (-0.0)
  else
    match laneSums (xs.take 8) (xs.drop 8) with
    | ([a, b, c, d, e, f, g, h], rest) =>
      rest.foldl (· + ·) (((a + b) + (c + d)) + ((e + f) + (g + h)))
    | (_, rest) => rest.foldl (· + ·) 0

/-- The sum of many numbers by halves, each a multiple of eight. The first argument bounds the
halving. -/
def pairwiseSum : (halvings : Nat) → List Float → Float
  | 0, xs => blockSum xs
  | n + 1, xs =>
    if xs.length ≤ 128 then blockSum xs
    else
      let half := xs.length / 2
      let half := half - half % 8
      pairwiseSum n (xs.take half) + pairwiseSum n (xs.drop half)

/-- The sum of numbers. It starts from zero, so that it is never negative zero. -/
def total (xs : List Float) : Float :=
  if xs.isEmpty then 0 else 0 + pairwiseSum xs.length xs

end FitCode.Numeric
