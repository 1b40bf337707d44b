/-! # Binary floating point and exact fractions

A finite number of a binary format is `m · 2 ^ q`. `BinaryFormat.nearest` rounds a fraction to the
format, halves to the even neighbour; the inverse direction reads the bits.
-/
namespace FitCode.Decimal

/-- `n / d` rounded to the nearest whole number, a half to the even one. -/
def roundDiv (n d : Nat) : Nat :=
  let q := n / d
  let r := n % d
  if 2 * r < d then q else if d < 2 * r then q + 1 else q + q % 2

def scaleTwo (n d : Nat) (k : Int) : Nat × Nat :=
  if 0 ≤ k then (n * Nat.pow 2 k.toNat, d) else (n, d * Nat.pow 2 (-k).toNat)

def scaleTen (n d : Nat) (k : Int) : Nat × Nat :=
  if 0 ≤ k then (n * Nat.pow 10 k.toNat, d) else (n, d * Nat.pow 10 (-k).toNat)

/-- The greatest `e` with `2 ^ e ≤ n / d`, for positive `n` and `d`. -/
def floorLogTwo (n d : Nat) : Int :=
  let e : Int := (Nat.log2 n : Int) - Nat.log2 d
  let (a, b) := scaleTwo n d (-e)
  if b ≤ a then e else e - 1

/-- A binary format: the number of bits of the significand and the range of the exponent of its
last bit. -/
structure BinaryFormat where
  precision : Nat
  minExp : Int
  maxExp : Int
  deriving Repr, DecidableEq

def double : BinaryFormat := ⟨53, -1074, 971⟩

def single : BinaryFormat := ⟨24, -149, 104⟩

/-- The significand and exponent of the number nearest to `n / d`, or nothing beyond the range. -/
def BinaryFormat.nearest (f : BinaryFormat) (n d : Nat) : Option (Nat × Int) :=
  if n = 0 then some (0, f.minExp)
  else
    let q := max (floorLogTwo n d - (f.precision - 1)) f.minExp
    let (a, b) := scaleTwo n d (-q)
    let m := roundDiv a b
    let (m, q) := if m = Nat.pow 2 f.precision then (Nat.pow 2 (f.precision - 1), q + 1) else (m, q)
    if q ≤ f.maxExp then some (m, q) else none

inductive Reading where
  | nan
  | infinite (negative : Bool)
  /-- The number `± m · 2 ^ q`. -/
  | finite (negative : Bool) (m : Nat) (q : Int)
  deriving Repr, DecidableEq

def read (x : Float) : Reading :=
  let bits := x.toBits.toNat
  let negative := bits / 0x8000000000000000 == 1
  let e : Nat := bits / 0x10000000000000 % 0x800
  let m : Nat := bits % 0x10000000000000
  if e = 2047 then if m = 0 then .infinite negative else .nan
  else if e = 0 then .finite negative m (-1074)
  else .finite negative (m + 0x10000000000000) ((e : Int) - 1075)

def withSign (negative : Bool) (x : Float) : Float := if negative then -x else x

def infinity : Float := Float.ofBits 0x7ff0000000000000

def nanValue : Float := Float.ofBits 0x7ff8000000000000

/-- The double `m · 2 ^ q`, for a significand and an exponent of the format. -/
def ofParts (m : Nat) (q : Int) : Float :=
  if m < 0x10000000000000 then Float.ofBits (UInt64.ofNat m)
  else Float.ofBits (UInt64.ofNat ((q + 1075).toNat * 0x10000000000000 + (m - 0x10000000000000)))

/-- The double nearest to `n / d`, or nothing beyond the range. -/
def ofFraction? (negative : Bool) (n d : Nat) : Option Float :=
  (double.nearest n d).map fun (m, q) => withSign negative (ofParts m q)

def ofInt? (n : Int) : Option Float := ofFraction? (n < 0) n.natAbs 1

def toSingle (x : Float) : Float :=
  match read x with
  | .finite negative m q =>
    let (n, d) := scaleTwo m 1 q
    match single.nearest n d with
    | some (m, q) =>
      let (n, d) := scaleTwo m 1 q
      (ofFraction? negative n d).getD x
    | none => withSign negative infinity
  | _ => x

end FitCode.Decimal
