import FitCode.Decimal.Binary

/-! # Shortest decimal texts of numbers

Among the decimals that read back as a given number, the shortest are those with the fewest digits,
and of these the nearest to the number is taken. They are written positionally from `0.0001` up to
`10 ^ 16` and with an exponent of at least two digits elsewhere.
-/
namespace FitCode.Decimal

def digitsOf (n : Nat) : List Char := Nat.toDigits 10 n

/-- The greatest `e` with `10 ^ e ≤ n / d`, for positive `n` and `d`. -/
def floorLogTen (n d : Nat) : Int :=
  if d ≤ n then (digitsOf (n / d)).length - 1
  else
    let j := (digitsOf (d / n)).length - 1
    if d ≤ n * Nat.pow 10 j then -(j : Int) else -(j + 1 : Int)

structure Scaled where
  digits : Nat
  exponent : Int
  deriving Repr, DecidableEq

/-- The open or closed interval of fractions that round to `m · 2 ^ q`, in units of
`2 ^ (q - 2)`. -/
structure Interval where
  low : Nat
  mid : Nat
  high : Nat
  closed : Bool

def BinaryFormat.interval (f : BinaryFormat) (m : Nat) (q : Int) : Interval where
  low := 4 * m - (if m = Nat.pow 2 (f.precision - 1) && f.minExp < q then 1 else 2)
  mid := 4 * m
  high := 4 * m + 2
  closed := m % 2 == 0

def Interval.mem (i : Interval) (a b : Nat) : Bool :=
  if i.closed then i.low * b ≤ a && a ≤ i.high * b else i.low * b < a && a < i.high * b

/-- The best decimal with `k + 1` digits whose leading digit stands for `10 ^ e`, if one reads
back. `unit` is the scale of the interval. -/
def BinaryFormat.best? (i : Interval) (unit : Int) (e : Int) (k : Nat) : Option Scaled :=
  let exponent := e - k
  -- the interval's scale divided by the grid's
  let (p, q) := scaleTwo 1 1 unit
  let (n, d) := scaleTen p q (-exponent)
  let below := i.mid * n / d
  let fits := fun c => i.mem (c * d) n
  let twice := 2 * i.mid * n
  let nearer := if twice < (2 * below + 1) * d then below
    else if (2 * below + 1) * d < twice then below + 1 else below + below % 2
  if fits below && fits (below + 1) then some ⟨nearer, exponent⟩
  else if fits below then some ⟨below, exponent⟩
  else if fits (below + 1) then some ⟨below + 1, exponent⟩
  else none

/-- The shortest decimal that reads back as `m · 2 ^ q`, for positive `m`. -/
def BinaryFormat.shortest (f : BinaryFormat) (m : Nat) (q : Int) : Scaled :=
  let (n, d) := scaleTwo m 1 q
  let e := floorLogTen n d
  ((List.range 17).findSome? (BinaryFormat.best? (f.interval m q) (q - 2) e)).getD ⟨m, q⟩

def signText (negative : Bool) (cs : List Char) : List Char := if negative then '-' :: cs else cs

def exponentText (e : Int) : List Char :=
  let ds := digitsOf e.natAbs
  'e' :: (if e < 0 then '-' else '+') :: List.replicate (2 - ds.length) '0' ++ ds

/-- Digits with the decimal point after the first `point` of them. -/
def positional (ds : List Char) (point : Int) : List Char :=
  if point ≤ 0 then '0' :: '.' :: List.replicate (-point).toNat '0' ++ ds
  else
    let p := point.toNat
    if ds.length ≤ p then ds ++ List.replicate (p - ds.length) '0' ++ ['.', '0']
    else ds.take p ++ '.' :: ds.drop p

def writeShortest (d : Scaled) : List Char :=
  let all := digitsOf d.digits
  let point : Int := all.length + d.exponent
  let ds := (all.reverse.dropWhile (· == '0')).reverse
  if -4 < point && point ≤ 16 then positional ds point
  else
    let mantissa := match ds with
      | c :: c' :: cs => c :: '.' :: c' :: cs
      | cs => cs
    mantissa ++ exponentText (point - 1)

/-- The shortest text of a number that is exact in the format. -/
def BinaryFormat.text (f : BinaryFormat) (x : Float) : String :=
  match read x with
  | .nan => "nan"
  | .infinite negative => if negative then "-inf" else "inf"
  | .finite negative m q =>
    let body := if m = 0 then ['0', '.', '0']
      else
        let (n, d) := scaleTwo m 1 q
        let (m, q) := (f.nearest n d).getD (m, q)
        writeShortest (f.shortest m q)
    String.ofList (signText negative body)

def shortText (x : Float) : String := double.text x

end FitCode.Decimal
