import FitCode.Decimal.Shortest

/-! # Scientific notation with a fixed number of places -/
namespace FitCode.Decimal

/-- `n / d` as a decimal with `places + 1` digits, halves to the even digit. -/
def roundPlaces (places n d : Nat) : Scaled :=
  if n = 0 then ⟨0, -places⟩
  else
    let e := floorLogTen n d
    let (a, b) := scaleTen n d (places - e)
    let r := roundDiv a b
    if r = Nat.pow 10 (places + 1) then ⟨Nat.pow 10 places, e + 1 - places⟩ else ⟨r, e - places⟩

/-- One digit, the point, `places` digits and the exponent. -/
def scientific (places : Nat) (x : Float) : String :=
  match read x with
  | .nan => "nan"
  | .infinite negative => if negative then "-inf" else "inf"
  | .finite negative m q =>
    let (n, d) := scaleTwo m 1 q
    let r := roundPlaces places n d
    let ds := digitsOf r.digits
    let ds := List.replicate (places + 1 - ds.length) '0' ++ ds
    let e := if m = 0 then 0 else r.exponent + places
    String.ofList (signText negative (ds.take 1 ++ '.' :: ds.drop 1 ++ exponentText e))

end FitCode.Decimal
