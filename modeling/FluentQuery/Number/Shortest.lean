import FluentQuery.Number.Binary64

/-!
The text of a double-precision number: the fewest digits that read back as the
number, the nearest to it of those, in positional notation unless the number is
very large or very small.
-/

namespace FluentQuery.Binary64

/-- The power of ten of the leading digit of a finite size other than zero. -/
def leadingPower (units : Nat) : Int :=
  (Nat.toDigits 10 (units * Nat.pow 10 400 / unitsPerOne)).length - 401

/-- A size measured in steps of `10 ^ power`, as a quotient. -/
def inSteps (units : Nat) (power : Int) : Nat × Nat :=
  if 0 ≤ power then (units, unitsPerOne * Nat.pow 10 power.toNat)
  else (units * Nat.pow 10 (-power).toNat, unitsPerOne)

/-- The whole number of steps of `10 ^ power` that reads back as the size, the nearer one of two. -/
def reading? (units : Nat) (power : Int) : Option Nat :=
  let (n, d) := inSteps units power
  let nearest := roundHalfEven n d
  let other := if nearest = n / d then nearest + 1 else n / d
  [nearest, other].find? fun c => ofDecimal false c power = finite false units

/-- The fewest digits that read back as the size, and the power of ten of the last. -/
def shortest (units : Nat) : Nat × Int :=
  let leading := leadingPower units
  let found := (List.range 17).findSome? fun (k : Nat) =>
    let power := leading - (k : Nat)
    (reading? units power).map (·, power)
  found.getD (0, 0)

/-- Strips the trailing zeros of reversed digits, keeping track of the power of ten. -/
def stripZeros : List Char → Int → List Char × Int
  | '0' :: r, power => stripZeros r (power + 1)
  | ds, power => (ds.reverse, power)

/-- Digits with a point among them, behind them or before them. -/
def positional (ds : List Char) (power : Int) : List Char :=
  if 0 ≤ power then ds ++ List.replicate power.toNat '0' ++ ['.', '0']
  else
    let places := (-power).toNat
    if places < ds.length then
      ds.take (ds.length - places) ++ '.' :: ds.drop (ds.length - places)
    else '0' :: '.' :: List.replicate (places - ds.length) '0' ++ ds

/-- One digit before the point, then a signed power of ten of at least two digits. -/
def scientific (ds : List Char) (leading : Int) : List Char :=
  let power := Nat.toDigits 10 leading.natAbs
  let padded := if power.length < 2 then '0' :: power else power
  let mantissa := match ds with
    | [] => []
    | [d] => [d]
    | d :: r => d :: '.' :: r
  mantissa ++ 'e' :: (if leading < 0 then '-' else '+') :: padded

def sizeText (units : Nat) : List Char :=
  if units = 0 then ['0', '.', '0']
  else
    let (c, power) := shortest units
    let (ds, power) := stripZeros (Nat.toDigits 10 c).reverse power
    let leading := power + ds.length - 1
    if -4 ≤ leading ∧ leading < 16 then positional ds power else scientific ds leading

private def signText (negative : Bool) : String := if negative then "-" else ""

def text : Binary64 → String
  | finite s units => signText s ++ String.ofList (sizeText units)
  | infinite s => signText s ++ "inf"
  | nan => "nan"

end FluentQuery.Binary64
