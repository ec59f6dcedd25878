/-!
Double-precision numbers as exact data. Sums and products are computed exactly
and then rounded to the nearest number, of two equally near ones to the even one.
-/

namespace FluentQuery

/-- A double-precision number. The size of a finite one is a whole number of units, of which
`2 ^ 1074` make one. -/
inductive Binary64 where
  | finite (negative : Bool) (units : Nat)
  | infinite (negative : Bool)
  | nan
  deriving DecidableEq, Repr

/-- A point of the number line with both of its ends, measured in units. -/
inductive Position where
  | bottom
  | units (n : Int)
  | top
  deriving DecidableEq, Repr

namespace Position

def lt : Position → Position → Bool
  | units a, units b => decide (a < b)
  | bottom, bottom | top, top => false
  | bottom, _ | _, top => true
  | _, _ => false

theorem lt_irrefl (p : Position) : p.lt p = false := by cases p <;> simp [lt]

end Position

namespace Binary64

def unitsPerOne : Nat := Nat.pow 2 1074

/-- The size from which on numbers are infinite. -/
def unitsOfInfinity : Nat := Nat.pow 2 2098

/-- The quotient rounded to the nearest whole number, a half to the even one. -/
def roundHalfEven (n d : Nat) : Nat :=
  let q := n / d
  let r := n % d
  if 2 * r < d then q
  else if d < 2 * r then q + 1
  else if q % 2 = 0 then q else q + 1

/-- The distance of neighbouring numbers of a size: all have at most 53 binary digits. -/
def spacing (units : Nat) : Nat := Nat.pow 2 (units.log2 + 1 - 53)

/-- The number nearest to `n / d` units. -/
def ofRatio (negative : Bool) (n d : Nat) : Binary64 :=
  let step := spacing (n / d)
  let units := roundHalfEven n (d * step) * step
  if units < unitsOfInfinity then finite negative units else infinite negative

def zero (negative : Bool) : Binary64 := finite negative 0

/-- The number nearest to a whole number; none if that is too large. -/
def ofInt? (n : Int) : Option Binary64 :=
  match ofRatio (decide (n < 0)) (n.natAbs * unitsPerOne) 1 with
  | infinite _ => none
  | x => some x

/-- The number nearest to `digits · 10 ^ exponent`. -/
def ofDecimal (negative : Bool) (digits : Nat) (exponent : Int) : Binary64 :=
  let leading := exponent + (Nat.toDigits 10 digits).length
  if digits = 0 ∨ leading < -400 then zero negative
  else if 400 < leading then infinite negative
  else if 0 ≤ exponent then ofRatio negative (digits * Nat.pow 10 exponent.toNat * unitsPerOne) 1
  else ofRatio negative (digits * unitsPerOne) (Nat.pow 10 (-exponent).toNat)

def isZero : Binary64 → Bool
  | finite _ units => units == 0
  | _ => false

def neg : Binary64 → Binary64
  | finite s units => finite (!s) units
  | infinite s => infinite (!s)
  | nan => nan

/-- The signed size of a finite number. -/
def signed (negative : Bool) (units : Nat) : Int := if negative then -units else units

def add : Binary64 → Binary64 → Binary64
  | finite s a, finite t b =>
    let sum := signed s a + signed t b
    if sum = 0 then zero (s && t) else ofRatio (decide (sum < 0)) sum.natAbs 1
  | infinite s, infinite t => if s = t then infinite s else nan
  | infinite s, finite .. | finite .., infinite s => infinite s
  | nan, _ | _, nan => nan

def sub (a b : Binary64) : Binary64 := a.add b.neg

def mul : Binary64 → Binary64 → Binary64
  | finite s a, finite t b => ofRatio (s != t) (a * b) unitsPerOne
  | infinite s, infinite t => infinite (s != t)
  | infinite s, finite t a | finite s a, infinite t => if a = 0 then nan else infinite (s != t)
  | nan, _ | _, nan => nan

/-- Where a number stands, if it is one. -/
def position? : Binary64 → Option Position
  | finite s units => some (.units (signed s units))
  | infinite true => some .bottom
  | infinite false => some .top
  | nan => none

/-- The whole part of a finite number: its fraction is cut off. -/
def whole? : Binary64 → Option Int
  | finite s units => some (signed s (units / unitsPerOne))
  | _ => none

/-- Whether a number is finite and has no fraction. -/
def isWhole : Binary64 → Bool
  | finite _ units => units % unitsPerOne == 0
  | _ => false

theorem neg_neg (x : Binary64) : x.neg.neg = x := by cases x <;> simp [neg]

theorem add_comm (a b : Binary64) : a.add b = b.add a := by
  cases a <;> cases b <;> simp only [add]
  · simp only [Int.add_comm, Bool.and_comm]
  · grind

end Binary64

/-- Where a whole number stands. -/
def Position.ofInt (n : Int) : Position := .units (n * Binary64.unitsPerOne)

end FluentQuery
