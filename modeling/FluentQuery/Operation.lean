import FluentQuery.Expression

/-!
Operations on the values of a program: arithmetic, equality, order and hashes
of plain values, with SQL expressions wherever one is among the operands.
-/

namespace FluentQuery.Operation

open Sql

/-! ### Arithmetic -/

/-- A whole number; true and false count as one and zero. -/
def whole? : Value → Option Int
  | .int _ n => some n
  | .bool b => some (if b then 1 else 0)
  | _ => none

/-- Where a number stands; none for values that are no numbers. What is not a number stands
nowhere. -/
def position? : Value → Option (Option Position)
  | .float _ x => some x.position?
  | v => (whole? v).map fun n => some (.ofInt n)

/-- A number in double precision; one that is too large has none. -/
def float? : Value → Option Binary64
  | .float _ x => some x
  | v => (whole? v).bind Binary64.ofInt?

/-- How many items a sequence can have. -/
def sizeLimit : Nat := Nat.pow 2 40

/-- A list repeated `n` times, not at all if `n` is negative; none if it gets too long. -/
def times? {α : Type} (n : Int) (xs : List α) : Option (List α) :=
  if n < -Int.pow 2 63 || Int.pow 2 63 ≤ n then none
  else if xs.isEmpty then some []
  else if sizeLimit < n.toNat * xs.length then none
  else some (List.replicate n.toNat xs).flatten

/-- A sequence repeated as often as a whole number says. What never changes is not copied. -/
def repeatPlain (n : Int) (v : Value) : Run Value := do
  match v with
  | .text _ s =>
    if n = 1 then return v else newText (String.ofList (← orExternal (times? n s.toList)))
  | .list _ xs => newList (← orExternal (times? n xs))
  | .tuple _ xs => if n = 1 then return v else newTuple (← orExternal (times? n xs))
  | _ => fail .external

/-- Two sequences of one kind joined. What never changes is not copied. -/
def joinPlain (v w : Value) : Run Value := do
  match v, w with
  | .text _ s, .text _ t =>
    if t.isEmpty then return v else if s.isEmpty then return w else newText (s ++ t)
  | .list _ xs, .list _ ys => newList (xs ++ ys)
  | .tuple _ xs, .tuple _ ys =>
    if ys.isEmpty then return v else if xs.isEmpty then return w else newTuple (xs ++ ys)
  | _, _ => fail .external

def wholeArithmetic : Arithmetic → Int → Int → Option Int
  | .add, x, y => some (x + y)
  | .sub, x, y => some (x - y)
  | .mul, x, y => some (x * y)
  | .concat, _, _ => none

def floatArithmetic : Arithmetic → Binary64 → Binary64 → Option Binary64
  | .add, x, y => some (x.add y)
  | .sub, x, y => some (x.sub y)
  | .mul, x, y => some (x.mul y)
  | .concat, _, _ => none

/-- Arithmetic on plain values: numbers, and sequences that are joined or repeated. -/
def plainArithmetic (op : Arithmetic) (a b : Value) : Run Value :=
  match whole? a, whole? b with
  | some x, some y => do newInt (← orExternal (wholeArithmetic op x y))
  | wa, wb =>
    if (position? a).isSome && (position? b).isSome then do
      let x ← orExternal (float? a)
      newFloat (← orExternal (floatArithmetic op x (← orExternal (float? b))))
    else match op, wa, wb with
      | .add, _, _ => joinPlain a b
      | .mul, none, some n => repeatPlain n a
      | .mul, some n, none => repeatPlain n b
      | _, _, _ => fail .external

/-- `a op b`. -/
def arithmetic (op : Arithmetic) (a b : Value) : Run Value :=
  (Expression.arithmetic? op a b).getD (plainArithmetic op a b)

/-! ### Equality and order -/

/-- The items of a tuple, which a row is compared as. -/
def tupleItems? : Value → Option (List Value)
  | .tuple _ items | .row _ items => some items
  | _ => none

/-- Whether the items of two sequences agree, one after another. -/
def agree (equal : Value → Value → Run Bool) : List Value → List Value → Run Bool
  | [], [] => return true
  | x :: xs, y :: ys => do
    if x.same y then agree equal xs ys
    else if ← equal x y then agree equal xs ys
    else return false
  | _, _ => return false

/-- Whether every field of the first mapping is one of the second, with an equal value. -/
def fieldsAgree (equal : Value → Value → Run Bool) (other : List (String × Value)) :
    List (String × Value) → Run Bool
  | [] => return true
  | (k, x) :: rest =>
    match other.lookup k with
    | none => return false
    | some y => do
      if x.same y then fieldsAgree equal other rest
      else if ← equal x y then fieldsAgree equal other rest
      else return false

/-- Whether two values are equal, down to `depth` levels of values inside values. Expressions inside
are equal if the equation between them is true. -/
def equalTo : Nat → Value → Value → Run Bool
  | 0, _, _ => fail .external
  | depth + 1, a, b => do
    if let some equation := Expression.compare? .eq a b then
      return ← (← equation).truth
    let equal := equalTo depth
    match position? a, position? b, tupleItems? a, tupleItems? b with
    | some p, some q, _, _ => return p.isSome && p == q
    | _, _, some xs, some ys => agree equal xs ys
    | _, _, _, _ =>
      match a, b with
      | .list _ xs, .list _ ys => agree equal xs ys
      | .mapping i, .mapping j => do
        let fields ← i.read
        let others ← j.read
        if fields.length != others.length then return false
        fieldsAgree equal others fields
      | .text _ s, .text _ t => return s == t
      | .queryType s, .queryType t => return s.purpose == t.purpose && s.entity.same t.entity
      | .frame f, .frame g => agree equal [f.builder, f.query] [g.builder, g.query]
      | a, b => return a.same b

def equal (a b : Value) : Run Bool := equalTo 1000 a b

/-- Whether an order relation holds, given how the left side compares with the right. -/
def holds (op : Comparison) (lt gt : Bool) : Bool :=
  match op with
  | .lt => lt
  | .gt => gt
  | .le => !gt
  | .ge => !lt
  | _ => false

def wholeOrder (op : Comparison) (x y : Int) : Bool := holds op (x < y) (y < x)

/-- The order of two sequences: that of the first items that differ, or else of their lengths. -/
def orderItems (op : Comparison) (order : Value → Value → Run Bool) :
    List Value → List Value → Run Bool
  | x :: xs, y :: ys => do
    if x.same y then orderItems op order xs ys
    else if ← equal x y then orderItems op order xs ys
    else order x y
  | xs, ys => return wholeOrder op xs.length ys.length

/-- Whether two values of one kind stand in an order, down to `depth` levels. -/
def orderTo (op : Comparison) : Nat → Value → Value → Run Bool
  | 0, _, _ => fail .external
  | depth + 1, a, b =>
    match position? a, position? b, tupleItems? a, tupleItems? b with
    | some (some p), some (some q), _, _ => return holds op (p.lt q) (q.lt p)
    | some _, some _, _, _ => return false
    | _, _, some xs, some ys => orderItems op (orderTo op depth) xs ys
    | _, _, _, _ =>
      match a, b with
      | .text _ s, .text _ t => return holds op (s < t) (t < s)
      | .list _ xs, .list _ ys => orderItems op (orderTo op depth) xs ys
      | _, _ => fail .external

def plainComparison (op : Comparison) (a b : Value) : Run Value :=
  match op with
  | .eq => return .bool (← equal a b)
  | .ne => return .bool (!(← equal a b))
  | .lt | .gt | .le | .ge => return .bool (← orderTo op 1000 a b)
  | .is | .isNot | .like | .notLike => fail .external

/-- `a op b`. -/
def compare (op : Comparison) (a b : Value) : Run Value :=
  (Expression.compare? op a b).getD (plainComparison op a b)

/-! ### Hashes -/

/-- The modulus of the hashes of numbers, a prime of which `2 ^ 61` leaves one. -/
def hashModulus : Nat := Nat.pow 2 61 - 1

/-- The hash of a number by sign and size; no number has the hash -1. -/
def signedHash (negative : Bool) (size : Nat) : Int :=
  let h : Int := size % hashModulus
  let h := if negative then -h else h
  if h = -1 then -2 else h

/-- The hash of a number. Whole numbers have the same in all forms; a unit is `2 ^ 24` modulo the
modulus. -/
def numberHash? : Value → Option Int
  | .float _ (.finite s units) => some (signedHash s (units * Nat.pow 2 24))
  | .float _ (.infinite s) => some (if s then -314159 else 314159)
  | .text _ "" => some 0
  | v => (whole? v).map fun n => signedHash (decide (n < 0)) n.natAbs

/-- The parts whose hashes make up that of a value, and what kind of value it is. -/
def hashParts? : Value → Option (Option Purpose × List Value)
  | .tuple _ items | .row _ items => some (none, items)
  | .frame f => some (none, [f.builder, f.query])
  | .queryType t => some (some t.purpose, [t.entity])
  | _ => none

/-- Lists and mappings change, so they have no hash; nor has what contains one. -/
def isHashable : Nat → Value → Bool
  | 0, _ => false
  | depth + 1, v =>
    match v with
    | .list .. | .mapping _ => false
    | v => ((hashParts? v).map fun p => p.2.all (isHashable depth)).getD true

/-- Whether two values that have hashes have the same. -/
def sameHashTo : Nat → Value → Value → Bool
  | 0, a, b => a.same b
  | depth + 1, a, b =>
    match numberHash? a, numberHash? b, hashParts? a, hashParts? b with
    | some x, some y, _, _ => x == y
    | _, _, some (p, xs), some (q, ys) =>
      p == q && xs.length == ys.length && (xs.zip ys).all fun (x, y) => sameHashTo depth x y
    | _, _, _, _ =>
      match a, b with
      | .text _ s, .text _ t => s == t
      | a, b => a.same b

def sameHash (a b : Value) : Run Bool := do
  if !(isHashable 1000 a && isHashable 1000 b) then fail .external
  return sameHashTo 1000 a b

end FluentQuery.Operation
