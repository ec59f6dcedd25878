import FluentQuery.Sql.Function
import FluentQuery.Sql.Precedence

/-!
Building expressions from operands: arithmetic, comparison, negation, and the
connectives, which flatten nested uses of themselves and drop the constants
that cannot matter.
-/

namespace FluentQuery.Sql

namespace SqlType

def isSequence (t : SqlType) : Bool := t = string || t = array

/-- Whether values of this type can be joined to a sequence; those of unknown type are taken to. -/
def joins (t : SqlType) : Bool := t.isSequence || t = unknown

end SqlType

/-- The operator and type of `left op right`: a sum of sequences is a concatenation, and the type of
a sequence spreads to an operand of unknown type. -/
def Arithmetic.resolve (op : Arithmetic) : SqlType → SqlType → Arithmetic × SqlType
  | .string, right => (if op = .add ∧ right.joins then .concat else op, .string)
  | .array, right => (if op = .add ∧ right.joins then .concat else op, .array)
  | .unknown, right =>
    if op = .sub then (op, .unknown)
    else (if op = .add ∧ right.isSequence then .concat else op, right)
  | .integer, .decimal | .decimal, _ => (op, .decimal)
  | .integer, .moment => (op, if op = .add then .moment else .integer)
  | .integer, _ => (op, .integer)
  | .boolean, _ => (op, .boolean)
  | .moment, _ => (op, .moment)

namespace Term

/-- The operands a term contributes to a chain of `op`: its own, if it is such a chain. -/
def summands (op : Arithmetic) (type : SqlType) : Term → List Term
  | arithmetic op' type' operands =>
    if op' = op ∧ type' = type ∧ op.flattens then operands else [arithmetic op' type' operands]
  | t => [t]

def calculate (op : Arithmetic) (left right : Term) : Term :=
  let (op, type) := op.resolve left.type right.type
  arithmetic op type (left.summands op type ++ right.summands op type)

/-- A boolean-valued column, function or parameter that stands where a condition is wanted. -/
def asCondition (key : ItemKey) (t : Term) : Term :=
  match t with
  | column _ | function .. | literal _ | parameter .. | constant _ =>
    if t.type = .boolean then condition false key t else t
  | t => t

/-- Whether a term can be an operand: a cast to a type that is not known has no operators. -/
def isOperand : Term → Bool
  | cast (some _) .. => false
  | _ => true

/-- Whether `asCondition` leaves the term as it is. -/
def isUnchanged (t : Term) : Bool :=
  match t with
  | column _ | function .. | literal _ | parameter .. | constant _ => t.type != .boolean
  | _ => true

/-- The logical opposite. `fresh` numbers the parameter of a negated membership test. Two sides that
are enclosed are no longer one and the same. -/
def negate (fresh : Nat) (key : ItemKey) : Term → Term
  | compare op reflexive left right =>
    compare op.negate (reflexive && !left.enclosedIn .comparison) left right
  | among negated t values => among (!negated) t { values with id := fresh }
  | constant .null => negation .unknown (constant .null)
  | constant c => constant c.negate
  | condition _ _ (constant c) => constant c.negate
  | condition negated inner t => condition (!negated) inner t
  | group op operands => negation .unknown (group op operands)
  | nonempty s => negation .boolean (nonempty s)
  | negation .boolean t => negation .boolean (negation .boolean t)
  | arithmetic op type [a, b] =>
    if type = .boolean then condition true key (arithmetic op type [a, b])
    else negation .unknown (arithmetic op type [a, b])
  | arithmetic op type operands => negation .unknown (arithmetic op type operands)
  | t => if t.type = .boolean then condition true key t else negation .unknown t

end Term

/-- An expression together with what makes it the same one as another. -/
structure Operand where
  key : ItemKey
  term : Term

namespace Operand

def constant (c : Constant) : Operand := ⟨.constant c, .constant c⟩

def asCondition (x : Operand) : Term := x.term.asCondition x.key

end Operand

namespace Connective

/-- The constant that leaves the others as they are. -/
def neutral : Connective → Constant
  | .and => .true
  | .or => .false

/-- The constant that decides the whole. -/
def absorbing : Connective → Constant
  | .and => .false
  | .or => .true

def isConstant (c : Constant) : Term → Bool
  | .constant c' => c == c'
  | _ => false

/-- The operands an expression contributes to a group of `op`: its own, if it is such a group. -/
def operands (op : Connective) (x : Operand) : List Term :=
  match x.term with
  | .group op' ts => if op' = op then ts else [.group op' ts]
  | _ => [x.asCondition]

/-- Joins conditions: an absorbing constant decides, neutral ones are dropped, nested uses are
flattened, and a single remaining operand is taken as it is. No conditions at all make an empty
group. -/
def join (op : Connective) (xs : List Operand) : Term :=
  if xs.isEmpty then .group op []
  else if xs.any (isConstant op.absorbing ·.term) then (Operand.constant op.absorbing).asCondition
  else match xs.filter (fun x => !isConstant op.neutral x.term) with
    | [] => (Operand.constant op.neutral).asCondition
    | [x] => x.asCondition
    | kept => .group op (kept.flatMap op.operands)

end Connective

namespace Comparison

/-- Comparison with NULL, true or false, which no ordering and no pattern allows. -/
def withConstant? (op : Comparison) (reflexive : Bool) (t : Term) (c : Constant) : Option Term :=
  match op, c with
  | .eq, .null => some (.compare .is false t (.constant c))
  | .ne, .null => some (.compare .isNot false t (.constant c))
  | .eq, _ => some (.compare .eq reflexive t (.constant c))
  | .ne, _ => some (.compare .ne reflexive t (.constant c))
  | _, _ => none

end Comparison

namespace Term

/-- Whether `b` is a special case of the kind of expression that `a` is, as a standard function is
of a call. A comparison of the two is made from the side of `b`. -/
def isSpecializedBy (a b : Term) : Bool :=
  match a, b with
  | function f _ _, function g _ _ => !Function.isStandard f && Function.isStandard g
  | negation .., condition .. | negation .., nonempty _ => true
  | sorted .., condition .. | sorted .., nonempty _ => true
  | distinct _, condition .. | distinct _, nonempty _ => true
  | arithmetic _ _ (_ :: _ :: _ :: _), group .. => true
  | _, _ => false

theorem not_isSpecializedBy_self (t : Term) : t.isSpecializedBy t = false := by
  cases t <;> simp [isSpecializedBy]

end Term

namespace Placeholder

/-- The parameter for a plain value beside `other`. -/
def beside (id : Nat) (other : Term) (v : Literal) : Placeholder :=
  ⟨id, other.parameterBase, v, v.typeBeside other.type⟩

/-- The parameter for a plain value among the arguments of a function. -/
def argument (id : Nat) (function : String) (v : Literal) : Placeholder :=
  ⟨id, function, v, v.type⟩

end Placeholder

end FluentQuery.Sql

namespace FluentQuery.Relationship

open Sql

private def equate (a b : ColumnRef) : Term := .compare .eq false (.column a) (.column b)

/-- The condition under which rows of `owner` and `target` belong together; `pair` is the pairing
table, if the relationship goes through one. -/
def condition (r : Relationship) (owner target pair : Source) : Term :=
  match r.link with
  | .toOne c => equate ⟨target, .id⟩ ⟨owner, c⟩
  | .toMany c => equate ⟨owner, .id⟩ ⟨target, c⟩
  | .through _ left right =>
    .group .and [equate ⟨owner, .id⟩ ⟨pair, left⟩, equate ⟨target, .id⟩ ⟨pair, right⟩]

/-- The pairing table of a relationship, if it goes through one. -/
def pairing? (r : Relationship) : Option Table :=
  match r.link with
  | .through pairing _ _ => some pairing
  | _ => none

end FluentQuery.Relationship

namespace FluentQuery.Attribute

open Sql

/-- The condition that a relationship of an owner stands for: it relates the owner to the target's
own table, through an alias of the pairing table that this owner alone uses. -/
def condition (a : Attribute) (r : Relationship) : Term :=
  let target := r.target.table
  r.condition a.owner.source target.source
    ⟨r.pairing?.getD target, some (.paired a.owner.alias?)⟩

/-- Whether a relationship of an owner leads to any row. The statement around provides the owner;
an entity that is related to itself is related to an alias, numbered `fresh`. -/
def existence (a : Attribute) (r : Relationship) (fresh : Nat) : Term :=
  let table := r.target.table
  let reflexive := a.owner.alias?.isNone && table == a.owner.entity.table
  let target : Source := ⟨table, if reflexive then some (.numbered fresh) else none⟩
  let pair := r.pairing?.map Table.source
  let own := target :: pair.toList
  let condition := r.condition a.owner.source target (pair.getD target)
  .nonempty ⟨[.verbatim "1"], false, own, [], [condition], [], [], [], .allBut own, none, none, []⟩

end FluentQuery.Attribute
