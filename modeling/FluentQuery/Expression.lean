import FluentQuery.Operand

/-!
SQL expressions computed from the values of a program: an operation with an
expression among its operands makes an expression, and plain values beside it
become parameters.
-/

namespace FluentQuery.Expression

open Sql

/-- `a op b` for an expression among the two; none without one. -/
def arithmetic? (op : Arithmetic) (a b : Value) : Option (Run Value) :=
  match a.subject?, b.subject? with
  | some l, _ => some do
    if a.isRelationship || !l.isOperand then fail .external
    newTerm (l.calculate op (← b.operandBeside l))
  | none, some r => some do
    if b.isRelationship || !r.isOperand then fail .external
    newTerm ((← a.operandBeside r).calculate op r)
  | none, none => none

/-- A relationship can be compared with null alone: to one row by its column, to several by asking
whether there are any. -/
def compareRelationship (op : Comparison) (owner : Mapped) (r : Relationship) (b : Value) :
    Run Value := do
  if b.constant? != some .null then fail .external
  match op, r.link with
  | .eq, .toOne c => newTerm (.compare .is false (.column ⟨owner.source, c⟩) (.constant .null))
  | .ne, .toOne c => newTerm (.compare .isNot false (.column ⟨owner.source, c⟩) (.constant .null))
  | .eq, _ =>
    newTerm (.negation .boolean (Attribute.existence ⟨owner, .relationship r⟩ r (← fresh)))
  | .ne, _ => newTerm (Attribute.existence ⟨owner, .relationship r⟩ r (← fresh))
  | _, _ => fail .external

/-- An expression compared with a value, which stands on the right. -/
def compareWith (op : Comparison) (a : Value) (l : Term) (b : Value) : Run Value := do
  match a with
  | .member ⟨owner, .relationship r⟩ => compareRelationship op owner r b
  | _ =>
    if !l.isOperand then fail .external
    match b.constant? with
    | some c => newTerm (← orExternal (op.withConstant? (a.key == .constant c) l c))
    | none =>
      let r ← b.operandBeside l
      newTerm (.compare op (b.isExpression && a.key == b.key) l r)

/-- A row is compared as the tuple of its items. -/
def asCompared : Value → Run Value
  | .row _ items => newTuple items
  | v => return v

/-- `a op b` for an expression among the two; none without one. A plain value on the left changes
sides, and so does an expression whose kind the other one's specializes. -/
def compare? (op : Comparison) (a b : Value) : Option (Run Value) :=
  match a, a.subject?, b, b.subject? with
  | .term _ _, some l, .term _ _, some r =>
    some (if l.isSpecializedBy r then compareWith op.flip b r a else compareWith op a l b)
  | _, some l, _, _ => some (compareWith op a l b)
  | _, none, _, some r => some do compareWith op.flip b r (← asCompared a)
  | _, none, _, none => none

/-- Joins conditions. A single one that needs no change stays the object it is. -/
def connect (op : Connective) (vs : List Value) : Run Value := do
  let xs ← liftExcept (vs.mapM Value.condition)
  let t := op.join xs
  match (vs.zip xs).filter (fun x => !Connective.isConstant op.neutral x.2.term) with
  | [(.term id u, _)] => if u.isUnchanged then return .term id u else newTerm t
  | _ => newTerm t

def not (v : Value) : Run Value := do
  let x ← v.operandNamed "param"
  if !x.term.isOperand then fail .external
  newTerm (x.term.negate (← fresh) x.key)

def sorted (d : Direction) (v : Value) : Run Value := do
  newTerm (.sorted d (← liftExcept v.sortKey))

/-- The expression a membership test or a pattern match is asked of. -/
def subject (v : Value) : Run Term := do
  if v.isRelationship then fail .external
  let t ← orExternal v.subject?
  if !t.isOperand then fail .external
  return t

def among (v : Value) (values : List Datum) : Run Value := do
  let t ← subject v
  let type := match values with
    | d :: _ => (Literal.plain d).typeBeside t.type
    | [] => t.type
  newTerm (.among false t ⟨← fresh, t.parameterBase, .plain (.list values), type⟩)

def like (v pattern : Value) : Run Value := do
  compareWith .like v (← subject v) pattern

def operands (base : String) : List Value → Run (List Term)
  | [] => return []
  | v :: vs => do
    let x ← v.operandNamed base
    return x.term :: (← operands base vs)

/-- The text of the type that a value stands for in a cast; null stands for none. -/
def castType (v : Value) : Run (Option String) := do
  match v with
  | .null => return none
  | v =>
    if v.datum?.isSome || v matches .list .. || v matches .tuple .. then return some (← shownNow v)
    else fail .external

/-- A value as one of another type; a plain value takes no type that is not known. -/
def cast (v type : Value) : Run Value := do
  let type ← castType type
  if type.isSome && v.expression?.isNone then fail .external
  let x ← v.operandNamed "param"
  newTerm (.cast type x.key x.term)

/-- A field of a date or time. Lists and mappings name no field. -/
def extract (field v : Value) : Run Value := do
  let x ← v.operandNamed "param"
  let name ← match field with
    | .list .. | .mapping _ => pure none
    | field => field.plainNow
  newTerm (.extract name x.term)

/-- A call of a SQL function; `count` without arguments, or of null, counts rows. -/
def call (asked : String) (args : List Value) : Run Value := do
  match ← orExternal (Function.resolve? asked), args with
  | "cast", [v, type] => cast v type
  | "extract", [field, v] => extract field v
  | "count", [] | "count", [.null] => newTerm (.function "count" .integer [.star])
  | name, args =>
    if Function.special.contains name || !Function.accepts name args.length then fail .external
    let ts ← operands (Function.argumentBase name) args
    newTerm (.function name (Function.type name ts) ts)

/-- How many distinct values an expression has. -/
def countDistinct (v : Value) : Run Value := do
  if v.isRelationship then fail .external
  newTerm (.function "count" .integer [.distinct (← v.operandNamed "param").term])

/-- A named parameter; one without a name gets a name of its own in every statement. -/
def parameter (name : String) : Run Value := do
  if name.isEmpty then newTerm (.literal ⟨← fresh, "param", .null, .unknown⟩)
  else newTerm (.parameter name .unknown)

end FluentQuery.Expression
