import FluentQuery.Shown

/-!
Values as operands of SQL expressions: what expression a value stands for, and
the parameter that stands for a plain value.
-/

namespace FluentQuery

open Sql

namespace Value

/-- The expression a value is. A relationship is the condition that relates its owner to the target
itself. -/
def subject? : Value → Option Term
  | member ⟨owner, .column c⟩ => some (.column ⟨owner.source, c⟩)
  | member ⟨owner, .relationship r⟩ => some (Attribute.condition ⟨owner, .relationship r⟩ r)
  | term _ t => some t
  | _ => none

/-- The expression a value stands for beside others, if it stands for one: a SELECT stands for the
value it selects. -/
def expression? : Value → Option Term
  | statement _ (.select s) => some (.scalar s)
  | v => v.subject?

def isExpression (v : Value) : Bool := v.subject?.isSome

def isRelationship : Value → Bool
  | member ⟨_, .relationship _⟩ => true
  | _ => false

/-- NULL, true and false, as plain values or as expressions. -/
def constant? : Value → Option Constant
  | null => some .null
  | bool b => some (.ofBool b)
  | term _ (.constant c) => some c
  | _ => none

/-- What makes two uses of an expression uses of the same one. -/
def key : Value → ItemKey
  | member ⟨owner, .column c⟩ => .column ⟨owner.source, c⟩
  | member a => .relationship a
  | term _ (.column c) => .column c
  | term _ (.constant c) => .constant c
  | term id _ | statement id _ => .expression id
  | bool b => .constant (.ofBool b)
  | _ => .constant .null

/-- Mapped classes and statements that change rows are no values a parameter can carry. -/
def isCarried : Value → Bool
  | mapped _ | statement .. => false
  | _ => true

/-- A plain value as SQL carries it. -/
def literal (v : Value) : Run Literal := do
  if !v.isCarried then fail .external
  match v.identity? with
  | none => return v.carried
  | some _ => handle v

/-- A parameter of unknown type takes the type of the operand beside it. -/
def typedBeside (other : Term) : Term → Term
  | .parameter name .unknown => .parameter name other.type
  | .literal p => .literal (if p.type = .unknown then { p with type := other.type } else p)
  | t => t

/-- `v` as the operand beside `other`. -/
def operandBeside (other : Term) (v : Value) : Run Term := do
  match v.expression? with
  | some t =>
    if !t.isOperand then fail .external
    return typedBeside other t
  | none =>
    let l ← v.literal
    return .literal (.beside (← fresh) other l)

/-- `v` as an operand on its own; a plain value is a parameter named after `base`. -/
def operandNamed (base : String) (v : Value) : Run Operand := do
  match v, v.expression? with
  | null, _ => return .constant .null
  | v, some t => return ⟨v.key, t⟩
  | v, none =>
    let l ← v.literal
    let id ← fresh
    return ⟨.expression id, .literal (.argument id base l)⟩

/-- `v` as a condition. -/
def condition (v : Value) : Except Error Operand :=
  match v, v.expression? with
  | null, _ => .ok (.constant .null)
  | bool b, _ => .ok (.constant (.ofBool b))
  | v, some t => if t.isOperand then .ok ⟨v.key, t⟩ else .error .external
  | _, none => .error .external

/-- `v` as something to sort by; text is the name of a column. -/
def sortKey (v : Value) : Except Error Term :=
  match v, v.expression? with
  | null, _ => .ok (.constant .null)
  | bool b, _ => .ok (.constant (.ofBool b))
  | text _ s, _ => .ok (.label s)
  | member ⟨_, .relationship _⟩, _ => .error .external
  | _, some t => .ok t
  | _, none => .error .external

end Value

end FluentQuery
