import FluentQuery.Datum
import FluentQuery.Schema

/-!
SQL expressions and statements as data. Aliases and generated parameters are
told apart by numbers and get their names only when a statement is rendered.
-/

namespace FluentQuery.Sql

/-- What is known about the values of an expression; a moment is a date or a time. -/
inductive SqlType where
  | unknown | integer | decimal | string | boolean | moment | array
  deriving DecidableEq, Repr

inductive Arithmetic where
  | add | sub | mul | concat
  deriving DecidableEq, Repr

inductive Comparison where
  | eq | ne | lt | le | gt | ge | is | isNot | like | notLike
  deriving DecidableEq, Repr

inductive Connective where
  | and | or
  deriving DecidableEq, Repr

inductive Constant where
  | null | true | false
  deriving DecidableEq, Repr

inductive Direction where
  | asc | desc
  deriving DecidableEq, Repr

/-- A column of a table or alias. -/
structure ColumnRef where
  source : Source
  column : Column
  deriving DecidableEq, Repr

/-- What makes two uses of an expression uses of the same one. -/
inductive ItemKey where
  | column (c : ColumnRef)
  | constant (c : Constant)
  | relationship (a : Attribute)
  | expression (id : Nat)
  deriving DecidableEq, Repr

/-- The kinds of objects that never change, which are told apart by numbers. -/
inductive ObjectKind where
  | list | tuple | row | statement | function | stream | queryType | queryBuilder | criteriaBuilder
  | session | frame
  deriving DecidableEq, Repr

/-- The kinds of objects that change over time, each with addresses of its own. -/
inductive Space where
  | refs | contexts | queries | mappings
  deriving DecidableEq, Repr

/-- What tells an object from all others. -/
inductive Identity where
  | mapped (m : Mapped)
  | member (a : Attribute)
  | expression (key : ItemKey)
  | emptyTuple
  | numbered (kind : ObjectKind) (id : Nat)
  | address (space : Space) (index : Nat)
  deriving DecidableEq, Repr

/-- A value carried by a parameter. An object SQL knows nothing of is carried by its identity. -/
inductive Literal where
  | plain (d : Datum)
  | object (identity : Identity)

/-- A plain value inside an expression. Its parameter is named after `base`, and is the same
parameter wherever the placeholder of this number stands. -/
structure Placeholder where
  id : Nat
  base : String
  value : Literal
  type : SqlType

/-- A join of a relationship to an alias of its target. Whether it is an outer one is not known if
that was given by an expression that is neither true nor false. -/
structure Join where
  owner : Mapped
  relationship : Relationship
  target : Mapped
  outer : Option Bool
  deriving DecidableEq, Repr

/-- A row bound of a statement, with the number of its parameter. -/
structure RowBound where
  id : Nat
  value : Int
  deriving DecidableEq, Repr

/-- What a nested statement leaves out of its FROM list. -/
inductive Correlation where
  /-- What the nearest enclosing statement reads, if something else is left. -/
  | automatic
  /-- Exactly these, if any enclosing statement reads them. -/
  | only (roots : List Source)
  /-- All but these, if any enclosing statement reads it. -/
  | allBut (own : List Source)
  deriving DecidableEq, Repr

mutual

inductive Term where
  | column (c : ColumnRef)
  | constant (c : Constant)
  | literal (p : Placeholder)
  /-- A named parameter; its value is null until one is supplied. -/
  | parameter (name : String) (type : SqlType)
  /-- Two or more operands of one arithmetic operator. -/
  | arithmetic (op : Arithmetic) (type : SqlType) (operands : List Term)
  /-- A comparison, and whether its two sides are one and the same expression. -/
  | compare (op : Comparison) (reflexive : Bool) (left right : Term)
  /-- Conditions joined by one connective; without any it constrains nothing. -/
  | group (op : Connective) (operands : List Term)
  /-- A boolean-valued expression used as a condition, possibly negated. -/
  | condition (negated : Bool) (key : ItemKey) (t : Term)
  | negation (type : SqlType) (t : Term)
  | function (name : String) (type : SqlType) (args : List Term)
  /-- A field of a date or time; none if the field has no name that can be written. -/
  | extract (field : Option String) (t : Term)
  /-- A value as one of another type, by the text of the type; without one the type is unknown. -/
  | cast (type : Option String) (key : ItemKey) (t : Term)
  /-- The `*` of `count(*)`. -/
  | star
  | distinct (t : Term)
  | among (negated : Bool) (t : Term) (values : Placeholder)
  /-- `EXISTS (SELECT ...)`. -/
  | nonempty (s : Select)
  | scalar (s : Select)
  /-- A whole statement that stands where an expression is wanted, without parentheses. -/
  | whole (s : Statement)
  | sorted (d : Direction) (t : Term)
  /-- A bare name where an expression is wanted: a column of the statement around it. -/
  | label (name : String)

/-- One entry of a select list. -/
inductive SelectItem where
  | mapped (m : Mapped)
  | expression (key : ItemKey) (t : Term)
  /-- A number or `*`, written out in the text. -/
  | verbatim (text : String)

/-- A SELECT statement, with values supplied for parameters of any statement it stands in. -/
structure Select where
  items : List SelectItem
  distinct : Bool
  roots : List Source
  joins : List Join
  conditions : List Term
  groupBy : List Term
  having : List Term
  orderBy : List Term
  correlation : Correlation
  limit : Option RowBound
  offset : Option RowBound
  supplied : List (String × Literal)

/-- What a column of an updated table is set to. -/
inductive Assignment where
  /-- A plain value, whose parameter is named after the column. -/
  | plain (column : Column) (value : Literal)
  | computed (column : Column) (value : Term)

/-- A complete statement. -/
inductive Statement where
  | select (s : Select)
  | delete (target : Source) (conditions : List Term)
  /-- The assignments stand in the order they were made in. -/
  | update (target : Mapped) (assignments : List Assignment) (conditions : List Term)

end

def Assignment.column : Assignment → Column
  | plain c _ | computed c _ => c

namespace SqlType

def ofColumn : Column → SqlType
  | .name => .string
  | .active => .boolean
  | _ => .integer

end SqlType

namespace Literal

def null : Literal := plain .null

/-- The type a plain value has on its own. -/
def type : Literal → SqlType
  | plain (.bool _) => .boolean
  | plain (.int _) => .integer
  | plain (.float _) => .decimal
  | plain (.text _) => .string
  | _ => .unknown

/-- The type of a plain value beside an operand of type `other`. -/
def typeBeside (v : Literal) (other : SqlType) : SqlType :=
  if v.type = .unknown then other else v.type

end Literal

namespace Comparison

/-- The opposite comparison. -/
def negate : Comparison → Comparison
  | eq => ne
  | ne => eq
  | lt => ge
  | ge => lt
  | le => gt
  | gt => le
  | is => isNot
  | isNot => is
  | like => notLike
  | notLike => like

/-- The comparison with its two sides exchanged. -/
def flip : Comparison → Comparison
  | lt => gt
  | gt => lt
  | le => ge
  | ge => le
  | c => c

def symbol : Comparison → String
  | eq => "="
  | ne => "!="
  | lt => "<"
  | le => "<="
  | gt => ">"
  | ge => ">="
  | is => "IS"
  | isNot => "IS NOT"
  | like => "LIKE"
  | notLike => "NOT LIKE"

theorem negate_negate (c : Comparison) : c.negate.negate = c := by cases c <;> rfl

theorem flip_flip (c : Comparison) : c.flip.flip = c := by cases c <;> rfl

end Comparison

namespace Arithmetic

def symbol : Arithmetic → String
  | add => "+"
  | sub => "-"
  | mul => "*"
  | concat => "||"

/-- Operators whose nested uses need no parentheses. -/
def flattens : Arithmetic → Bool
  | sub => false
  | _ => true

end Arithmetic

def Connective.symbol : Connective → String
  | .and => "AND"
  | .or => "OR"

def Direction.symbol : Direction → String
  | .asc => "ASC"
  | .desc => "DESC"

def Constant.symbol : Constant → String
  | .null => "NULL"
  | .true => "true"
  | .false => "false"

def Constant.negate : Constant → Constant
  | .true => .false
  | .false => .true
  | .null => .null

def Constant.ofBool : Bool → Constant
  | Bool.true => .true
  | Bool.false => .false

mutual

/-- The type of the values of an expression. -/
def Term.type : Term → SqlType
  | .column c => .ofColumn c.column
  | .constant .null => .unknown
  | .constant _ => .boolean
  | .literal p => p.type
  | .parameter _ type => type
  | .arithmetic _ type _ => type
  | .compare .. | .group .. | .condition .. | .among .. | .nonempty _ => .boolean
  | .negation type _ => type
  | .function _ type _ => type
  | .extract .. => .integer
  | .distinct t => t.type
  | .scalar s => s.type
  | .cast .. | .star | .whole _ | .sorted .. | .label _ => .unknown

/-- The type of a statement used as a value: that of its first column. -/
def Select.type : Select → SqlType
  | .mk items .. => SelectItem.firstType items

def SelectItem.firstType : List SelectItem → SqlType
  | [] => .unknown
  | item :: _ => item.type

def SelectItem.type : SelectItem → SqlType
  | .mapped _ => .integer
  | .expression _ t => t.type
  | .verbatim _ => .unknown

end

/-- The name that parameters for plain values beside this expression start from. -/
def Term.parameterBase : Term → String
  | .column c => c.column.key
  | .function name _ _ => name
  | _ => "param"

end FluentQuery.Sql
