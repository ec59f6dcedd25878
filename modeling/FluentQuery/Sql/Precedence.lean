import FluentQuery.Sql.Term

/-!
Operators by how tight they bind: an operand is enclosed in parentheses if its
operator binds no tighter than the one around it.
-/

namespace FluentQuery.Sql

/-- What stands directly around an operand. -/
inductive Operator where
  /-- No operator: a clause, a function's argument. -/
  | outermost
  | arithmetic (op : Arithmetic)
  | comparison
  | connective (op : Connective)
  | ordering
  | distinctness
  | negation
  | existence
  /-- The right side of an assignment, where any operator is enclosed. -/
  | assignment
  deriving DecidableEq, Repr

namespace Operator

def precedence : Operator → Int
  | outermost => -10
  | existence => 0
  | connective .or => 2
  | connective .and => 3
  | ordering => 3
  | comparison | distinctness | negation | arithmetic .concat => 5
  | arithmetic .add | arithmetic .sub => 7
  | arithmetic .mul => 8
  | assignment => 100

/-- Whether nested uses of an operator read the same without parentheses. -/
def flattens : Operator → Bool
  | arithmetic op => op.flattens
  | connective _ => true
  | _ => false

end Operator

namespace Term

/-- The operator at the top of an expression, if parentheses can ever be needed around it. -/
def operator? : Term → Option Operator
  | arithmetic op _ _ => some (.arithmetic op)
  | compare .. | among .. => some .comparison
  | group _ [] => none
  | group op _ => some (.connective op)
  | negation .. => some .negation
  | distinct _ => some .distinctness
  | nonempty _ => some .existence
  | column _ | constant _ | literal _ | parameter .. | condition .. | function .. | extract ..
  | cast .. | star | scalar _ | whole _ | sorted .. | label _ => none

/-- An operand is enclosed if its operator binds no tighter than the one around it. -/
def enclosedIn (outer : Operator) (t : Term) : Bool :=
  match t.operator? with
  | none => false
  | some inner =>
    (outer == .negation && inner matches .arithmetic _) ||
      (inner.precedence ≤ outer.precedence && !(inner == outer && inner.flattens))

/-- How many levels parentheses put around an operand. -/
def enclosure (outer : Operator) (t : Term) : Nat := if t.enclosedIn outer then 1 else 0

end Term

/-- `text`, the text of `t`, as an operand of `outer`. -/
def enclose (outer : Operator) (t : Term) (text : String) : String :=
  if t.enclosedIn outer then "(" ++ text ++ ")" else text

end FluentQuery.Sql
