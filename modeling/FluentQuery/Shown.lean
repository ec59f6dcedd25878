import FluentQuery.Machine
import FluentQuery.Sql.Render
import FluentQuery.Text.Quoted

/-!
The text that shows a value in messages and logs, and the name of its class.
-/

namespace FluentQuery

open Sql

def Sql.Statement.className : Statement → String
  | .select _ => "Select"
  | .delete .. => "Delete"
  | .update .. => "Update"

def Sql.Term.className : Term → String
  | .column _ => "AnnotatedColumn"
  | .constant .null => "Null"
  | .constant .true => "True_"
  | .constant .false => "False_"
  | .literal _ | .parameter .. => "BindParameter"
  | .arithmetic _ _ [_, _] => "BinaryExpression"
  | .arithmetic .. => "ExpressionClauseList"
  | .compare .. | .among .. => "BinaryExpression"
  | .group .. => "BooleanClauseList"
  | .condition .. => "AsBoolean"
  | .negation .. | .distinct _ | .sorted .. => "UnaryExpression"
  | .function name _ _ => if Function.isStandard name then name else "Function"
  | .extract .. => "Extract"
  | .cast .. => "Cast"
  | .nonempty _ => "Exists"
  | .scalar _ => "ScalarSelect"
  | .star => "ColumnClause"
  | .label _ => "_textual_label_reference"
  | .whole s => s.className

def Purpose.typeName : Purpose → String
  | .search => "SearchType"
  | .delete => "DeleteType"
  | .update => "UpdateType"

def StreamKind.className : StreamKind → String
  | .base => "QueryStreamBase"
  | .common => "QueryStream"
  | .of .search => "SearchStream"
  | .of .delete => "DeleteStream"
  | .of .update => "UpdateStream"

def QueryKind.className : QueryKind → String
  | .base => "ExecutableQuery"
  | .typed => "TypedQuery"
  | .bulk => "BulkQuery"

namespace Value

def className (m : Machine) : Value → String
  | null => "NoneType"
  | bool _ => "bool"
  | int .. => "int"
  | float .. => "float"
  | text .. => "str"
  | list .. => "list"
  | tuple .. => "tuple"
  | row .. => "Row"
  | mapped ⟨_, none⟩ => "DeclarativeAttributeIntercept"
  | mapped ⟨_, some _⟩ => "AliasedClass"
  | member _ => "InstrumentedAttribute"
  | term _ t => t.className
  | statement _ s => s.className
  | closure _ | configurer _ => "function"
  | stream s => s.kind.className
  | queryType t => t.purpose.typeName
  | queryBuilder .. => "QueryBuilder"
  | criteriaBuilder _ => "CriteriaBuilder"
  | session _ => "Session"
  | frame _ => "QueryInfo"
  | ref _ => "Ref"
  | context c => ((m.context? c).map (·.kind.className)).getD ""
  | query q => ((m.query? q).map (·.kind.className)).getD ""
  | mapping _ => "dict"

end Value

def shownBool (b : Bool) : String := if b then "True" else "False"

def Bound.shown : Bound → String
  | number n => toString n
  | flag b => shownBool b
  | fraction x => x.text

private def bracket (left right : String) (parts : List String) : String :=
  left ++ ", ".intercalate parts ++ right

private def angle (s : String) : String := "<" ++ s ++ ">"

private def shownTuple : List String → String
  | [part] => "(" ++ part ++ ",)"
  | parts => bracket "(" ")" parts

private def shownBounds (first max : Bound) : String :=
  " first_result=" ++ first.shown ++ " max_results=" ++ max.shown

def Mapped.name (m : Mapped) : String :=
  match m.alias? with
  | none => m.entity.name
  | some _ => "aliased(" ++ m.entity.name ++ ")"

/-- The name of a class or a function. A configuration that has been extended is named for that. -/
def Value.name? : Value → Option String
  | .mapped m => some m.name
  | .closure _ => some "function"
  | .configurer c => some (if c.steps.isEmpty then "<lambda>" else "configure")
  | _ => none

/-- The plain text of a value, given the text that shows it: text is itself and SQL is its own
text. -/
def Value.plainWith (inner : Value → Option String) : Value → Option String
  | .text _ s => some s
  | .member a => some (a.owner.name ++ "." ++ a.key)
  | .term _ t => t.render.toOption.map (·.text)
  | .statement _ s => s.render.toOption.map (·.text)
  | v => inner v

/-- What the text of a query context says beside its class, given the text of other values. -/
def ContextKind.detailsWith (inner : Value → Option String) : ContextKind → Option String
  | .common | .abstract _ => some ""
  | .query b _ => some (" roots=" ++ toString b.roots.length)
  | .subquery b parent _ _ =>
    (inner parent).map fun parent => " roots=" ++ toString b.roots.length ++ " parent=" ++ parent
  | .delete target | .update target _ =>
    (target.name? <|> target.plainWith inner).map (" " ++ ·)

/-- The text of a value inside the values `outer`, down to `depth` levels of values inside values;
none if it goes deeper, as that of a Ref that holds itself does. A mapping or a frame inside itself
is only hinted at. -/
def Value.shownTo (m : Machine) (outer : List Value) : Nat → Value → Option String
  | 0, _ => none
  | depth + 1, v =>
    let inner := Value.shownTo m (v :: outer) depth
    let again := outer.any v.same
    match v with
    | .null => some "None"
    | .bool b => some (shownBool b)
    | .int _ n => some (toString n)
    | .float _ x => some x.text
    | .text _ s => some (Text.quoted s)
    | .list _ items => do return bracket "[" "]" (← items.mapM inner)
    | .tuple _ items | .row _ items => do return shownTuple (← items.mapM inner)
    | .mapped ⟨e, none⟩ => some (angle ("class " ++ e.name))
    | .mapped ⟨e, some _⟩ => some (angle ("AliasedClass " ++ e.name))
    | .term _ (.parameter name _) =>
      some ("BindParameter(" ++ Text.quoted name ++ ", None, type_=NullType())")
    | .stream s => do
      let type ← inner s.queryType
      return angle (s.kind.className ++ " " ++ type ++ shownBounds s.firstResult s.maxResults)
    | .queryType t => do
      return t.purpose.typeName ++ bracket "(" ")" [← t.entity.name? <|> inner t.entity]
    | .frame f => do
      if again then return "..."
      return "QueryInfo(builder=" ++ (← inner f.builder) ++ ", query=" ++ (← inner f.query) ++ ")"
    | .ref r =>
      match m.ref? r with
      | none => some "Ref(<unbound>)"
      | some held => do return "Ref(" ++ (← inner held) ++ ")"
    | .context c => do
      let x ← m.context? c
      return angle (x.kind.className ++ (← x.kind.detailsWith inner))
    | .query q => do
      let x ← m.query? q
      let query ← inner x.query
      return angle (x.kind.className ++ " " ++ query ++ shownBounds x.firstResult x.maxResults)
    | .mapping i => do
      if again then return bracket "\x7b" "\x7d" ["..."]
      let fields ← (m.mapping i).mapM fun (k, v) => do
        return Text.quoted k ++ ": " ++ (← inner v)
      return bracket "\x7b" "\x7d" fields
    | v => some (angle (v.className m))

/-- The text that shows a value, if it ends. -/
def Value.shown? (m : Machine) (v : Value) : Option String := v.shownTo m [] 1000

/-- The text that shows a value; a value without end has none. -/
def shownNow (v : Value) : Run String := do orExternal (v.shown? (← get))

/-- The plain text of a value, if it has one. -/
def Value.plainNow (v : Value) : Run (Option String) := do
  let m ← get
  return v.plainWith (·.shown? m)

def classNow (v : Value) : Run String := return v.className (← get)

end FluentQuery
