import FluentQuery.Statement

/-!
Reading properties of values, and looking up an attribute of a selection by
name or by a mapped attribute of the same name.
-/

namespace FluentQuery

open Sql

namespace Frame

/-- The query of a frame, if it is a subquery. -/
def subquery (f : Frame) : Run ContextId := do
  match f.query with
  | .context c =>
    if (← c.read).isSubquery then return c else fail .notASubquery
  | _ => fail .notASubquery

def isSubquery (f : Frame) : Run Bool := do
  match f.query with
  | .context c => return (← c.read).isSubquery
  | _ => return false

end Frame

/-- The subquery under construction. -/
def currentSubquery : Run ContextId := do (← currentFrame).subquery

namespace Context

/-- A property of a query context. -/
def property? (c : Context) (name : String) : Run (Option Value) :=
  match name, c.kind.body? with
  | "restriction", _ => return some c.restriction
  | "roots", some b => return some (← newTuple b.roots)
  | "group_list", some b => return some (← newTuple b.groupBy)
  | "group_restriction", some b => return some b.having
  | "is_distinct", some b => return some b.distinct
  | "selection", some b => return some b.selection
  | "statement", _ => do
    if c.isComplete then
      let s ← liftExcept (c.statement (← get))
      return some (.statement (← fresh) s)
    else return none
  | name, _ =>
    match name, c.kind with
    | "order_list", .query _ orders => return some (← newTuple orders)
    | "parent", .subquery _ parent _ _ => return some parent
    | "correlated_roots", .subquery _ _ roots _ => return some (← newTuple roots)
    | "entity", .delete target | "entity", .update target _ => return some target
    | "values", .update _ values => return some (← newMapping values)
    | _, _ => return none

end Context

namespace Stream

def property? (s : Stream) : String → Run (Option Value)
  | "session" => return some s.session
  | "query_type" => return some s.queryType
  | "configurer" => return some s.configurer
  | "first_result" => return some s.firstResult.toValue
  | "max_results" => return some s.maxResults.toValue
  | "params" => return some (← newMapping s.params)
  | "execution_options" => return some (← newMapping s.options)
  | _ => return none

end Stream

namespace Executable

/-- The statement property; its row bounds get parameters of their own. -/
def statementValue (q : Executable) : Run Value := do
  let next ← fresh
  discard fresh
  let s ← liftExcept (q.statement (← get) next)
  return .statement (← fresh) s

def property? (q : Executable) : String → Run (Option Value)
  | "session" => return some q.session
  | "query" => return some q.query
  | "params" => return some (.mapping q.params)
  | "execution_options" => return some (.mapping q.options)
  | "first_result" => return some q.firstResult.toValue
  | "max_results" => return some q.maxResults.toValue
  | "statement" => do
    match q.kind with
    | .base => return none
    | _ => return some (← q.statementValue)
  | _ => return none

end Executable

namespace Value

/-- The value of the column of a row that a name stands for. -/
def rowItem? (items : List Value) (name : String) : Option Value :=
  (items.zipIdx.find? fun x => "c" ++ toString x.2 == name).map Prod.fst

/-- What a property of a value is; none if the value has no such property. -/
def property? (v : Value) (name : String) : Run (Option Value) := do
  match v with
  | mapped m =>
    match name with
    | "__tablename__" => return some (.text 0 m.entity.table.name)
    | "__name__" => return some (.text 0 m.name)
    | name => return (m.attribute? name).map member
  | row _ items => return rowItem? items name
  | term _ (.function f _ _) => return if name == "name" then some (.text 0 f) else none
  | context c => (← c.read).property? name
  | stream s => s.property? name
  | query q => (← q.read).property? name
  | queryType t => return if name == "entity" then some t.entity else none
  | queryBuilder _ s => return if name == "session" then some s else none
  | frame f =>
    match name with
    | "builder" => return some f.builder
    | "query" => return some f.query
    | "subquery" => return some (.context (← f.subquery))
    | "is_subquery" => return some (.bool (← f.isSubquery))
    | _ => return none
  | _ => return none

/-- The attribute name a value stands for. -/
def attributeKey? : Value → Option String
  | text _ s => some s
  | member a => some a.key
  | term _ (.column c) => some c.column.key
  | term _ (.parameter name _) => some name
  | _ => none

end Value

/-- The attribute of `selection` that a name, or a mapped attribute of that name, stands for. -/
def resolveAttribute (selection key : Value) : Run Value := do
  if key.isNull then fail (.null "attribute")
  match key.attributeKey? with
  | none => fail (.unsupportedAttribute (← shownNow key))
  | some name =>
    match ← selection.property? name with
    | none | some .null => fail (.noAttribute (← shownNow selection) name)
    | some v => return v

/-- The relationship of `owner` that `key` stands for. -/
def resolveRelationship (owner key : Value) : Run (Mapped × Relationship) := do
  match ← resolveAttribute owner key with
  | .member ⟨m, .relationship r⟩ => return (m, r)
  | _ => fail (.notRelationship (← shownNow key))

end FluentQuery
