import FluentQuery.Expression

/-!
The statement a query context stands for, and the one an executable query
sends, with its parameters and row bounds.
-/

namespace FluentQuery

open Sql

namespace Value

/-- An entry of a select list: numbers and `*` stand for themselves. -/
def selectItem (v : Value) : Except Error SelectItem :=
  match v with
  | mapped m => .ok (.mapped m)
  | int _ n => .ok (.verbatim (toString n))
  | float _ x => .ok (.verbatim x.text)
  | text _ "*" => .ok (.verbatim "*")
  | v =>
    match v.constant?, v.subject? with
    | some c, _ => .ok (.expression (.constant c) (.constant c))
    | none, some t => .ok (.expression v.key t)
    | none, none => .error .external

/-- The entries a selection stands for: its items if it is a sequence, else itself. -/
def selectItems : Value → Except Error (List SelectItem)
  | tuple _ items | list _ items => items.mapM selectItem
  | v => (v.selectItem).map ([·])

def source? : Value → Option Mapped
  | mapped m => some m
  | _ => none

def mappedOrExternal (v : Value) : Except Error Mapped :=
  match v.source? with
  | some m => .ok m
  | none => .error .external

/-- What a GROUP BY entry stands for: an entity stands for all its columns, a statement for its own
text. -/
def groupKeys : Value → Except Error (List Term)
  | mapped m => .ok (m.entity.columns.map fun c => .column ⟨m.source, c⟩)
  | member ⟨owner, .relationship r⟩ => .ok [Attribute.condition ⟨owner, .relationship r⟩ r]
  | statement _ s => .ok [.whole s]
  | v => v.sortKey.map ([·])

/-- The conditions a restriction contributes; null is no restriction. -/
def conditions (v : Value) : Except Error (List Term) :=
  if v.isNull then .ok [] else v.condition.map fun x => [x.term]

/-- A list that holds null alone counts as empty. -/
def unlessNull : List Value → List Value
  | [null] => []
  | vs => vs

/-- Statements that change rows cannot be assigned. -/
def isAssignable (v : Value) : Bool :=
  v.expression?.isSome || !(v matches statement ..)

/-- The assignment of a value to a column. -/
def assignment (c : Column) (v : Value) : Assignment :=
  match v.expression? with
  | some t => .computed c t
  | none => .plain c v.carried

end Value

/-- A planned join, with the truth of what was given as `outer`. -/
def JoinPlan.decide (m : Machine) (j : JoinPlan) : Join :=
  ⟨j.owner, j.relationship, j.target, j.outer.truth? m⟩

namespace SelectBody

/-- The SELECT of a body, with further conditions and correlated roots. -/
def statement (m : Machine) (b : SelectBody) (restriction : Value) (orders : List Value)
    (joinConditions : List Term) (correlated : List Value) : Except Error Select := do
  let selection ← match b.selection, b.roots with
    | .null, [] => .error .noRoots
    | .null, root :: _ => .ok root
    | v, _ => .ok v
  let items ← selection.selectItems
  let roots ← b.roots.mapM Value.mappedOrExternal
  let conditions ← restriction.conditions
  let groups ← (Value.unlessNull b.groupBy).mapM Value.groupKeys
  let having ← b.having.conditions
  let distinct ← match b.distinct.truth? m with
    | some d => .ok d
    | none => .error .external
  let orders ← (Value.unlessNull orders).mapM Value.sortKey
  let correlated ← correlated.mapM Value.mappedOrExternal
  return {
    items, distinct, having, orderBy := orders
    roots := roots.map Mapped.source
    joins := b.joins.map (·.decide m)
    conditions := conditions ++ joinConditions
    groupBy := groups.flatten
    correlation := if correlated.isEmpty then .automatic else .only (correlated.map Mapped.source)
    limit := none, offset := none, supplied := [] }

end SelectBody

namespace Context

/-- A subquery's SELECT; no other context has one to nest. -/
def nested (m : Machine) (c : Context) : Except Error Select :=
  match c.kind with
  | .subquery b _ correlated conditions => b.statement m c.restriction [] conditions correlated
  | _ => .error .external

/-- The assignments to columns of `e`. -/
def assignments (e : Entity) (values : List (String × Value)) :
    Except Error (List Assignment) := do
  if values.any (!·.2.isAssignable) then .error .external
  return values.filterMap fun (key, v) =>
    (e.columns.find? (·.key == key)).map (v.assignment ·)

/-- Whether the context has a statement at all. -/
def isComplete (c : Context) : Bool :=
  match c.kind with
  | .common | .abstract _ => false
  | _ => true

/-- The statement a context stands for. -/
def statement (m : Machine) (c : Context) : Except Error Statement :=
  match c.kind with
  | .common | .abstract _ => .error .external
  | .query b orders => (b.statement m c.restriction orders [] []).map .select
  | .subquery .. => (c.nested m).map .select
  | .delete target => do
    let t ← target.mappedOrExternal
    return .delete t.source (← c.restriction.conditions)
  | .update target values => do
    if values.isEmpty then .error .noAssignments
    let t ← target.mappedOrExternal
    let conditions ← c.restriction.conditions
    return .update t (← assignments t.entity values) conditions

end Context

namespace Executable

/-- Names no value can be supplied for. -/
def refusedNames : List String := ["self", "fn"]

/-- Supplies the parameters; only a SELECT takes any. -/
def withParams (m : Machine) (q : Executable) (s : Statement) : Except Error Statement :=
  let params := m.mapping q.params
  if params.isEmpty then .ok s
  else if params.any (refusedNames.contains ·.1) then .error .external
  else match s with
    | .select s =>
      let supplied := params.map fun (k, v) => (k, v.carried)
      .ok (.select { s with supplied := supplied ++ s.supplied })
    | _ => .error .external

/-- Applies the row bounds, whose parameters are numbered from `next` on. -/
def withBounds (q : Executable) (next : Nat) (s : Statement) : Except Error Statement :=
  if !q.firstResult.isSet && !q.maxResults.isSet then .ok s
  else match s with
    | .select s => do
      let bound (id : Nat) (b : Bound) (old : Option RowBound) : Except Error (Option RowBound) :=
        if b.isSet then b.toInt.map fun n => some ⟨id, n⟩ else .ok old
      let offset ← bound next q.firstResult s.offset
      let limit ← bound (next + 1) q.maxResults s.limit
      return .select { s with offset, limit }
    | _ => .error .external

/-- The statement an executable query stands for, if at most `depth` of them stand on one
another. -/
def statementTo (m : Machine) (next : Nat) : Nat → Executable → Except Error Statement
  | 0, _ => .error .external
  | depth + 1, q => do
    if q.kind matches .base then .error .external
    let bare ← match q.query with
      | .context c => do (← (m.context? c).elim (.error .external) .ok).statement m
      | .query inner => do
        statementTo m next depth (← (m.query? inner).elim (.error .external) .ok)
      | _ => .error .external
    let supplied ← q.withParams m bare
    if q.kind matches .typed then q.withBounds next supplied else .ok supplied

/-- The statement an executable query stands for. -/
def statement (m : Machine) (next : Nat) (q : Executable) : Except Error Statement :=
  q.statementTo m next 1000

end Executable

end FluentQuery
