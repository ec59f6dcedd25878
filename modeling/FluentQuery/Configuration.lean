import FluentQuery.Criteria

/-!
Applying a configuration to a query context: where it starts, then its steps in
order, each with the selection the earlier ones left. Functions of the program
are called through `Call`.
-/

namespace FluentQuery

open Sql

/-- How functions of a program are called. -/
abbrev Call := Value → List Value → Run Value

namespace Projection

/-- What a projection reads off a selection. -/
def read (call : Call) (selection : Value) : Projection → Run Value
  | whole => return selection
  | named key => resolveAttribute selection key
  | function f => call f [selection]
  | held r => r.read

end Projection

/-- The items of a list, as a function of a program returned it. -/
def itemsOf : Value → Run (List Value)
  | .list _ items | .tuple _ items | .row _ items => return items
  | .text _ s => s.toList.mapM fun c => newText (String.singleton c)
  | .mapping i => return (← i.read).map fun (k, _) => .text 0 k
  | _ => fail .external

namespace Ordering

/-- The sort expressions of an ordering. -/
def clauses (call : Call) (builder selection : Value) : Ordering → Run (List Value)
  | listed f => do itemsOf (← call f [selection])
  | keys ks => ordered ks
where
  ordered : List (Projection × Value) → Run (List Value)
    | [] => return []
    | (p, ascending) :: rest => do
      builder.requireBuilder
      let key ← p.read call selection
      let v ← Expression.sorted (if ← ascending.truth then .asc else .desc) key
      return v :: (← ordered rest)

end Ordering

namespace Grouping

def clauses (call : Call) (selection : Value) : Grouping → Run (List Value)
  | key p => return [← p.read call selection]
  | listed f => do itemsOf (← call f [selection])

end Grouping

/-- Sorting and grouping are for the outermost kind of query. -/
def requireOutermost (query : Value) (a : Arranging) : Run ContextId := do
  match query with
  | .context c => if (← c.read).isQuery then return c else fail (.arrangedSubquery a)
  | _ => fail (.arrangedSubquery a)

/-- Conjoins a condition to the restriction already there. -/
def conjoin (builder : Value) (c : ContextId) (condition : Value) : Run Value := do
  let old := (← c.read).restriction
  if old.isNull then return condition
  builder.requireBuilder
  Expression.connect .and [old, condition]

/-- Replaces the restriction of a query by way of its query type. -/
def QueryType.restrict (query restriction : Value) : Run Unit := do
  if query.isNull then fail (.null "query")
  if restriction.isNull then fail (.null "restriction")
  (← query.asContext).update (·.restrict restriction)

/-- Selects how many values the selection so far would give. A distinct query counts distinct
values, and is no longer distinct itself. -/
def countSelection (builder : Value) (c : ContextId) (selection : Value) : Run Value := do
  let distinct ← match (← c.read).kind.body? with
    | some b => pure b.distinct
    | none => fail .external
  c.update (·.distinct (.bool false))
  match selection with
  | .tuple .. | .list .. =>
    if ← distinct.truth then fail .countDistinctRows
    builder.requireBuilder
    Expression.call "count" []
  | .mapped _ => do
    builder.requireBuilder
    Expression.call "count" []
  | v => do
    builder.requireBuilder
    if ← distinct.truth then Expression.countDistinct v
    else if v.isNull then Expression.call "count" []
    else Expression.call "count" [v]

/-- An assigned value: functions are called with the selection, all else is taken as it is. -/
def assignedValue (call : Call) (selection v : Value) : Run Value :=
  if !v.isExpression && v.isCallable then call v [selection] else return v

namespace Step

/-- Applies one step and gives the selection after it. -/
def apply (call : Call) (builder query selection : Value) : Step → Run Value
  | filter queryType p => do
    let condition ← p.read call selection
    let restriction ← conjoin builder (← query.asContext) condition
    match queryType with
    | .queryType _ => QueryType.restrict query restriction
    | _ => fail .external
    return selection
  | peek f => do
    discard (call f [selection])
    return selection
  | bind r p => do
    r.bind (← p.read call selection)
    return selection
  | distinct => do
    (← query.asContext).update (·.distinct (.bool true))
    return selection
  | sort o => do
    let c ← requireOutermost query .sort
    let items ← o.clauses call builder selection
    c.update (·.orderBy items)
    return selection
  | group g => do
    let c ← requireOutermost query .group
    let items ← g.clauses call selection
    c.update (·.groupBy items)
    return selection
  | having p => do
    let c ← query.asContext
    if !(← c.read).isSelecting then fail .external
    let condition ← p.read call selection
    c.update (·.having condition)
    return selection
  | addRoot r entity => do
    r.bind (← (← query.asContext).addRoot entity)
    return selection
  | join key outer => do (← query.asContext).join selection key outer
  | map p => p.read call selection
  | count => do countSelection builder (← query.asContext) selection
  | assign key v => do
    let c ← query.asContext
    if !(← c.read).isUpdate then fail .external
    let value ← assignedValue call selection v
    c.assign key value
    return selection
  | bounded b => do
    match query with
    | .context c => if (← c.read).isSubquery then fail (.boundedSubquery b)
    | _ => pure ()
    return selection
  | modify f => do
    discard (call f [builder, query, selection])
    return selection
  | transform f => call f [builder, query, selection]

/-- Applies steps in order. -/
def applyAll (call : Call) (builder query : Value) : Value → List Step → Run Value
  | selection, [] => return selection
  | selection, step :: steps => do
    let selection ← step.apply call builder query selection
    applyAll call builder query selection steps

theorem applyAll_append (call : Call) (builder query selection : Value) (xs ys : List Step) :
    applyAll call builder query selection (xs ++ ys) = (do
      let selection ← applyAll call builder query selection xs
      applyAll call builder query selection ys) := by
  induction xs generalizing selection with
  | nil => simp [applyAll]
  | cons x xs ih => simp [applyAll, ih]

end Step

namespace Origin

/-- The selection a configuration starts with. -/
def select (call : Call) (builder query : Value) : Origin → Run Value
  | root entity => do (← query.asContext).addRoot entity
  | correlated outer => do
    let c ← currentSubquery
    c.update (·.correlate outer)
    return outer
  | function f => call f [builder, query]

end Origin

namespace Configurer

/-- Applies a whole configuration and gives its selection. -/
def run (call : Call) (c : Configurer) (builder query : Value) : Run Value := do
  let selection ← c.origin.select call builder query
  Step.applyAll call builder query selection c.steps

/-- A configuration with one step more; any other value is a function it starts from. -/
def extend (v : Value) (step : Step) : Run Value := do
  let id ← fresh
  match v with
  | .configurer c => return .configurer { c with id, steps := c.steps ++ [step] }
  | f => return .configurer ⟨id, .function f, [step]⟩

end Configurer

/-- Runs a configurer of a stream, which may be a function of the program. -/
def configure (call : Call) (configurer builder query : Value) : Run Value :=
  match configurer with
  | .configurer c => c.run call builder query
  | f => call f [builder, query]

end FluentQuery
