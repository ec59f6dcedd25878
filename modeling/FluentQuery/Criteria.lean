import FluentQuery.Property

/-!
Operations on the query contexts of a run, as a configuration applies them.
-/

namespace FluentQuery

open Sql

namespace Value

/-- The query context a value is. -/
def asContext (v : Value) : Run ContextId :=
  match v with
  | context c => return c
  | _ => fail .external

/-- A builder of criteria, which composing expressions takes. -/
def requireBuilder (v : Value) : Run Unit :=
  match v with
  | criteriaBuilder _ => return ()
  | _ => fail .external

end Value

namespace ContextId

/-- The root for `entity`: a new one of a query, the only one of a bulk statement. -/
def addRoot (c : ContextId) (entity : Value) : Run Value := do
  let x ← c.read
  match x.target? with
  | some target =>
    if entity.same target then return target
    else fail (.wrongTarget x.kind.className (← shownNow target) (← shownNow entity))
  | none =>
    let id ← fresh
    c.updateGet (·.addRoot id entity)

/-- Joins a relationship from a correlated root that is no mapped class or alias. The target becomes
a root before its condition is made, and nothing relates it to a root like that. -/
def joinUnmapped (c : ContextId) (r : Relationship) (outer : Value) : Run Value := do
  match outer.truth? (← get), r.link with
  | none, _ => fail .external
  | some true, _ => fail .outerFromCorrelated
  | some false, .through .. => fail .throughFromCorrelated
  | some false, _ =>
    discard (c.addRoot (.mapped ⟨r.target, none⟩))
    fail .external

/-- Joins the relationship `key` of `owner`; gives the alias that was joined. -/
def join (c : ContextId) (owner key outer : Value) : Run Value := do
  let x ← c.read
  if !x.isSelecting then fail .external
  let (m, r) ← resolveRelationship owner key
  if x.correlates owner && owner.source?.isNone then c.joinUnmapped r outer
  else
    let id ← fresh
    let truth := outer.truth? (← get)
    c.updateGet (·.join id (x.correlates owner) m r outer truth)

/-- Adds a SET clause for an attribute of the target. -/
def assign (c : ContextId) (key v : Value) : Run Unit := do
  match (← c.read).kind with
  | .update target _ =>
    match ← resolveAttribute target key with
    | .member a =>
      register v
      c.update (·.assign a.key v)
    | _ => fail .external
  | _ => fail .external

end ContextId

/-- Runs `body` with one more construction frame for `query`. -/
def withFrame {α : Type} (builder query : Value) (body : Frame → Run α) : Run α := do
  let name ← classNow query
  match query with
  | .context _ => pure ()
  | _ => fail (.unsupportedContext name)
  if builder.isNull then fail (.null "builder")
  let frame : Frame := ⟨← fresh, builder, query⟩
  let stack := frame :: (← get).stack
  let entered := "Entered " ++ name ++ " construction (depth " ++ toString stack.length ++ ")"
  let inside : Run α := do logLine (pure entered); body frame
  ensuring (onStack stack inside) (logLine (pure ("Left " ++ name ++ " construction")))

end FluentQuery
