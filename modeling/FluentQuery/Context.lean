import FluentQuery.Association
import FluentQuery.Sql.Condition
import FluentQuery.Value

/-!
Query contexts: what a query under construction has been told so far. Every
operation either gives the new context or an error, and then nothing changes.
-/

namespace FluentQuery

open Sql

/-- A join of a relationship to an alias of its target. The value of `outer` counts by its truth,
which is asked for when the statement is made. -/
structure JoinPlan where
  owner : Mapped
  relationship : Relationship
  target : Mapped
  outer : Value

/-- What queries and subqueries have beyond a restriction. -/
structure SelectBody where
  roots : List Value
  joins : List JoinPlan
  groupBy : List Value
  having : Value
  distinct : Value
  selection : Value

inductive ContextKind where
  /-- Nothing but a restriction. -/
  | common
  /-- A body that is neither a query nor a subquery. -/
  | abstract (body : SelectBody)
  | query (body : SelectBody) (orders : List Value)
  | subquery (body : SelectBody) (parent : Value) (correlated : List Value)
      (joinConditions : List Term)
  | delete (target : Value)
  | update (target : Value) (assignments : List (String × Value))

structure Context where
  restriction : Value
  kind : ContextKind

namespace SelectBody

def empty : SelectBody := ⟨[], [], [], .null, .bool false, .null⟩

end SelectBody

namespace ContextKind

def body? : ContextKind → Option SelectBody
  | abstract b | query b _ | subquery b .. => some b
  | common | delete _ | update .. => none

def withBody (k : ContextKind) (b : SelectBody) : ContextKind :=
  match k with
  | abstract _ => abstract b
  | query _ orders => query b orders
  | subquery _ parent correlated conditions => subquery b parent correlated conditions
  | k => k

def className : ContextKind → String
  | common => "CommonCriteria"
  | abstract _ => "AbstractQuery"
  | query .. => "CriteriaQuery"
  | subquery .. => "Subquery"
  | delete _ => "CriteriaDelete"
  | update .. => "CriteriaUpdate"

end ContextKind

namespace Context

def ofKind (k : ContextKind) : Context := ⟨.null, k⟩

def query : Context := ofKind (.query .empty [])

def subquery (parent : Value) : Context := ofKind (.subquery .empty parent [] [])

def isSubquery (c : Context) : Bool := c.kind matches .subquery ..

def isQuery (c : Context) : Bool := c.kind matches .query ..

def isUpdate (c : Context) : Bool := c.kind matches .update ..

/-- Whether the context selects something. -/
def isSelecting (c : Context) : Bool := c.kind.body?.isSome

/-- Changes the body; a context without one has no such operation. -/
def updateBody (c : Context) (f : SelectBody → SelectBody) : Except Error Context :=
  match c.kind.body? with
  | none => .error .external
  | some b => .ok { c with kind := c.kind.withBody (f b) }

/-- Replaces the restriction. -/
def restrict (c : Context) (r : Value) : Except Error Context :=
  if r.isNull then .error (.null "restriction") else .ok { c with restriction := r }

def groupBy (c : Context) (items : List Value) : Except Error Context :=
  c.updateBody fun b => { b with groupBy := items }

def having (c : Context) (r : Value) : Except Error Context :=
  if c.isSelecting && r.isNull then .error (.null "restriction")
  else c.updateBody fun b => { b with having := r }

def distinct (c : Context) (v : Value) : Except Error Context :=
  c.updateBody fun b => { b with distinct := v }

def select (c : Context) (v : Value) : Except Error Context :=
  if c.isSelecting && v.isNull then .error (.null "selection")
  else c.updateBody fun b => { b with selection := v }

/-- Replaces the sort order; only the outermost kind of query has one. -/
def orderBy (c : Context) (items : List Value) : Except Error Context :=
  match c.kind with
  | .query b _ => .ok { c with kind := .query b items }
  | _ => .error .external

/-- Correlates a root of an enclosing query, once. -/
def correlate (c : Context) (root : Value) : Except Error Context :=
  match c.kind with
  | .subquery b parent correlated conditions =>
    if root.isNull then .error (.null "root")
    else if correlated.any root.same then .ok c
    else .ok { c with kind := .subquery b parent (correlated ++ [root]) conditions }
  | _ => .error .external

/-- Whether `root` is one of the correlated roots. -/
def correlates (c : Context) (root : Value) : Bool :=
  match c.kind with
  | .subquery _ _ correlated _ => correlated.any root.same
  | _ => false

/-- A new alias, numbered `fresh`, of a mapped class, an alias, or the target of a relationship. -/
def aliasOf? (fresh : Nat) : Value → Option Mapped
  | .mapped m => some ⟨m.entity, some fresh⟩
  | .member ⟨_, .relationship r⟩ => some ⟨r.target, some fresh⟩
  | _ => none

/-- Adds a root for `entity`. The first root of a query is the entity itself; any other, and every
root of a subquery, is a new alias. -/
def addRoot (c : Context) (fresh : Nat) (entity : Value) : Except Error (Value × Context) :=
  match c.kind.body? with
  | none => .error .external
  | some b =>
    if entity.isNull then .error (.null "entity")
    else if b.roots.isEmpty && !c.isSubquery then do
      let c ← c.updateBody fun b => { b with roots := b.roots ++ [entity] }
      return (entity, c)
    else match aliasOf? fresh entity with
      | none => .error .external
      | some m => do
        let c ← c.updateBody fun b => { b with roots := b.roots ++ [.mapped m] }
        return (.mapped m, c)

/-- Joins a relationship of `owner` to a new alias of its target, numbered `fresh`. From a
correlated root, which the subquery does not list itself, the alias becomes a root and the join's
condition is kept aside; then `truth`, that of `outer`, has to be known. -/
def join (c : Context) (fresh : Nat) (correlated : Bool) (owner : Mapped) (r : Relationship)
    (outer : Value) (truth : Option Bool) : Except Error (Value × Context) :=
  let target : Mapped := ⟨r.target, some fresh⟩
  if correlated then
    match c.kind with
    | .subquery b parent roots conditions =>
      match truth, r.link with
      | none, _ => .error .external
      | some true, _ => .error .outerFromCorrelated
      | some false, .through .. => .error .throughFromCorrelated
      | some false, _ =>
        let b := { b with roots := b.roots ++ [.mapped target] }
        let condition := r.condition owner.source target.source target.source
        .ok (.mapped target,
          { c with kind := .subquery b parent roots (conditions ++ [condition]) })
    | _ => .error .external
  else do
    let c ← c.updateBody fun b => { b with joins := b.joins ++ [⟨owner, r, target, outer⟩] }
    return (.mapped target, c)

/-- Adds a SET clause; a later one for the same attribute replaces it. -/
def assign (c : Context) (key : String) (v : Value) : Except Error Context :=
  match c.kind with
  | .update target assignments =>
    .ok { c with kind := .update target (assoc key v assignments) }
  | _ => .error .external

/-- The entity a bulk statement targets. -/
def target? (c : Context) : Option Value :=
  match c.kind with
  | .delete target | .update target _ => some target
  | _ => none

end Context

end FluentQuery
