import FluentQuery.Configuration

/-!
Streams: immutable nodes of a fluent chain. Every operation checks its
arguments and gives a new node whose configuration has one step more; nothing is
built and no function is called until a terminal operation runs.
-/

namespace FluentQuery

open Sql

/-- What an attribute or a function reads off a selection; `what` names it in messages. -/
def selector (what : String) (target : Value) : Run Projection := do
  if target.isNull then fail (.null what)
  match target with
  | .text .. | .member _ => return .named target
  | v => if v.isCallable then return .function v else fail (.notSelector what (← classNow v))

/-- Like `selector`, and a Ref stands for what it holds when the step is applied. -/
def expressionSelector (what : String) (target : Value) : Run Projection :=
  match target with
  | .ref r => return .held r
  | v => selector what v

/-- A Ref that is not bound yet. -/
def requireUnbound (v : Value) : Run RefId := do
  match v with
  | .ref r => if ← r.isBound then fail .alreadyBound else return r
  | _ => fail .external

def requireBound (b : Bounding) (v : Value) : Run Bound := do
  let x ← orExternal v.bound?
  if x.lt .unset then fail (.invalidBound b)
  return x

/-- The field that an item of a list stands for: a name and a value. -/
def fieldOf (v : Value) : Run (String × Value) := do
  match ← itemsOf v with
  | [.text _ k, v] => return (k, v)
  | [_, _] => fail .external
  | _ => fail (.signal .valueError)

/-- The fields a mapping is made from; whatever counts as false has none. -/
def fieldsOf (v : Value) : Run (List (String × Value)) := do
  if !(← v.truth) then return []
  match v with
  | .mapping i => i.read
  | v => return override [] (← (← itemsOf v).mapM fieldOf)

namespace Stream

/-- The first node of a chain. -/
def new (kind : StreamKind) (session queryType configurer : Value) (firstResult maxResults : Value)
    (params options : Value) : Run Stream := do
  if session.isNull then fail (.null "session")
  if queryType.isNull then fail (.null "query_type")
  if configurer.isNull then fail (.null "configurer")
  let firstResult ← requireBound .skip firstResult
  let maxResults ← requireBound .limit maxResults
  let params ← fieldsOf params
  let options ← fieldsOf options
  params.forM fun x => register x.2
  return ⟨← fresh, kind, session, queryType, configurer, firstResult, maxResults, params, options⟩

/-- The node after one more step. -/
def extend (s : Stream) (step : Step) : Run Stream := do
  let configurer ← Configurer.extend s.configurer step
  return { s with id := ← fresh, configurer }

/-- After a row bound was set the structure of the query is frozen. -/
def requireUnbounded (s : Stream) (operation : String) : Run Unit :=
  if s.firstResult.isSet || s.maxResults.isSet then fail (.afterBounds operation) else return ()

/-! ### Every stream -/

def bind (s : Stream) (ref function : Value) : Run Stream := do
  if ref.isNull then fail (.null "ref")
  let p ← if function.isNull then pure .whole else selector "ref function" function
  s.extend (.bind (← requireUnbound ref) p)

def peek (s : Stream) (peeker : Value) : Run Stream := do
  if peeker.isNull then fail (.null "peeker")
  s.extend (.peek peeker)

def filter (s : Stream) (predicate : Value) : Run Stream := do
  let p ← selector "predicate" predicate
  s.requireUnbounded "filter()"
  s.extend (.filter s.queryType p)

/-- A bound that is a whole number and not negative. -/
def requireNatural (b : Bounding) (v : Value) : Run Bound := do
  match v.bound? with
  | none => fail (.negative b)
  | some x =>
    match x.whole? with
    | some n => if n < 0 then fail (.negative b) else return x
    | none => fail (.negative b)

/-- Of several limits the smallest counts. -/
def limit (s : Stream) (v : Value) : Run Stream := do
  let x ← requireNatural .limit v
  let maxResults := if s.maxResults.isSet && s.maxResults.lt x then s.maxResults else x
  return { ← s.extend (.bounded .limit) with maxResults }

/-- Several offsets add up. -/
def skip (s : Stream) (v : Value) : Run Stream := do
  let x ← requireNatural .skip v
  let firstResult ← if s.firstResult.isSet then orExternal (s.firstResult.add? x) else pure x
  return { ← s.extend (.bounded .skip) with firstResult }

def withParams (s : Stream) (params : List (String × Value)) : Run Stream := do
  params.forM fun x => register x.2
  return { s with id := ← fresh, params := override s.params params }

def withOptions (s : Stream) (options : List (String × Value)) : Run Stream := do
  return { s with id := ← fresh, options := override s.options options }

/-! ### Searches -/

def distinct (s : Stream) : Run Stream := do
  s.requireUnbounded "distinct()"
  s.extend .distinct

def sort (s : Stream) (o : Ordering) : Run Stream := do
  s.requireUnbounded "sorting"
  s.extend (.sort o)

def orderBy (s : Stream) (target ascending : Value) : Run Stream := do
  let p ← expressionSelector "order expression" target
  s.sort (.keys [(p, ascending)])

/-- The keys of an ordering by several attributes, counted from `position`. -/
def orderKeys (position : Nat) : List Value → Run (List (Projection × Value))
  | [] => return []
  | .tuple _ [key, ascending] :: rest => do
    let p ← selector ("attribute" ++ toString position) key
    return (p, ascending) :: (← orderKeys (position + 1) rest)
  | _ :: _ => fail (.orderNotPair position)

def orderByAttributes (s : Stream) (orders : List Value) : Run Stream := do
  if orders.isEmpty then fail .noOrders
  s.sort (.keys (← orderKeys 1 orders))

def orderByListed (s : Stream) (f : Value) : Run Stream := do
  if f.isNull then fail (.null "order_list_function")
  s.sort (.listed f)

def group (s : Stream) (g : Grouping) : Run Stream := do
  s.requireUnbounded "grouping"
  s.extend (.group g)

def groupBy (s : Stream) (target : Value) : Run Stream := do
  s.group (.key (← expressionSelector "group expression" target))

def groupByListed (s : Stream) (f : Value) : Run Stream := do
  if f.isNull then fail (.null "group_function")
  s.group (.listed f)

def having (s : Stream) (predicate : Value) : Run Stream := do
  let p ← selector "having_function" predicate
  s.requireUnbounded "grouping"
  s.extend (.having p)

def addRoot (s : Stream) (ref entity : Value) : Run Stream := do
  if ref.isNull then fail (.null "ref")
  if entity.isNull then fail (.null "entity")
  let r ← requireUnbound ref
  s.requireUnbounded "roots"
  s.extend (.addRoot r entity)

def join (s : Stream) (key outer : Value) : Run Stream := do
  if key.isNull then fail (.null "attribute")
  s.requireUnbounded "join()"
  s.extend (.join key outer)

def map (s : Stream) (target : Value) : Run Stream := do
  s.extend (.map (← selector "mapper" target))

def count (s : Stream) : Run Stream := s.extend .count

/-! ### Updates -/

def assign (s : Stream) (key v : Value) : Run Stream := do
  if key.isNull then fail (.null "attribute")
  s.requireUnbounded "set()"
  s.extend (.assign key v)

end Stream

namespace QueryType

def new (purpose : Purpose) (entity : Value) : Run QueryType := do
  if entity.isNull then fail (.null "entity")
  return ⟨← fresh, purpose, entity⟩

/-- A new context of the kind of query this type creates. -/
def createContext (t : QueryType) : Run ContextId :=
  ContextId.new (match t.purpose with
    | .search => .query
    | .delete => .ofKind (.delete t.entity)
    | .update => .ofKind (.update t.entity []))

/-- Selects a selection; bulk queries have none to select. -/
def select (t : QueryType) (query selection : Value) : Run Value := do
  match t.purpose with
  | .delete | .update => return query
  | .search =>
    match query with
    | .context c =>
      let x ← c.read
      if !x.isSelecting then fail (.cannotSelect x.kind.className)
      c.update (·.select selection)
      return query
    | v => fail (.cannotSelect (← classNow v))

/-- Wraps a query for execution. -/
def createQuery (t : QueryType) (session query : Value) : Run QueryId := do
  if session.isNull then fail (.null "session")
  if query.isNull then fail (.null "query")
  let kind := match t.purpose with
    | .search => QueryKind.typed
    | .delete | .update => .bulk
  QueryId.new ⟨kind, session, query, ← MappingId.new [], ← MappingId.new [], .unset, .unset⟩

end QueryType

/-! ### Entry points -/

namespace Stream

/-- A stream with neither row bounds nor parameters nor options. -/
def start (session : Value) (t : QueryType) (c : Configurer) : Run Stream := do
  return ⟨← fresh, .of t.purpose, session, .queryType t, .configurer c, .unset, .unset, [], []⟩

/-- A stream over the rows of `entity`, for one purpose. -/
def ofEntity (purpose : Purpose) (session entity : Value) : Run Stream := do
  if entity.isNull then fail (.null "entity")
  let t ← QueryType.new purpose entity
  let configurer : Configurer := ⟨← fresh, .root entity, []⟩
  start session t configurer

/-- The mapped class behind a root: that of an entity or alias, or the target of a relationship. -/
def classOf? : Value → Option Entity
  | .mapped m => some m.entity
  | .member ⟨_, .relationship r⟩ => some r.target
  | _ => none

/-- A stream that starts from a root of an enclosing query. -/
def ofRoot (session root : Value) : Run Stream := do
  if root.isNull then fail (.null "root")
  match classOf? root with
  | none => fail (.notMapped (← shownNow root))
  | some e =>
    let t ← QueryType.new .search (.mapped ⟨e, none⟩)
    let configurer : Configurer := ⟨← fresh, .correlated root, []⟩
    start session t configurer

end Stream

end FluentQuery
