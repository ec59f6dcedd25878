import FluentQuery.Execution

/-!
What programs can call: constructors, methods and functions by name, with their
parameters. A call that does not fit its parameters is a misuse.
-/

namespace FluentQuery

open Sql

/-- The arguments of a call. -/
structure ArgList where
  positional : List Value
  keyword : List (String × Value)

namespace ArgList

/-- The parameters of a callable: those that must be given, those that may be left out, and those
that are given by keyword alone. -/
structure Signature where
  required : List String
  optional : List String
  keywordOnly : List String

/-- The value of each parameter in order, none for one left out. -/
def bind (a : ArgList) (s : Signature) : Run (List (Option Value)) := do
  let places := s.required ++ s.optional
  let names := places ++ s.keywordOnly
  if a.positional.length > places.length then fail .external
  let given := places.take a.positional.length
  if a.keyword.any fun x => !names.contains x.1 || given.contains x.1 then fail .external
  let values := names.zipIdx.map fun (name, i) =>
    if i < a.positional.length then a.positional[i]? else a.keyword.lookup name
  if (values.take s.required.length).any Option.isNone then fail .external
  return values

/-- The values of parameters that must all be given. -/
def exactly (a : ArgList) (required : List String) : Run (List Value) := do
  return (← a.bind ⟨required, [], []⟩).filterMap id

/-- A call without arguments. -/
def requireNone (a : ArgList) : Run Unit := do discard (a.exactly [])

/-- The value of the single parameter `name`. -/
def one (a : ArgList) (name : String) : Run Value := do
  match ← a.exactly [name] with
  | [v] => return v
  | _ => fail .external

/-- The values of two parameters. -/
def two (a : ArgList) (first second : String) : Run (Value × Value) := do
  match ← a.exactly [first, second] with
  | [v, w] => return (v, w)
  | _ => fail .external

/-- Any number of positional arguments. -/
def rest (a : ArgList) : Run (List Value) :=
  if a.keyword.isEmpty then return a.positional else fail .external

/-- Any number of keyword arguments. -/
def fields (a : ArgList) : Run (List (String × Value)) :=
  if a.positional.isEmpty then return a.keyword else fail .external

/-- Any number of keyword arguments of a method, in which `self` names the object it belongs to. -/
def ownFields (a : ArgList) : Run (List (String × Value)) := do
  let fields ← a.fields
  if fields.any (·.1 == "self") then fail .external
  return fields

end ArgList

/-! ### Methods -/

namespace RefId

def invoke (r : RefId) (method : String) (a : ArgList) : Run Value := do
  match method with
  | "bind" => do
    r.bind (← a.one "value")
    return .null
  | "get" => do
    a.requireNone
    r.read
  | "is_bound" => do
    a.requireNone
    return .bool (← r.isBound)
  | "unbind" => do
    a.requireNone
    r.unbind
    return .null
  | _ => fail .external

end RefId

/-- A new query context as a value. -/
def newContext (k : ContextKind) : Run Value := return .context (← ContextId.new (.ofKind k))

/-- A new context for a bulk statement on `entity`. -/
def newBulk (kind : Value → ContextKind) (entity : Value) : Run Value := do
  if entity.isNull then fail (.null "entity")
  newContext (kind entity)

/-- Methods of a criteria builder. -/
def invokeBuilder (method : String) (a : ArgList) : Run Value := do
  match method with
  | "and_" => Expression.connect .and (← a.rest)
  | "asc" => Expression.sorted .asc (← a.one "expr")
  | "desc" => Expression.sorted .desc (← a.one "expr")
  | "order" => do
    let (v, ascending) ← a.two "expr" "ascending"
    Expression.sorted (if ← ascending.truth then .asc else .desc) v
  | "count" =>
    match ← a.bind ⟨[], ["expr"], []⟩ with
    | [some v] => if v.isNull then Expression.call "count" [] else Expression.call "count" [v]
    | _ => Expression.call "count" []
  | "count_distinct" => Expression.countDistinct (← a.one "expr")
  | "create_query" => do
    a.requireNone
    newContext (.query .empty [])
  | "create_delete" => newBulk .delete (← a.one "entity")
  | "create_update" => newBulk (.update · []) (← a.one "entity")
  | _ => fail .external

namespace ContextId

/-- Methods of a query context; those that change it give the context back. -/
def invoke (c : ContextId) (method : String) (a : ArgList) : Run Value := do
  let x ← c.read
  let self : Value := .context c
  let changed (f : Context → Except Error Context) : Run Value := do
    c.update f
    return self
  match method with
  | "where" => do
    let v ← a.one "restriction"
    changed (·.restrict v)
  | "subquery" => do
    a.requireNone
    newContext (.subquery .empty self [] [])
  | "from_" => do
    if x.kind matches .common then fail .external
    c.addRoot (← a.one "entity")
  | "set" => do
    let (key, v) ← a.two "attribute" "value"
    c.assign key v
    return self
  | "correlate" => do
    let root ← a.one "root"
    c.update (·.correlate root)
    return root
  | "scalar" => do
    a.requireNone
    c.scalar
  | "exists" => do
    a.requireNone
    c.existence
  | "order_by" => do
    if !x.isQuery then fail .external
    let items ← itemsOf (← a.one "orders")
    changed (·.orderBy items)
  | method => do
    if !x.isSelecting then fail .external
    match method with
    | "join" =>
      match ← a.bind ⟨["from_", "attribute"], [], ["outer"]⟩ with
      | [some owner, some key, outer] => c.join owner key (outer.getD (.bool false))
      | _ => fail .external
    | "group_by" => do
      let items ← itemsOf (← a.one "expressions")
      changed (·.groupBy items)
    | "having" => do
      let v ← a.one "restriction"
      changed (·.having v)
    | "distinct" =>
      match ← a.bind ⟨[], ["distinct"], []⟩ with
      | [v] => changed (·.distinct (v.getD (.bool true)))
      | _ => fail .external
    | "select" => do
      let v ← a.one "selection"
      changed (·.select v)
    | _ => fail .external

end ContextId

namespace Stream

def invokeSearch (call : Call) (s : Stream) (method : String) (a : ArgList) : Run Value := do
  match method with
  | "distinct" => do
    a.requireNone
    return .stream (← s.distinct)
  | "order_by" =>
    match ← a.bind ⟨["target"], ["asc"], []⟩ with
    | [some target, ascending] =>
      return .stream (← s.orderBy target (ascending.getD (.bool true)))
    | _ => fail .external
  | "order_by_attributes" => return .stream (← s.orderByAttributes (← a.rest))
  | "order_by_multi" => return .stream (← s.orderByListed (← a.one "order_list_function"))
  | "group_by" => return .stream (← s.groupBy (← a.one "target"))
  | "group_by_multi" => return .stream (← s.groupByListed (← a.one "group_function"))
  | "having" => return .stream (← s.having (← a.one "having_function"))
  | "add_root" => do
    let (ref, entity) ← a.two "ref" "entity"
    return .stream (← s.addRoot ref entity)
  | "join" =>
    match ← a.bind ⟨["attribute"], [], ["outer"]⟩ with
    | [some key, outer] => return .stream (← s.join key (outer.getD (.bool false)))
    | _ => fail .external
  | "map" => return .stream (← s.map (← a.one "target"))
  | "count" => do
    a.requireNone
    return .stream (← s.count)
  | "as_subquery" => do
    a.requireNone
    s.asSubquery call
  | "exists" => do
    a.requireNone
    s.existence call
  | _ => fail .external

/-- Methods that every kind of stream has, and then those of its own kind. -/
def invoke (call : Call) (s : Stream) (method : String) (a : ArgList) : Run Value := do
  match method, s.kind with
  | "configure", _ => do
    let (builder, query) ← a.two "builder" "query"
    FluentQuery.configure call s.configurer builder query
  | _, .base => fail .external
  | "to_criteria_query", _ => do
    a.requireNone
    s.toContext call
  | "to_query", _ => do
    a.requireNone
    s.toQuery call
  | "bind", _ =>
    match ← a.bind ⟨["ref"], ["function"], []⟩ with
    | [some ref, function] => return .stream (← s.bind ref (function.getD .null))
    | _ => fail .external
  | "peek", _ => return .stream (← s.peek (← a.one "peeker"))
  | "filter", _ => return .stream (← s.filter (← a.one "predicate"))
  | "limit", _ => return .stream (← s.limit (← a.one "limit"))
  | "skip", _ => return .stream (← s.skip (← a.one "skip"))
  | "with_params", _ => return .stream (← s.withParams (← a.ownFields))
  | "with_execution_options", _ => return .stream (← s.withOptions (← a.ownFields))
  | method, .of .search => s.invokeSearch call method a
  | "set", .of .update => do
    let (key, v) ← a.two "attribute" "value"
    return .stream (← s.assign key v)
  | _, _ => fail .external

end Stream

namespace QueryType

def invoke (t : QueryType) (method : String) (a : ArgList) : Run Value := do
  match method with
  | "create_criteria_query" => do
    let builder ← a.one "builder"
    if builder.isNull then fail (.null "builder")
    builder.requireBuilder
    return .context (← t.createContext)
  | "create_query" => do
    let (session, query) ← a.two "session" "query"
    return .query (← t.createQuery session query)
  | "where" => do
    let (query, restriction) ← a.two "query" "restriction"
    QueryType.restrict query restriction
    return .null
  | "select" => do
    let (query, selection) ← a.two "query" "selection"
    t.select query selection
  | _ => fail .external

end QueryType

namespace QueryId

def invoke (q : QueryId) (method : String) (a : ArgList) : Run Value := do
  match method with
  | "fetch" => do
    a.requireNone
    q.fetch sendTo
  | "first" => do
    a.requireNone
    q.first sendTo
  | "one" => do
    a.requireNone
    q.one sendTo
  | "execute" => do
    a.requireNone
    q.execute
  | _ => fail .external

end QueryId

/-- Methods of a query builder over `session`. -/
def invokeQueryBuilder (session : Value) (method : String) (a : ArgList) : Run Value := do
  match method with
  | "stream" => return .stream (← Stream.ofEntity .search session (← a.one "entity"))
  | "delete_stream" => return .stream (← Stream.ofEntity .delete session (← a.one "entity"))
  | "update_stream" => return .stream (← Stream.ofEntity .update session (← a.one "entity"))
  | "substream" => return .stream (← Stream.ofRoot session (← a.one "root"))
  | _ => fail .external

/-- Takes over the fields of at most one mapping, or list of names with values, and then those given
by keyword. -/
def MappingId.merge (i : MappingId) (given : List Value) (keyword : List (String × Value)) :
    Run Unit := do
  let add (field : String × Value) : Run Unit := do
    register field.2
    i.update [field]
  match given with
  | [] => pure ()
  | [.mapping j] => (← j.read).forM add
  | [v] => (← itemsOf v).forM fun item => do add (← fieldOf item)
  | _ => fail .external
  keyword.forM add

/-- A call of a method of a value. -/
def invokeMethod (call : Call) (v : Value) (method : String) (a : ArgList) : Run Value :=
  match v with
  | .ref r => r.invoke method a
  | .criteriaBuilder _ => invokeBuilder method a
  | .context c => c.invoke method a
  | .stream s => s.invoke call method a
  | .queryType t => t.invoke method a
  | .query q => q.invoke method a
  | .queryBuilder _ session => invokeQueryBuilder session method a
  | .mapping i =>
    match method with
    | "update" => do
      i.merge a.positional a.keyword
      return .null
    | _ => fail .external
  | _ => fail .external

/-- A call of a method, or of what a property holds. -/
def invoke (call : Call) (v : Value) (name : String) (a : ArgList) : Run Value := do
  match ← v.property? name with
  | some f => call f (← a.rest)
  | none => invokeMethod call v name a

/-! ### Constructors -/

def newStream (kind : StreamKind) (a : ArgList) : Run Value := do
  match ← a.bind ⟨["session", "query_type", "configurer"], [],
    ["first_result", "max_results", "params", "execution_options"]⟩ with
  | [some session, some queryType, some configurer, first, max, params, options] =>
    return .stream (← Stream.new kind session queryType configurer (first.getD (.int 0 (-1)))
      (max.getD (.int 0 (-1))) (params.getD .null) (options.getD .null))
  | _ => fail .external

def newQuery (kind : QueryKind) (a : ArgList) : Run Value := do
  match ← a.bind ⟨["session", "query"], [], ["params", "execution_options"]⟩ with
  | [some session, some query, params, options] =>
    return .query (← QueryId.ofParts kind session query (params.getD .null) (options.getD .null))
  | _ => fail .external

def newQueryType (purpose : Purpose) (a : ArgList) : Run Value := do
  return .queryType (← QueryType.new purpose (← a.one "entity"))

/-- A constructor call. -/
def construct (className : String) (a : ArgList) : Run Value := do
  match className with
  | "Ref" => do
    a.requireNone
    return .ref (← RefId.new)
  | "QueryBuilder" => do
    let session ← a.one "session"
    if session.isNull then fail (.null "session")
    return .queryBuilder (← fresh) session
  | "CriteriaBuilder" => do
    a.requireNone
    return .criteriaBuilder (← fresh)
  | "CommonCriteria" => do
    a.requireNone
    newContext .common
  | "AbstractQuery" => do
    a.requireNone
    newContext (.abstract .empty)
  | "CriteriaQuery" => do
    a.requireNone
    newContext (.query .empty [])
  | "Subquery" => do
    let parent ← a.one "parent"
    if parent.isNull then fail (.null "parent")
    newContext (.subquery .empty parent [] [])
  | "CriteriaDelete" => newBulk .delete (← a.one "entity")
  | "CriteriaUpdate" => newBulk (.update · []) (← a.one "entity")
  | "SearchType" => newQueryType .search a
  | "DeleteType" => newQueryType .delete a
  | "UpdateType" => newQueryType .update a
  | "ExecutableQuery" => newQuery .base a
  | "TypedQuery" => newQuery .typed a
  | "BulkQuery" => newQuery .bulk a
  | "QueryStreamBase" => newStream .base a
  | "QueryStream" => newStream .common a
  | "SearchStream" => newStream (.of .search) a
  | "DeleteStream" => newStream (.of .delete) a
  | "UpdateStream" => newStream (.of .update) a
  | "QueryInfo" => do
    let (builder, query) ← a.two "builder" "query"
    if builder.isNull then fail (.null "builder")
    if query.isNull then fail (.null "query")
    return .frame ⟨← fresh, builder, query⟩
  | _ => fail .external

/-! ### Functions -/

/-- `compose` and `transform`: one more step after a configurer. -/
def extendConfigurer (what : String) (step : Value → Step) (a : ArgList) : Run Value := do
  let (prev, extra) ← a.two "prev" "extra"
  if prev.isNull then fail (.null "configurer")
  if extra.isNull then fail (.null what)
  Configurer.extend prev (step extra)

def resolve (a : ArgList) : Run Value := do
  let (selection, key) ← a.two "selection" "attribute"
  resolveAttribute selection key

/-- Writing a property; only the row bounds of an executable query can be written. -/
def setProperty (v : Value) (name : String) (x : Value) : Run Unit :=
  match v, name with
  | .query q, "first_result" => q.setBound .skip x
  | .query q, "max_results" => q.setBound .limit x
  | _, _ => fail .external

/-- The classes a value belongs to. -/
def Value.classes (m : Machine) (v : Value) : List String :=
  let own := v.className m
  match v with
  | .context c =>
    match m.context? c with
    | none => []
    | some x =>
      own :: "CommonCriteria" :: (if x.isSelecting then ["AbstractQuery"] else []) ++
        (match x.kind with
          | .update .. => ["CriteriaDelete"]
          | _ => [])
  | .stream s =>
    match s.kind with
    | .base => [own]
    | _ => [own, "QueryStream", "QueryStreamBase"]
  | .queryType _ => [own, "QueryType"]
  | .query _ => [own, "ExecutableQuery"]
  | .bool _ => [own, "int"]
  | _ => [own]

end FluentQuery
