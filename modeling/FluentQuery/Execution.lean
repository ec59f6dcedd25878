import FluentQuery.Build
import FluentQuery.Describe

/-!
Running executable queries against a session that answers with rows or with a
count of affected rows.
-/

namespace FluentQuery

open Sql

/-- What a session answered. -/
inductive Answer where
  | rows (rows : List (List Datum))
  | count (n? : Option Datum)

/-- The session a value is. -/
def requireSession (v : Value) : Run Session :=
  match v with
  | .session x => return x
  | _ => fail .external

/-- How a session executes a statement with the options of a mapping. -/
abbrev Sending := Session → Statement → MappingId → Run Answer

/-- Sends a statement to a session; the trace notes it. -/
def sendTo (session : Session) (s : Statement) (options : MappingId) : Run Answer := do
  let m ← get
  let statement ← orExternal ((Value.statement 0 s).describe? m)
  note (.execution statement
    (← orExternal (Description.fields (Value.describe? m) (m.mapping options))))
  match session.spec.failure?, session.spec.rows? with
  | some e, _ => fail e
  | none, some rows => return .rows rows
  | none, none => return .count session.spec.rowCount?

/-- Whether a row of the statement is a single value. -/
def isSingle : Statement → Run Bool
  | .select s => return s.items.length == 1
  | _ => fail .external

/-- What a row gives: its value if it is a single one, else the row. -/
def element (single : Bool) (row : List Datum) : Run Value := do
  if single then Value.ofDatum (← orExternal row.head?)
  else return .row (← fresh) (← row.mapM Value.ofDatum)

namespace QueryId

/-- Sends the statement of a search; gives the rows it found, and whether each is a single
value. -/
def found (send : Sending) (q : QueryId) (x : Executable) (s : Statement) : Run (Bool × List (List Datum)) := do
  logLine do return "Executing " ++ (← shownNow (.query q))
  let answer ← send (← requireSession x.session) s x.options
  let single ← isSingle s
  match answer with
  | .rows rows => return (single, rows)
  | .count _ => fail .external

def typed (q : QueryId) : Run Executable := do
  let x ← q.read
  match x.kind with
  | .typed => return x
  | _ => fail .external

def currentStatement (x : Executable) : Run Statement := do
  let m ← get
  liftExcept (x.statement m m.next)

/-- All elements. -/
def fetch (send : Sending) (q : QueryId) : Run Value := do
  let x ← q.typed
  let (single, rows) ← q.found send x (← currentStatement x)
  let elements ← rows.mapM (element single)
  logLine (pure ("Fetched " ++ toString elements.length ++ " rows"))
  newList elements

/-- The first element, or null; nothing is sent if no row may be returned. -/
def first (send : Sending) (q : QueryId) : Run Value := do
  let x ← q.typed
  if x.maxResults.isZero then return .null
  match ← currentStatement x with
  | .select s =>
    let limited : Select := { s with limit := some ⟨(← get).next + 1, 1⟩ }
    match ← q.found send x (.select limited) with
    | (single, row :: _) => element single row
    | (_, []) => return .null
  | _ => fail .external

/-- The only element. -/
def one (send : Sending) (q : QueryId) : Run Value := do
  let x ← q.typed
  match ← q.found send x (← currentStatement x) with
  | (_, []) => fail (.signal .noResultFound)
  | (single, [row]) => element single row
  | _ => fail (.signal .multipleResultsFound)

/-- The restriction of the query underneath. -/
def restriction (x : Executable) : Run Value := do
  match x.query with
  | .context c => return (← c.read).restriction
  | _ => fail .external

/-- Runs a bulk statement and gives the number of affected rows. Row bounds are refused, and so is
a statement without a restriction unless the settings allow it. -/
def execute (q : QueryId) : Run Value := do
  let x ← q.read
  match x.kind with
  | .bulk =>
    if x.firstResult.isSet || x.maxResults.isSet then fail .boundedBulk
    if (← restriction x).isNull && !(← get).settings.allowUnfilteredBulk then
      fail (.unfilteredBulk (← shownNow x.query))
    logLine do return "Executing " ++ (← shownNow (.query q))
    let session ← requireSession x.session
    match ← sendTo session (← currentStatement x) x.options with
    | .rows _ | .count none => return .int 0 0
    | .count (some d) => Value.ofDatum d
  | _ => fail .external

/-- Sets a row bound. -/
def setBound (q : QueryId) (b : Bounding) (v : Value) : Run Unit := do
  let x ← q.read
  let bound ← requireBound b v
  q.write (match b with
    | .skip => { x with firstResult := bound }
    | .limit => { x with maxResults := bound })

/-- A query ready to run, as a program makes it. -/
def ofParts (kind : QueryKind) (session query params options : Value) : Run QueryId := do
  if session.isNull then fail (.null "session")
  if query.isNull then fail (.null "query")
  let params ← fieldsOf params
  let options ← fieldsOf options
  params.forM fun x => register x.2
  let params ← MappingId.new params
  let options ← MappingId.new options
  QueryId.new ⟨kind, session, query, params, options, .unset, .unset⟩

end QueryId

end FluentQuery
