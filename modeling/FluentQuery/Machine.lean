import FluentQuery.Context
import FluentQuery.Description
import FluentQuery.Text.Blank

/-!
The state a program runs in, and computations over it. A computation that
fails keeps the changes made up to the failure.
-/

namespace FluentQuery

open Sql

/-- A query ready to run: a session, a query, the row bounds, and two live mappings. -/
structure Executable where
  kind : QueryKind
  session : Value
  query : Value
  params : MappingId
  options : MappingId
  firstResult : Bound
  maxResults : Bound

/-- The settings a program can depend on, and whether anyone reads the log. -/
structure Diagnostics where
  allowUnfilteredBulk : Bool
  logCompiledSql : Bool
  logging : Bool

structure Machine where
  /-- What each Ref holds. -/
  refs : List (Option Value)
  /-- What was written to each Ref so far, oldest first; none where it was unbound. -/
  writes : List (List (Option Value))
  contexts : List Context
  queries : List Executable
  mappings : List (List (String × Value))
  /-- The objects that parameters can carry. -/
  handles : List Value
  globals : List (String × Value)
  /-- The construction stack, innermost frame first. -/
  stack : List Frame
  trace : List Description
  log : List String
  /-- The number of the next object, alias or parameter. -/
  next : Nat
  settings : Diagnostics

abbrev Run := ExceptT Error (StateM Machine)

def fail {α : Type} (e : Error) : Run α := throw e

def liftExcept {α : Type} : Except Error α → Run α
  | .ok a => pure a
  | .error e => fail e

/-- A value, or a misuse without a message. -/
def orExternal {α : Type} : Option α → Run α
  | some a => pure a
  | none => fail .external

/-- A number nothing else has. -/
def fresh : Run Nat :=
  modifyGet fun m => (m.next, { m with next := m.next + 1 })

namespace Machine

def initial (settings : Diagnostics) : Machine :=
  ⟨[], [], [], [], [], [], [], [], [], [], 0, settings⟩

def ref? (m : Machine) (r : RefId) : Option Value := (m.refs[r.index]?).join

def context? (m : Machine) (c : ContextId) : Option Context := m.contexts[c.index]?

def query? (m : Machine) (q : QueryId) : Option Executable := m.queries[q.index]?

def mapping (m : Machine) (i : MappingId) : List (String × Value) := (m.mappings[i.index]?).getD []

/-- After a write to a Ref: a value, or nothing. -/
def write (m : Machine) (r : RefId) (v? : Option Value) : Machine :=
  { m with
    refs := m.refs.set r.index v?
    writes := m.writes.modify r.index (· ++ [v?]) }

end Machine

/-! ### Refs -/

namespace RefId

def new : Run RefId :=
  modifyGet fun m =>
    (⟨m.refs.length⟩, { m with refs := m.refs ++ [none], writes := m.writes ++ [[]] })

def isBound (r : RefId) : Run Bool := return ((← get).ref? r).isSome

/-- Writes once; a bound Ref refuses. -/
def bind (r : RefId) (v : Value) : Run Unit := do
  if ← r.isBound then fail .alreadyBound
  modify (·.write r (some v))

def read (r : RefId) : Run Value := do
  match (← get).ref? r with
  | some v => return v
  | none => fail .unbound

def unbind (r : RefId) : Run Unit :=
  modify (·.write r none)

end RefId

/-! ### Query contexts, executable queries and mappings -/

namespace ContextId

def new (c : Context) : Run ContextId :=
  modifyGet fun m => (⟨m.contexts.length⟩, { m with contexts := m.contexts ++ [c] })

def read (c : ContextId) : Run Context := do orExternal ((← get).context? c)

def write (c : ContextId) (x : Context) : Run Unit :=
  modify fun m => { m with contexts := m.contexts.set c.index x }

/-- Applies an operation; if it is refused the context stays as it was. -/
def update (c : ContextId) (f : Context → Except Error Context) : Run Unit := do
  c.write (← liftExcept (f (← c.read)))

/-- Applies an operation that also gives a value. -/
def updateGet (c : ContextId) (f : Context → Except Error (Value × Context)) : Run Value := do
  let (v, x) ← liftExcept (f (← c.read))
  c.write x
  return v

end ContextId

namespace MappingId

def new (fields : List (String × Value)) : Run MappingId :=
  modifyGet fun m => (⟨m.mappings.length⟩, { m with mappings := m.mappings ++ [fields] })

def read (i : MappingId) : Run (List (String × Value)) := return (← get).mapping i

def update (i : MappingId) (fields : List (String × Value)) : Run Unit :=
  modify fun m => { m with mappings := m.mappings.set i.index (override (m.mapping i) fields) }

end MappingId

namespace QueryId

def new (q : Executable) : Run QueryId :=
  modifyGet fun m => (⟨m.queries.length⟩, { m with queries := m.queries ++ [q] })

def read (q : QueryId) : Run Executable := do orExternal ((← get).query? q)

def write (q : QueryId) (x : Executable) : Run Unit :=
  modify fun m => { m with queries := m.queries.set q.index x }

end QueryId

/-! ### Trace, log and fresh values -/

def note (d : Description) : Run Unit := modify fun m => { m with trace := m.trace ++ [d] }

/-- Writes a line to the log; its text is asked for only if anyone reads the log. -/
def logLine (text : Run String) : Run Unit := do
  if (← get).settings.logging then
    let line := Text.collapse (← text)
    modify fun m => { m with log := m.log ++ [line] }

/-- An object as a parameter value. -/
def handle (v : Value) : Run Literal :=
  modifyGet fun m => (v.carried, { m with handles := m.handles ++ [v] })

/-- Makes sure that an object can be found as a parameter value. -/
def register (v : Value) : Run Unit := do
  if v.identity?.isSome then discard (handle v)

def newTerm (t : Term) : Run Value := return .term (← fresh) t

def newInt (n : Int) : Run Value := return .int (← fresh) n

def newFloat (x : Binary64) : Run Value := return .float (← fresh) x

def newText (s : String) : Run Value := return .text (← fresh) s

def newList (items : List Value) : Run Value := return .list (← fresh) items

def newTuple (items : List Value) : Run Value := return .tuple (← fresh) items

def newMapping (fields : List (String × Value)) : Run Value := do
  return .mapping (← MappingId.new fields)

/-- Plain data as a value; lists and mappings are new objects. -/
def Value.ofDatum : Datum → Run Value
  | .null => return .null
  | .bool b => return .bool b
  | .int n => return .int 0 n
  | .float x => return .float 0 x
  | .text s => return .text 0 s
  | .list items => do newList (← ofData items)
  | .mapping fields => do newMapping (← ofFields fields)
where
  ofData : List Datum → Run (List Value)
    | [] => return []
    | d :: ds => do
      let v ← Value.ofDatum d
      return v :: (← ofData ds)
  ofFields : List (String × Datum) → Run (List (String × Value))
    | [] => return []
    | (k, d) :: rest => do
      let v ← Value.ofDatum d
      return (k, v) :: (← ofFields rest)

/-- Plain data where a program writes it down. What is no finite number is the same everywhere. -/
def Value.written : Datum → Run Value
  | .int n => newInt n
  | .float (.finite s units) => newFloat (.finite s units)
  | .text s => newText s
  | d => Value.ofDatum d

/-! ### Truth -/

/-- Whether a value counts as true where only truth matters. An equation counts as true if both of
its sides are one expression; other expressions are neither true nor false. -/
def Value.truth? (m : Machine) : Value → Option Bool
  | .null => some false
  | .bool b => some b
  | .int _ n => some (n != 0)
  | .float _ x => some (!x.isZero)
  | .text _ s => some !s.isEmpty
  | .list _ items | .tuple _ items | .row _ items => some !items.isEmpty
  | .mapping i => some !(m.mapping i).isEmpty
  | .term _ (.compare .eq reflexive _ _) => some reflexive
  | .term _ (.compare .ne reflexive _ _) => some !reflexive
  | .term .. | .statement .. => none
  | _ => some true

/-- Whether a value counts as true; an expression that is neither is a misuse. -/
def Value.truth (v : Value) : Run Bool := do orExternal (v.truth? (← get))

/-! ### The construction stack -/

/-- Runs `cleanup` after `body`, however `body` ends. -/
def ensuring {α : Type} (body : Run α) (cleanup : Run Unit) : Run α := do
  let a ← try body catch e => do cleanup; throw e
  cleanup
  return a

/-- Runs `body` on another stack and puts the present one back, however `body` ends. -/
def onStack {α : Type} (stack : List Frame) (body : Run α) : Run α := do
  let saved := (← get).stack
  modify fun m => { m with stack }
  ensuring body (modify fun m => { m with stack := saved })

def currentFrame : Run Frame := do
  match (← get).stack with
  | f :: _ => return f
  | [] => fail .noActiveContext

end FluentQuery
