import FluentQuery.Number.Shortest
import FluentQuery.Program

/-!
The values programs compute with. Refs, query contexts, executable queries and
mappings change over time and are known by an address; all other objects are
immutable and carry a number that tells two of them apart. Data that comes from
outside a program carries the number 0.
-/

namespace FluentQuery

open Sql

structure RefId where
  index : Nat
  deriving DecidableEq, Repr

structure ContextId where
  index : Nat
  deriving DecidableEq, Repr

structure QueryId where
  index : Nat
  deriving DecidableEq, Repr

structure MappingId where
  index : Nat
  deriving DecidableEq, Repr

/-- A row offset or row limit as it was given; true and false count as one and zero. -/
inductive Bound where
  | number (n : Int)
  | flag (b : Bool)
  | fraction (x : Binary64)
  deriving DecidableEq, Repr

namespace Bound

/-- The bound that stands for "not set". -/
def unset : Bound := number (-1)

/-- The whole number a bound is, if it was given as one. -/
def whole? : Bound → Option Int
  | number n => some n
  | flag b => some (if b then 1 else 0)
  | fraction _ => none

/-- Where a bound stands among the numbers; something that is no number stands nowhere. -/
def position? : Bound → Option Position
  | number n => some (.ofInt n)
  | flag b => some (.ofInt (if b then 1 else 0))
  | fraction x => x.position?

/-- The number of rows a statement shows: a fraction is cut off. What is no number, and what has no
end, stands for none. -/
def toInt : Bound → Except Error Int
  | number n => .ok n
  | flag b => .ok (if b then 1 else 0)
  | fraction .nan => .error (.signal .valueError)
  | fraction x =>
    match x.whole? with
    | some n => .ok n
    | none => .error .external

def lt (a b : Bound) : Bool :=
  match a.position?, b.position? with
  | some p, some q => p.lt q
  | _, _ => false

def isZero (b : Bound) : Bool := b.position? == some (.ofInt 0)

/-- Whether the bound differs from the one that stands for "not set". -/
def isSet (b : Bound) : Bool := b.position? != unset.position?

def float? : Bound → Option Binary64
  | number n => Binary64.ofInt? n
  | flag b => Binary64.ofInt? (if b then 1 else 0)
  | fraction x => some x

/-- The sum of two offsets; none if it cannot be computed. -/
def add? (a b : Bound) : Option Bound :=
  match a.whole?, b.whole? with
  | some m, some n => some (number (m + n))
  | _, _ => do return fraction ((← a.float?).add (← b.float?))

end Bound

/-- The statements a query type stands for. -/
inductive Purpose where
  | search | delete | update
  deriving DecidableEq, Repr

/-- The operations a stream offers: only its configuration, those every stream has, or also those
of one purpose. -/
inductive StreamKind where
  | base | common | of (p : Purpose)
  deriving DecidableEq, Repr

inductive QueryKind where
  | base | typed | bulk
  deriving DecidableEq, Repr

structure Session where
  id : Nat
  spec : SessionSpec

mutual

inductive Value where
  | null
  | bool (b : Bool)
  | int (id : Nat) (n : Int)
  | float (id : Nat) (x : Binary64)
  | text (id : Nat) (s : String)
  | list (id : Nat) (items : List Value)
  | tuple (id : Nat) (items : List Value)
  /-- A row of a result; its columns are `c0`, `c1` and so on. -/
  | row (id : Nat) (items : List Value)
  /-- A mapped class, or an alias of one. -/
  | mapped (m : Mapped)
  | member (a : Attribute)
  | term (id : Nat) (t : Term)
  | statement (id : Nat) (s : Statement)
  | closure (c : Closure)
  | configurer (c : Configurer)
  | stream (s : Stream)
  | queryType (t : QueryType)
  | queryBuilder (id : Nat) (session : Value)
  | criteriaBuilder (id : Nat)
  | session (s : Session)
  | frame (f : Frame)
  | ref (r : RefId)
  | context (c : ContextId)
  | query (q : QueryId)
  | mapping (m : MappingId)

/-- A function of a program, with the parameters in scope where it was written. -/
structure Closure where
  id : Nat
  params : List String
  body : Expr
  scope : List (String × Value)

/-- How a query type creates and materializes queries over one entity. -/
structure QueryType where
  id : Nat
  purpose : Purpose
  entity : Value

/-- One level of construction: a query context, and the builder that configures it. -/
structure Frame where
  id : Nat
  builder : Value
  query : Value

/-- How a value is read off a selection. -/
inductive Projection where
  /-- The selection itself. -/
  | whole
  /-- An attribute, by name or as a mapped attribute. -/
  | named (key : Value)
  | function (f : Value)
  /-- What a Ref holds at that moment. -/
  | held (r : RefId)

/-- What a stream sorts by: keys, each with a value that tells whether it ascends. -/
inductive Ordering where
  | keys (ks : List (Projection × Value))
  | listed (f : Value)

/-- What a stream groups by. -/
inductive Grouping where
  | key (p : Projection)
  | listed (f : Value)

/-- One step of a configuration, applied to a query context and the selection so far. -/
inductive Step where
  | filter (queryType : Value) (p : Projection)
  | peek (f : Value)
  | bind (r : RefId) (p : Projection)
  | distinct
  | sort (o : Ordering)
  | group (g : Grouping)
  | having (p : Projection)
  | addRoot (r : RefId) (entity : Value)
  | join (key outer : Value)
  | map (p : Projection)
  | count
  | assign (key value : Value)
  /-- A row bound was set, which no subquery allows. -/
  | bounded (b : Bounding)
  /-- A side effect given as a function of builder, query and selection. -/
  | modify (f : Value)
  /-- A new selection given as a function of builder, query and selection. -/
  | transform (f : Value)

/-- Where a configuration starts. -/
inductive Origin where
  /-- A root of the query for this entity. -/
  | root (entity : Value)
  /-- A root of an enclosing query, correlated with the subquery under construction. -/
  | correlated (root : Value)
  /-- A function of builder and query. -/
  | function (f : Value)

/-- A configuration: where it starts, and the steps applied after it, oldest first. -/
structure Configurer where
  id : Nat
  origin : Origin
  steps : List Step

/-- One immutable node of a fluent chain. -/
structure Stream where
  id : Nat
  kind : StreamKind
  session : Value
  queryType : Value
  configurer : Value
  firstResult : Bound
  maxResults : Bound
  params : List (String × Value)
  options : List (String × Value)

end

namespace Value

def isNull : Value → Bool
  | null => true
  | _ => false

/-- Small numbers, the empty text and a text of one character below 256 are one object each,
wherever they come from. -/
def isUnique : Datum → Bool
  | .int n => -5 ≤ n && n ≤ 256
  | .text s => s.length == 0 || (s.length == 1 && s.toList.all (·.toNat < 256))
  | _ => false

/-- Whether two values are one object. -/
def same : Value → Value → Bool
  | null, null => true
  | bool a, bool b => a == b
  | int i a, int j b => a == b && (i == j || isUnique (.int a))
  | float i a, float j b => a == b && i == j
  | text i a, text j b => a == b && (i == j || isUnique (.text a))
  | list i _, list j _ => i == j
  | tuple i xs, tuple j ys => i == j || (xs.isEmpty && ys.isEmpty)
  | row i _, row j _ => i == j
  | mapped a, mapped b => a == b
  | member a, member b => a == b
  | term _ (.constant a), term _ (.constant b) => a == b
  | term _ (.column a), term _ (.column b) => a == b
  | term i _, term j _ => i == j
  | statement i _, statement j _ => i == j
  | closure a, closure b => a.id == b.id
  | configurer a, configurer b => a.id == b.id
  | stream a, stream b => a.id == b.id
  | queryType a, queryType b => a.id == b.id
  | queryBuilder i _, queryBuilder j _ => i == j
  | criteriaBuilder i, criteriaBuilder j => i == j
  | session a, session b => a.id == b.id
  | frame a, frame b => a.id == b.id
  | ref a, ref b => a == b
  | context a, context b => a == b
  | query a, query b => a == b
  | mapping a, mapping b => a == b
  | _, _ => false

/-- Whether a value can be called like a function. -/
def isCallable : Value → Bool
  | closure _ | configurer _ => true
  | mapped m => m.alias?.isNone
  | _ => false

/-- The data a value is, if it is a single piece of data. -/
def datum? : Value → Option Datum
  | null => some .null
  | bool b => some (.bool b)
  | int _ n => some (.int n)
  | float _ x => some (.float x)
  | text _ s => some (.text s)
  | _ => none

/-- What tells a value from all others, if it is not just data. -/
def identity? : Value → Option Identity
  | null | bool _ | int .. | float .. | text .. => none
  | list id _ => some (.numbered .list id)
  | tuple id items => some (if items.isEmpty then .emptyTuple else .numbered .tuple id)
  | row id _ => some (.numbered .row id)
  | mapped m => some (.mapped m)
  | member a => some (.member a)
  | term _ (.constant c) => some (.expression (.constant c))
  | term _ (.column c) => some (.expression (.column c))
  | term id _ => some (.expression (.expression id))
  | statement id _ => some (.numbered .statement id)
  | closure c => some (.numbered .function c.id)
  | configurer c => some (.numbered .function c.id)
  | stream s => some (.numbered .stream s.id)
  | queryType t => some (.numbered .queryType t.id)
  | queryBuilder id _ => some (.numbered .queryBuilder id)
  | criteriaBuilder id => some (.numbered .criteriaBuilder id)
  | session s => some (.numbered .session s.id)
  | frame f => some (.numbered .frame f.id)
  | ref r => some (.address .refs r.index)
  | context c => some (.address .contexts c.index)
  | query q => some (.address .queries q.index)
  | mapping i => some (.address .mappings i.index)

/-- A value as a parameter carries it. -/
def carried (v : Value) : Literal :=
  match v.identity? with
  | some i => .object i
  | none => .plain (v.datum?.getD .null)

def bound? : Value → Option Bound
  | int _ n => some (.number n)
  | bool b => some (.flag b)
  | float _ x => some (.fraction x)
  | _ => none

end Value

def Bound.toValue : Bound → Value
  | .number n => .int 0 n
  | .flag b => .bool b
  | .fraction x => .float 0 x

end FluentQuery
