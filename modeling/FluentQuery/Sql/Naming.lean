import FluentQuery.Sql.Function

/-!
The names a rendered statement generates. Every generated name is a base and a
number that counts the uses of that base, in the order the names are asked for;
what was named once keeps its name.
-/

namespace FluentQuery.Sql

/-- What a generated name stands for. -/
inductive NameKey where
  | source (s : Source)
  /-- A generated parameter, by the number of its placeholder or row bound. -/
  | placeholder (id : Nat)
  | label (item : ItemKey)
  /-- The label of a repeated entry of a select list. -/
  | repeatLabel (item : ItemKey) (count : Nat)
  deriving DecidableEq, Repr

/-- Where a parameter's name comes from: generated, from the column it is assigned to, or given. -/
inductive ParameterOrigin where
  | generated (id : Nat) | assigned | named
  deriving DecidableEq, Repr

/-- A parameter by its name, with the form of that name in the text. -/
structure Parameter where
  name : String
  origin : ParameterOrigin
  written : String
  value : Literal

structure Naming where
  counters : List (String × Nat)
  names : List (NameKey × String)
  /-- The parameters met so far, in order. -/
  parameters : List Parameter
  /-- The values supplied by the statements met so far; those of an outer statement come first. -/
  supplied : List (String × Literal)
  /-- The number of the next pairing alias. -/
  pairings : Nat

/-- Why an expression or statement has no text. -/
inductive RenderError where
  | emptySelectList
  | ambiguousJoin
  | nothingLeft
  | unresolvedLabel (name : String)
  | parameterConflict (name : String)
  | directive (e : DirectiveError)
  /-- A type or a field that has no text. -/
  | unwritable
  /-- An expression was given where true or false is wanted. -/
  | undecided
  deriving DecidableEq, Repr

abbrev Render := StateT Naming (Except RenderError)

namespace Naming

def empty : Naming := ⟨[], [], [], [], 0⟩

/-- How often `base` has been counted. -/
def count (n : Naming) (base : String) : Nat := (n.counters.lookup base).getD 0

def generate (n : Naming) (key : NameKey) (base : String) : String × Naming :=
  match n.names.lookup key with
  | some name => (name, n)
  | none =>
    let k := n.count base + 1
    let name := base ++ "_" ++ toString k
    (name, { n with
      counters := (base, k) :: n.counters
      names := (key, name) :: n.names })

/-- Two parameters of one name conflict unless both were given that name, or are the same one. -/
def clash (a b : ParameterOrigin) : Bool :=
  match a, b with
  | .named, .named => false
  | .generated i, .generated j => i != j
  | _, _ => true

/-- The form of a name in the text, with a number if another parameter has that form. -/
def writtenName (n : Naming) (name : String) : String :=
  let plain := parameterName name
  let taken (s : String) : Bool := n.parameters.any (·.written == s)
  if taken plain then
    let numbered := (List.range (n.parameters.length + 1)).map fun k =>
      plain ++ "__" ++ toString (k + 1)
    (numbered.find? (!taken ·)).getD plain
  else plain

/-- Notes a parameter and gives its form in the text. -/
def addParameter (n : Naming) (name : String) (origin : ParameterOrigin) (v : Literal) :
    Except RenderError (String × Naming) :=
  match n.parameters.find? (·.name == name) with
  | none =>
    let written := n.writtenName name
    .ok (written, { n with parameters := n.parameters ++ [⟨name, origin, written, v⟩] })
  | some p => if clash p.origin origin then .error (.parameterConflict name) else .ok (p.written, n)

/-- Takes up the values a statement supplies; those taken up before count first. -/
def supply (n : Naming) (values : List (String × Literal)) : Naming :=
  { n with supplied := n.supplied ++ values }

/-- The values of all parameters by their form in the text. A supplied value counts more than the
one a parameter was made with. -/
def values (n : Naming) : List (String × Literal) :=
  n.parameters.map fun p => (p.written, (n.supplied.lookup p.name).getD p.value)

end Naming

/-- The generated name of `key`. -/
def nameOf (key : NameKey) (base : String) : Render String :=
  modifyGet fun n => n.generate key base

/-- Notes a parameter and gives its form in the text. -/
def parameterText (name : String) (origin : ParameterOrigin) (v : Literal) : Render String := do
  let (written, n) ← (← get).addParameter name origin v
  set n
  return written

end FluentQuery.Sql

namespace FluentQuery.Source

open Sql

/-- The name a source goes by: its table's, or a generated one for an alias. -/
def reference (s : Source) : Render String :=
  match s.alias? with
  | none => return s.table.name
  | some _ => nameOf (.source s) s.table.name

/-- A table, or an alias with its declaration. -/
def declaration (s : Source) : Render String :=
  match s.alias? with
  | none => return s.table.name
  | some _ => return s.table.name ++ " AS " ++ (← s.reference)

end FluentQuery.Source
