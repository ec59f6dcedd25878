import FluentQuery.Number.Binary64

/-!
Plain data as it comes in from outside: settings, engine options, rows and the
values of parameters.
-/

namespace FluentQuery

inductive Datum where
  | null
  | bool (b : Bool)
  | int (n : Int)
  | float (x : Binary64)
  | text (s : String)
  | list (items : List Datum)
  /-- Fields in the order they were given in. -/
  | mapping (fields : List (String × Datum))
  deriving Inhabited

namespace Datum

/-- Whether a value counts as true where only truth matters. -/
def truthy : Datum → Bool
  | null => false
  | bool b => b
  | int n => n != 0
  | float x => !x.isZero
  | text s => !s.isEmpty
  | list items => !items.isEmpty
  | mapping fields => !fields.isEmpty

/-- The value of a field of a mapping. -/
def field? (d : Datum) (name : String) : Option Datum :=
  match d with
  | mapping fields => fields.lookup name
  | _ => none

end Datum

end FluentQuery
