import FluentQuery.Error

/-!
What an observer sees of a value, of a failure and of a run.
-/

namespace FluentQuery

inductive Description where
  | null
  | bool (b : Bool)
  | int (n : Int)
  | text (s : String)
  | float (text : String)
  | list (items : List Description)
  | tuple (items : List Description)
  | row (items : List Description)
  | mapping (fields : List (String × Description))
  | entity (name : String)
  | alias (name : String)
  | sql (text : String) (parameters : List (String × Description))
  | failure (e : Error)
  | relationship (key : String)
  /-- A query context, with those of its parts that its kind has. -/
  | context (shown : String) (parts : List (String × Description))
  | query (shown : String) (params options : List (String × Description))
      (statement? : Option Description)
  | stream (shown : String) (params options : List (String × Description))
  | ref (shown : String)
  | queryType (shown : String)
  | frame (shown : String) (isSubquery : Bool)
  | function
  | object (className : String)
  /-- A statement that was sent to a session. -/
  | execution (statement : Description) (options : List (String × Description))

end FluentQuery
