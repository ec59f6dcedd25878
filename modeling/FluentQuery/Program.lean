import FluentQuery.Error
import FluentQuery.Sql.Term

/-!
The language in which queries are written down: expressions that build
streams, call the library and one another, and compute SQL expressions.
-/

namespace FluentQuery

open Sql

/-- What a session answers: rows, or a count of affected rows, or a failure. -/
structure SessionSpec where
  rows? : Option (List (List Datum))
  rowCount? : Option Datum
  failure? : Option Error

mutual

inductive Expr where
  | literal (v : Datum)
  | list (items : List Expr)
  | tuple (items : List Expr)
  | variable (name : String)
  | assign (name : String) (e : Expr)
  | block (es : List Expr)
  | function (params : List String) (body : Expr)
  | apply (f : Expr) (args : List Expr)
  /-- Notes the value in the trace. -/
  | trace (e : Expr)
  /-- Notes an error in the trace and goes on with null. -/
  | attempt (e : Expr)
  | fail (e : Error)
  | identical (a b : Expr)
  | equal (a b : Expr)
  | sameHash (a b : Expr)
  | isInstance (e : Expr) (className : String)
  | entity (e : Entity)
  | session (spec : SessionSpec)
  | construct (className : String) (args : Arguments)
  | get (e : Expr) (property : String)
  | set (e : Expr) (property : String) (v : Expr)
  | call (e : Expr) (method : String) (args : Arguments)
  /-- The text that shows a value. -/
  | shown (e : Expr)
  | compose (args : Arguments)
  | transform (args : Arguments)
  | resolveAttribute (args : Arguments)
  | currentFrame
  | currentSubquery
  | depth
  /-- Runs `body` with a construction frame, bound to a local name. -/
  | within (builder query : Expr) (name : String) (body : Expr)
  /-- Runs `body` with an empty construction stack. -/
  | thread (body : Expr)
  /-- Runs `body` with a copy of the construction stack. -/
  | task (body : Expr)
  | arithmetic (op : Arithmetic) (a b : Expr)
  | compare (op : Comparison) (a b : Expr)
  | connect (op : Connective) (es : List Expr)
  | not (e : Expr)
  | among (e : Expr) (values : List Datum)
  | like (e pattern : Expr)
  /-- A call of a SQL function. -/
  | sqlFunction (name : String) (args : List Expr)
  | parameter (name : String)
  | sorted (d : Direction) (e : Expr)

structure Arguments where
  positional : List Expr
  keyword : List (String × Expr)

end

instance : Inhabited Expr := ⟨.currentFrame⟩

instance : Inhabited Arguments := ⟨⟨[], []⟩⟩

/-- One step of a program: an expression, and a global variable to keep its value in. -/
structure ProgramStep where
  name? : Option String
  body : Expr

end FluentQuery
