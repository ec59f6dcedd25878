import FluentQuery.Statement

/-!
Describing values. SQL is described by its text and the values of its
parameters, a query context by its parts and the statement it stands for. A
value that contains itself has no description.
-/

namespace FluentQuery

open Sql

/-- What is reported when there is no text. -/
def Sql.RenderError.report : RenderError → Error
  | .directive .unknown => .signal .valueError
  | .directive .missing => .signal .keyError
  | _ => .external

/-- How the values inside a value are described. -/
abbrev Describe := Value → Option Description

namespace Description

def fields (describe : Describe) (vs : List (String × Value)) :
    Option (List (String × Description)) :=
  vs.mapM fun (k, v) => return (k, ← describe v)

def ofDatum : Datum → Description
  | .null => .null
  | .bool b => .bool b
  | .int n => .int n
  | .float x => .float x.text
  | .text s => .text s
  | .list items => .list (ofData items)
  | .mapping fields => .mapping (ofFields fields)
where
  ofData : List Datum → List Description
    | [] => []
    | d :: ds => ofDatum d :: ofData ds
  ofFields : List (String × Datum) → List (String × Description)
    | [] => []
    | (k, d) :: rest => (k, ofDatum d) :: ofFields rest

/-- A parameter value; an object is looked up by its identity. -/
def ofLiteral (m : Machine) (describe : Describe) : Literal → Option Description
  | .plain d => some (ofDatum d)
  | .object i =>
    match m.handles.find? (·.identity? == some i) with
    | some v => describe v
    | none => some .null

/-- What was rendered, on one line, or a failure without a message. -/
def ofRendered (m : Machine) (describe : Describe) :
    Except RenderError Rendered → Option Description
  | .ok r => do
    let parameters ← r.parameters.mapM fun (k, l) => return (k, ← ofLiteral m describe l)
    return .sql (Text.collapse r.text) parameters
  | .error e => some (.failure e.report)

def ofStatement (m : Machine) (describe : Describe) : Except Error Statement → Option Description
  | .ok s => ofRendered m describe s.render
  | .error e => some (.failure e)

/-- The parts of a query context that its kind has. -/
def contextParts (m : Machine) (describe : Describe) (c : Context) :
    Option (List (String × Description)) := do
  let list (vs : List Value) : Option Description := return .list (← vs.mapM describe)
  let restriction ← describe c.restriction
  let body ← match c.kind.body? with
    | none => pure []
    | some b => do
      pure [("roots", ← list b.roots), ("group", ← list b.groupBy), ("having", ← describe b.having),
        ("distinct", ← describe b.distinct), ("selection", ← describe b.selection)]
  let own ← match c.kind with
    | .query _ orders => do pure [("order", ← list orders)]
    | .subquery _ _ correlated _ => do pure [("correlated", ← list correlated)]
    | .update _ values => do pure [("values", .mapping (← fields describe values))]
    | _ => pure []
  let statement ← if c.isComplete then do
      pure [("statement", ← ofStatement m describe (c.statement m))]
    else pure []
  return ("restriction", restriction) :: body ++ own ++ statement

def ofQuery (m : Machine) (describe : Describe) (shown : String) (q : Executable) :
    Option Description := do
  let statement? ← match q.kind with
    | .base => pure none
    | _ => some <$> ofStatement m describe (q.statement m m.next)
  return .query shown (← fields describe (m.mapping q.params))
    (← fields describe (m.mapping q.options)) statement?

end Description

/-- The description of a value, down to `depth` levels of values inside values. -/
def Value.describeTo (m : Machine) : Nat → Value → Option Description
  | 0, _ => none
  | depth + 1, v =>
    let inner := Value.describeTo m depth
    match v with
    | .null => some .null
    | .bool b => some (.bool b)
    | .int _ n => some (.int n)
    | .float _ x => some (.float x.text)
    | .text _ s => some (.text s)
    | .list _ items => do return .list (← items.mapM inner)
    | .tuple _ items => do return .tuple (← items.mapM inner)
    | .row _ items => do return .row (← items.mapM inner)
    | .mapped ⟨e, none⟩ => some (.entity e.name)
    | .mapped ⟨e, some _⟩ => some (.alias e.name)
    | .member ⟨_, .relationship r⟩ => some (.relationship r.key)
    | .member ⟨owner, .column c⟩ =>
      Description.ofRendered m inner (Term.column ⟨owner.source, c⟩).render
    | .term _ t => Description.ofRendered m inner t.render
    | .statement _ s => Description.ofRendered m inner s.render
    | .closure _ | .configurer _ => some .function
    | .stream s => do
      return .stream (← v.shown? m) (← Description.fields inner s.params)
        (← Description.fields inner s.options)
    | .queryType _ => do return .queryType (← v.shown? m)
    | .frame f => do
      let isSubquery := match f.query with
        | .context c => ((m.context? c).map Context.isSubquery).getD false
        | _ => false
      return .frame (← f.query.shown? m) isSubquery
    | .ref _ => do return .ref (← v.shown? m)
    | .context c => do
      let x ← m.context? c
      return .context (← v.shown? m) (← Description.contextParts m inner x)
    | .query q => do
      let x ← m.query? q
      Description.ofQuery m inner (← v.shown? m) x
    | .mapping i => do return .mapping (← Description.fields inner (m.mapping i))
    | .queryBuilder .. | .criteriaBuilder _ | .session _ => some (.object (v.className m))

/-- The description of a value, if it ends. -/
def Value.describe? (m : Machine) (v : Value) : Option Description := v.describeTo m 1000

/-- The description of a value; one without end is a misuse. -/
def describeNow (v : Value) : Run Description := do orExternal (v.describe? (← get))

end FluentQuery
