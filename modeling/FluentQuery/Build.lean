import FluentQuery.Sql.Render
import FluentQuery.Stream

/-!
Building queries from streams: a new context is made the current frame, the
configuration is applied to it, and its selection is selected.
-/

namespace FluentQuery

open Sql

namespace Stream

/-- Builds the query context a stream describes. -/
def toContext (call : Call) (s : Stream) : Run Value := do
  match s.queryType with
  | .queryType t =>
    let builder : Value := .criteriaBuilder (← fresh)
    let query : Value := .context (← t.createContext)
    let built ← withFrame builder query fun _ => do
      t.select query (← configure call s.configurer builder query)
    logLine do
      let text ← shownNow built
      return "Built " ++ text ++ " from " ++ (← shownNow (.stream s))
    return built
  | _ => fail .external

/-- Logs the text of a query about to be handed out, if the settings ask for it. Then the query has
to have a statement, but that needs a text only if anyone reads the log. -/
def logCompiled (s : Stream) (q : QueryId) : Run Unit := do
  let m ← get
  if m.settings.logCompiledSql then
    let statement ← liftExcept ((← q.read).statement m m.next)
    logLine do
      let stream ← shownNow (.stream s)
      let rendered ← orExternal statement.render.toOption
      return "Compiled SQL for " ++ stream ++ ":\n" ++ rendered.text

/-- Builds a query ready to run, with the parameters, options and row bounds of the stream. -/
def toQuery (call : Call) (s : Stream) : Run Value := do
  match s.queryType with
  | .queryType t =>
    let q ← t.createQuery s.session (← s.toContext call)
    let x ← q.read
    x.params.update s.params
    x.options.update s.options
    q.write { x with
      firstResult := if s.firstResult.isSet then s.firstResult else x.firstResult
      maxResults := if s.maxResults.isSet then s.maxResults else x.maxResults }
    s.logCompiled q
    return .query q
  | _ => fail .external

/-- Builds a stream as a subquery of the query under construction. -/
def toSubquery (call : Call) (s : Stream) : Run ContextId := do
  let frame ← currentFrame
  let c ← ContextId.new (.subquery frame.query)
  withFrame frame.builder (.context c) fun _ => do
    let selection ← configure call s.configurer frame.builder (.context c)
    c.update (·.select selection)
  return c

end Stream

namespace ContextId

/-- A subquery as a value. -/
def scalar (c : ContextId) : Run Value := do
  newTerm (.scalar (← liftExcept ((← c.read).nested (← get))))

/-- Whether a subquery has any row. -/
def existence (c : ContextId) : Run Value := do
  newTerm (.nonempty (← liftExcept ((← c.read).nested (← get))))

end ContextId

namespace Stream

def asSubquery (call : Call) (s : Stream) : Run Value := do (← s.toSubquery call).scalar

def existence (call : Call) (s : Stream) : Run Value := do (← s.toSubquery call).existence

end Stream

end FluentQuery
