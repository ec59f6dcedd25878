import FluentQuery.Proofs.Filters
import FluentQuery.Proofs.Bulk
import FluentQuery.Proofs.Parameters.Growth

/-! What a query ready to run adds to the criteria it is made of, and when its statement can be
built. -/

namespace FluentQuery

open Sql

/-- The statement of the query that a stream builds. -/
def Stream.queryStatement (call : Call) (s : Stream) : Run Statement := do
  match ← s.toQuery call with
  | .query q => QueryId.currentStatement (← q.read)
  | _ => fail .external

namespace Stream

variable (s : Stream) (purpose : Purpose) (criteria : Value) (m : Machine)

/-- The query ready to run that is made of the criteria of a stream. -/
def executable : Executable :=
  ⟨purpose.queryKind, s.session, criteria, ⟨m.mappings.length⟩, ⟨m.mappings.length + 1⟩,
    if s.firstResult.isSet then s.firstResult else .unset,
    if s.maxResults.isSet then s.maxResults else .unset⟩

/-- The machine with that query. -/
def wrapped : Machine :=
  { m with
    mappings := m.mappings ++ [override [] s.params, override [] s.options]
    queries := m.queries ++ [s.executable purpose criteria m] }

theorem mapping_wrapped :
    (s.wrapped purpose criteria m).mapping (s.executable purpose criteria m).params =
      override [] s.params := by
  simp [Machine.mapping, wrapped, executable]

theorem query?_wrapped : (s.wrapped purpose criteria m).query? ⟨m.queries.length⟩ =
    some (s.executable purpose criteria m) :=
  List.getElem?_concat_length

theorem grows_wrapped (log : List String) :
    m.Grows { s.wrapped purpose criteria m with log } where
  refs := rfl
  contexts := rfl
  queries _ h := List.getElem?_append_left h
  mappings _ h := List.getElem?_append_left h

variable {s purpose criteria m}

/-- A query is made of the criteria, and then shown in the log. -/
theorem exec_toQuery_of_context {call : Call} {t : QueryType} {m₁ : Machine}
    (ht : s.queryType = .queryType t) (built : exec (s.toContext call) m = (.ok criteria, m₁))
    (hs : s.session.isNull = false) (hc : criteria.isNull = false) :
    exec (s.toQuery call) m = exec (do
      s.logCompiled ⟨m₁.queries.length⟩
      return .query ⟨m₁.queries.length⟩) (s.wrapped t.purpose criteria m₁) := by
  let x : Executable := ⟨t.purpose.queryKind, s.session, criteria, ⟨m₁.mappings.length⟩,
    ⟨m₁.mappings.length + 1⟩, .unset, .unset⟩
  let blank : Machine := { m₁ with
    mappings := m₁.mappings ++ [[], []], queries := m₁.queries ++ [x] }
  have created : exec (t.createQuery s.session criteria) m₁ =
      (.ok ⟨m₁.queries.length⟩, blank) := by
    unfold QueryType.createQuery
    simp only [hs, hc, Bool.false_eq_true, if_false]
    rw [exec_bind_of_ok (show exec (MappingId.new []) m₁ = (.ok ⟨m₁.mappings.length⟩, _) from rfl),
      exec_bind_of_ok (show exec (MappingId.new []) _ = (.ok _, _) from rfl)]
    simp [QueryId.new, blank, x]
    cases t.purpose <;> rfl
  have held : blank.query? ⟨m₁.queries.length⟩ = some x := List.getElem?_concat_length
  unfold toQuery
  simp only [ht]
  rw [exec_bind_of_ok built, exec_bind_of_ok created,
    exec_bind_of_ok (QueryId.exec_read_of_some held)]
  rw [exec_bind_of_ok (show exec (x.params.update s.params) blank = (.ok (), _) from rfl),
    exec_bind_of_ok (show exec (x.options.update s.options) _ = (.ok (), _) from rfl),
    exec_bind_of_ok (show exec (QueryId.write _ _) _ = (.ok (), _) from rfl)]
  congr 1
  simp [wrapped, blank, x, executable, Machine.mapping]

/-- Whoever wants a statement in the log can have it: the stream and the statement have texts. -/
def Loggable (s : Stream) (m : Machine) (st : Statement) : Prop :=
  m.settings.logCompiledSql → m.settings.logging →
    ((Value.stream s).shown? m).isSome ∧ st.render.toOption.isSome

/-- A statement that can be built and shown in the log is, and nothing but the log changes. -/
theorem exec_logCompiled {q : QueryId} {x : Executable} {st : Statement} (hx : m.query? q = some x)
    (hst : x.statement m m.next = .ok st) :
    (s.Loggable m st → ∃ log, exec (s.logCompiled q) m = (.ok (), { m with log })) ∧
      ((exec (s.logCompiled q) m).1 = .ok () → s.Loggable m st) := by
  unfold logCompiled Loggable
  rw [exec_bind_of_ok (exec_get m)]
  by_cases compiled : m.settings.logCompiledSql
  · rw [if_pos compiled, exec_bind_of_ok (QueryId.exec_read_of_some hx), hst,
      exec_bind_of_ok (exec_liftExcept_ok st m)]
    unfold logLine
    rw [exec_bind_of_ok (exec_get m)]
    by_cases logging : m.settings.logging
    · simp only [compiled, logging, if_true, exec_bind, exec_shownNow, exec_orExternal, forall_const]
      cases (Value.stream s).shown? m with
      | none => simp
      | some shown =>
        cases st.render.toOption with
        | none => simp
        | some rendered => exact ⟨fun _ => ⟨_, rfl⟩, fun _ => ⟨rfl, rfl⟩⟩
    · simp only [logging]
      exact ⟨fun _ => ⟨m.log, rfl⟩, fun _ => nofun⟩
  · simp only [compiled]
    exact ⟨fun _ => ⟨m.log, rfl⟩, fun _ => nofun⟩

/-- A statement that cannot be built is missed by the log, if it is wanted there. -/
theorem exec_logCompiled_of_error {q : QueryId} {x : Executable} {e : Error}
    (hx : m.query? q = some x) (he : x.statement m m.next = .error e) :
    exec (s.logCompiled q) m = if m.settings.logCompiledSql then (.error e, m) else (.ok (), m) := by
  unfold logCompiled
  rw [exec_bind_of_ok (exec_get m)]
  split
  · rw [exec_bind_of_ok (QueryId.exec_read_of_some hx), he]
    rfl
  · rfl

end Stream

/-- The statement of a query over criteria that were known before it: their statement, then the
parameters and the row bounds. -/
theorem Executable.statement_grown {w : Moment} {m m' : Machine} (grows : m.Grows m')
    (hm : m.Known w) {q : Executable} {c : ContextId} (hq : q.query = .context c)
    (hk : q.kind ≠ .base) (next : Nat) :
    q.statement m' next = (do
      let bare ← (m.context? c).elim (.error .external) (Context.statement m)
      let st ← q.withParams m' bare
      if q.kind matches .typed then q.withBounds next st else .ok st) := by
  unfold statement statementTo
  rw [if_neg (by cases hk' : q.kind <;> simp_all)]
  simp only [hq, grows.context? c]
  cases held : m.context? c with
  | none => rfl
  | some x =>
    have known : x.Known w := hm.contexts _ (List.mem_of_getElem? held)
    have same := Context.statement_grown grows hm known
    simp only [Option.elim, ← same]
    rfl

theorem Purpose.queryKind_ne_base (p : Purpose) : p.queryKind ≠ .base := by cases p <;> nofun

/-! ### Statements of queries -/

namespace Stream

section Queries

variable {s : Stream} {call : Call} {t : QueryType} {c : ContextId} {w : Moment} {m m₁ : Machine}
  (ht : s.queryType = .queryType t)
  (built : exec (s.toContext call) m = (.ok (.context c), m₁)) (hm : m₁.Known w)
  (hs : s.session.isNull = false)

/-- The statement of the query that is made of the criteria of a stream. -/
def wrappedStatement (s : Stream) (purpose : Purpose) (c : ContextId) (m : Machine) :
    Except Error Statement :=
  (s.executable purpose (.context c) m).statement (s.wrapped purpose (.context c) m) m.next

/-- What becomes of the statement of the criteria: it gets the parameters, and that of a search the
row bounds. -/
def completed (s : Stream) (purpose : Purpose) (c : ContextId) (m : Machine) (bare : Statement) :
    Except Error Statement := do
  let st ← (s.executable purpose (.context c) m).withParams (s.wrapped purpose (.context c) m) bare
  if purpose.queryKind matches .typed then
    (s.executable purpose (.context c) m).withBounds m.next st
  else .ok st

include hm in
theorem wrappedStatement_eq (s : Stream) (purpose : Purpose) (c : ContextId) :
    s.wrappedStatement purpose c m₁ = (do
      let bare ← (m₁.context? c).elim (.error .external) (Context.statement m₁)
      s.completed purpose c m₁ bare) :=
  Executable.statement_grown
    (s.grows_wrapped purpose (.context c) m₁ (s.wrapped purpose (.context c) m₁).log) hm rfl
    purpose.queryKind_ne_base m₁.next

include hm in
/-- The log does not matter. -/
theorem statement_wrapped (s : Stream) (purpose : Purpose) (c : ContextId) (log : List String) :
    (s.executable purpose (.context c) m₁).statement
      { s.wrapped purpose (.context c) m₁ with log } m₁.next = s.wrappedStatement purpose c m₁ := by
  have eq (log : List String) :=
    Executable.statement_grown (s.grows_wrapped purpose (.context c) m₁ log) hm
      (q := s.executable purpose (.context c) m₁) rfl purpose.queryKind_ne_base m₁.next
  exact (eq log).trans (eq (s.wrapped purpose (.context c) m₁).log).symm

include ht built hs in
/-- The statement of a query is asked for once the log has shown it. -/
theorem exec_queryStatement : exec (s.queryStatement call) m = exec (do
    s.logCompiled ⟨m₁.queries.length⟩
    let x ← QueryId.read ⟨m₁.queries.length⟩
    QueryId.currentStatement x) (s.wrapped t.purpose (.context c) m₁) := by
  unfold queryStatement
  rw [exec_bind, exec_toQuery_of_context ht built hs rfl, exec_bind, exec_bind]
  rcases exec (s.logCompiled _) _ with ⟨_ | _, _⟩ <;> rfl

include hm in
theorem exec_statement_wrapped (s : Stream) (purpose : Purpose) (c : ContextId)
    (log : List String) :
    exec (do
      let x ← QueryId.read ⟨m₁.queries.length⟩
      QueryId.currentStatement x) { s.wrapped purpose (.context c) m₁ with log } =
      exec (liftExcept (s.wrappedStatement purpose c m₁))
        { s.wrapped purpose (.context c) m₁ with log } := by
  have held : { s.wrapped purpose (.context c) m₁ with log }.query? ⟨m₁.queries.length⟩ =
      some (s.executable purpose (.context c) m₁) := s.query?_wrapped purpose _ m₁
  rw [exec_bind_of_ok (QueryId.exec_read_of_some held)]
  unfold QueryId.currentStatement
  rw [exec_bind_of_ok (exec_get _), ← statement_wrapped hm s purpose c log]
  rfl

include ht built hm hs

theorem exec_queryStatement_ok_iff {st : Statement} :
    (∃ m', exec (s.queryStatement call) m = (.ok st, m')) ↔
      s.wrappedStatement t.purpose c m₁ = .ok st ∧
        s.Loggable (s.wrapped t.purpose (.context c) m₁) st := by
  rw [exec_queryStatement ht built hs]
  have held := s.query?_wrapped t.purpose (.context c) m₁
  constructor
  · rintro ⟨m', h⟩
    obtain ⟨_, m₂, logged, h⟩ := exec_bind_eq_ok.mp h
    cases hst : s.wrappedStatement t.purpose c m₁ with
    | error e =>
      rw [exec_logCompiled_of_error held hst] at logged
      split at logged
      · cases logged
      · obtain ⟨-, rfl⟩ := Prod.mk.inj logged
        rw [exec_statement_wrapped hm s t.purpose c (s.wrapped t.purpose (.context c) m₁).log,
          hst] at h
        cases h
    | ok st' =>
      have shown := (exec_logCompiled held hst).2 (by rw [logged])
      obtain ⟨log, logs⟩ := (exec_logCompiled held hst).1 shown
      obtain ⟨-, rfl⟩ := Prod.mk.inj (logged.symm.trans logs)
      rw [exec_statement_wrapped hm s t.purpose c log, hst] at h
      obtain rfl := Except.ok.inj (Prod.mk.inj h).1
      exact ⟨rfl, shown⟩
  · rintro ⟨hst, shown⟩
    obtain ⟨log, logs⟩ := (exec_logCompiled held hst).1 shown
    rw [exec_bind_of_ok logs, exec_statement_wrapped hm s t.purpose c log, hst]
    exact ⟨_, rfl⟩

theorem exec_queryStatement_of_error {e : Error}
    (he : s.wrappedStatement t.purpose c m₁ = .error e) :
    ∃ m', exec (s.queryStatement call) m = (.error e, m') := by
  rw [exec_queryStatement ht built hs]
  have logs := exec_logCompiled_of_error (s := s) (s.query?_wrapped t.purpose (.context c) m₁) he
  split at logs
  · exact ⟨_, exec_bind_of_error logs _⟩
  · rw [exec_bind_of_ok logs,
      exec_statement_wrapped hm s t.purpose c (s.wrapped t.purpose (.context c) m₁).log, he]
    exact ⟨_, rfl⟩

end Queries

end Stream

end FluentQuery
