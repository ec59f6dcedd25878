import FluentQuery.Proofs.Balance
import FluentQuery.Proofs.Bulk.Where

/-! Bulk executions: which are refused, what the others send to their session, and whether
its text restricts the rows. -/

namespace FluentQuery

open Sql

/-! ### Settings -/

/-- The settings are what they were. -/
def SameSettings (m m' : Machine) : Prop := m'.settings = m.settings

namespace SameSettings

instance : Inert SameSettings where
  refl _ := rfl
  trans hab hbc := hbc.trans hab
  fresh _ := rfl
  newMapping _ _ := rfl
  log _ _ := rfl
  handle _ _ := rfl

theorem blind (m : Machine) (contexts : List Context) : SameSettings m { m with contexts } := rfl

instance : Creating SameSettings where
  newRef _ := rfl
  bind r v m := by
    rw [after, exec_bindRef]
    split <;> rfl
  unbind _ _ := rfl
  newContext _ _ := rfl
  updateMapping _ _ _ := rfl
  newQuery _ _ := rfl
  writeQuery _ _ _ := rfl
  note _ _ := rfl
  setGlobal _ _ _ := rfl
  onStack stack body h m := by
    rw [after, exec_onStack]
    exact h { m with stack }

instance : Guarantee SameSettings := .of_blind blind

end SameSettings

/-! ### Errors of statements -/

/-- Whether an error is neither a refusal of a combination nor raised by name. -/
def Error.isFault (e : Error) : Bool :=
  match e.errorClass with
  | .unsupportedCombination | .signal _ => false
  | _ => true

theorem Error.ne_unsupported_of_isFault {e : Error} (h : e.isFault) :
    e.errorClass ≠ .unsupportedCombination := by
  intro refusal
  unfold isFault at h
  rw [refusal] at h
  cases h

/-- A failure, if it is one, is a fault. -/
def Faults {α : Type} (x : Except Error α) : Prop := ∀ e, x = .error e → e.isFault

namespace Faults

variable {α β : Type}

theorem ok (a : α) : Faults (.ok a) := by
  intro e h
  cases h

theorem pure (a : α) : Faults (Pure.pure a) := ok a

theorem error {e : Error} (h : e.isFault) : Faults (.error e : Except Error α) := by
  rintro _ ⟨⟩
  exact h

theorem bind {x : Except Error α} {f : α → Except Error β} (hx : Faults x)
    (hf : ∀ a, Faults (f a)) : Faults (x >>= f) := by
  cases x with
  | error e => exact error (hx e rfl)
  | ok a => exact hf a

theorem map {x : Except Error α} {f : α → β} (hx : Faults x) : Faults (x.map f) := by
  cases x with
  | error e => exact error (hx e rfl)
  | ok a => exact ok _

theorem mapM {f : α → Except Error β} (hf : ∀ a, Faults (f a)) (xs : List α) :
    Faults (xs.mapM f) := by
  induction xs with
  | nil => exact pure []
  | cons x xs ih =>
    rw [List.mapM_cons]
    exact bind (hf x) fun _ => bind ih fun _ => pure _

theorem external : Faults (.error .external : Except Error α) := error (by decide)

end Faults

namespace Value

theorem condition_faults (v : Value) : Faults v.condition := by
  unfold condition
  split
  · exact .ok _
  · exact .ok _
  · split
    · exact .ok _
    · exact .external
  · exact .external

theorem conditions_faults (v : Value) : Faults v.conditions := by
  unfold conditions
  split
  · exact .ok _
  · exact v.condition_faults.map

theorem mappedOrExternal_faults (v : Value) : Faults v.mappedOrExternal := by
  unfold mappedOrExternal
  split
  · exact .ok _
  · exact .external

theorem sortKey_faults (v : Value) : Faults v.sortKey := by
  unfold sortKey
  split
  · exact .ok _
  · exact .ok _
  · exact .ok _
  · exact .external
  · exact .ok _
  · exact .external

theorem groupKeys_faults (v : Value) : Faults v.groupKeys := by
  unfold groupKeys
  split
  · exact .ok _
  · exact .ok _
  · exact .ok _
  · exact (sortKey_faults _).map

theorem selectItem_faults (v : Value) : Faults v.selectItem := by
  unfold selectItem
  split
  · exact .ok _
  · exact .ok _
  · exact .ok _
  · exact .ok _
  · split
    · exact .ok _
    · exact .ok _
    · exact .external

theorem selectItems_faults (v : Value) : Faults v.selectItems := by
  unfold selectItems
  split
  · exact .mapM selectItem_faults _
  · exact .mapM selectItem_faults _
  · exact (selectItem_faults _).map

end Value

theorem SelectBody.statement_faults (m : Machine) (b : SelectBody) (restriction : Value)
    (orders : List Value) (joinConditions : List Term) (correlated : List Value) :
    Faults (b.statement m restriction orders joinConditions correlated) := by
  unfold SelectBody.statement
  dsimp only
  split
  · exact .error (by decide)
  all_goals
    refine .bind (.ok _) fun selection => ?_
    refine .bind selection.selectItems_faults fun _ => ?_
    refine .bind (.mapM Value.mappedOrExternal_faults _) fun _ => ?_
    refine .bind restriction.conditions_faults fun _ => ?_
    refine .bind (.mapM Value.groupKeys_faults _) fun _ => ?_
    refine .bind b.having.conditions_faults fun _ => ?_
    split
    · refine .bind (.ok _) fun _ => .bind (.mapM Value.sortKey_faults _) fun _ => ?_
      exact .bind (.mapM Value.mappedOrExternal_faults _) fun _ => .pure _
    · exact .external

theorem Context.statement_faults (m : Machine) (x : Context) : Faults (x.statement m) := by
  unfold Context.statement
  split
  · exact .external
  · exact .external
  · exact .map (SelectBody.statement_faults _ _ _ _ _ _)
  · refine .map ?_
    unfold Context.nested
    split
    · exact SelectBody.statement_faults _ _ _ _ _ _
    · exact .external
  · exact .bind (Value.mappedOrExternal_faults _) fun _ =>
      .bind x.restriction.conditions_faults fun _ => .pure _
  · dsimp only
    split
    · exact .error (by decide)
    refine .bind (Value.mappedOrExternal_faults _) fun _ => ?_
    refine .bind x.restriction.conditions_faults fun _ => .bind ?_ fun _ => .pure _
    unfold assignments
    split
    · exact .external
    · exact .pure _

namespace Executable

/-- The query context that a query ready to run stands on. -/
def criteria? (m : Machine) (x : Executable) : Option Context :=
  match x.query with
  | .context c => m.context? c
  | _ => none

variable {m : Machine} {x : Executable} {y : Context} {next : Nat}

theorem criteria?_eq_some :
    x.criteria? m = some y ↔ ∃ c, x.query = .context c ∧ m.context? c = some y := by
  unfold criteria?
  split
  · rename_i c hq
    simp [hq]
  · rename_i other
    exact ⟨fun h => (Option.some_ne_none y h.symm).elim, fun ⟨c, hq, _⟩ => (other c hq).elim⟩

theorem criteria?_eq {m' : Machine} (h : m'.contexts = m.contexts) :
    x.criteria? m = x.criteria? m' := by
  unfold criteria? Machine.context?
  rw [h]

/-- A bulk query stands for the statement of its criteria, and takes parameters only if that is a
SELECT. -/
theorem statement_eq (hk : x.kind = .bulk) (hy : x.criteria? m = some y) :
    x.statement m next = (y.statement m >>= fun st => x.withParams m st) := by
  obtain ⟨c, hq, hc⟩ := criteria?_eq_some.mp hy
  unfold statement statementTo
  simp only [hk, hq, hc, Option.elim, Bool.false_eq_true, ↓reduceIte]
  change (y.statement m >>= fun st => x.withParams m st >>= pure) = _
  simp only [bind_pure]

theorem withParams_faults (st : Statement) : Faults (x.withParams m st) := by
  unfold withParams
  dsimp only
  split
  · exact .ok _
  split
  · exact .external
  split
  · exact .ok _
  · exact .external

theorem statement_faults (hk : x.kind = .bulk) (hy : x.criteria? m = some y) :
    Faults (x.statement m next) := by
  rw [statement_eq hk hy]
  exact .bind (y.statement_faults m) fun st => withParams_faults st

/-- Parameters change no condition. -/
theorem withParams_conditions {st st' : Statement} (h : x.withParams m st = .ok st') :
    st'.conditions = st.conditions := by
  unfold withParams at h
  dsimp only at h
  split at h
  · rw [Except.ok.inj h]
  split at h
  · cases h
  split at h
  · rw [← Except.ok.inj h]
    rfl
  · cases h

end Executable

/-- The conditions of a statement: the restriction of its context, and what joins from correlated
roots add. -/
theorem Context.statement_conditions {m : Machine} {x : Context} {st : Statement}
    (h : x.statement m = .ok st) :
    ∃ own, x.restriction.conditions = .ok own ∧ st.conditions = own ++ x.kind.joinConditions := by
  cases Context.states h with
  | select _ gives => exact gives.conditions
  | delete kind restricts => exact ⟨_, restricts, by rw [kind]; exact (List.append_nil _).symm⟩
  | update kind restricts => exact ⟨_, restricts, by rw [kind]; exact (List.append_nil _).symm⟩

/-- Whether the statement of a context has anything to select rows by. -/
def Context.isFiltered (x : Context) : Bool :=
  match x.restriction.conditions with
  | .ok own => !saysNothing (own ++ x.kind.joinConditions)
  | .error _ => false

/-- The text of a bulk query has a WHERE clause exactly if its criteria are filtered. -/
theorem Executable.showsWhere_iff {m : Machine} {x : Executable} {y : Context} {next : Nat}
    {st : Statement} {text clause : String} (hk : x.kind = .bulk) (hy : x.criteria? m = some y)
    (h : x.statement m next = .ok st) (hs : st.ShowsWhere text clause) :
    clause ≠ "" ↔ y.isFiltered = true := by
  rw [statement_eq hk hy] at h
  obtain ⟨bare, hbare, h⟩ := Except.bind_eq_ok.mp h
  obtain ⟨own, hown, conditions⟩ := Context.statement_conditions hbare
  rw [ne_eq, hs.eq_empty_iff, withParams_conditions h, conditions, Context.isFiltered, hown]
  simp

/-- A restriction filters exactly if it has a text. -/
theorem Context.isFiltered_iff {x : Context} {t : Operand} (h : x.restriction.isNull = false)
    (ht : x.restriction.condition = .ok t) (hk : x.kind.joinConditions = []) :
    x.isFiltered = !t.term.isBlank := by
  unfold isFiltered Value.conditions
  simp [h, ht, hk, Except.map, saysNothing_singleton]

theorem Context.not_isFiltered_of_null {x : Context} (h : x.restriction.isNull = true)
    (hk : x.kind.joinConditions = []) : x.isFiltered = false := by
  unfold isFiltered Value.conditions
  simp [h, hk, saysNothing, Term.allBlank]

/-! ### Executing -/

/-- The machine that announced a query in its log; none if somebody reads the log and the query has
no text. -/
def Machine.announced? (m : Machine) (q : QueryId) : Option Machine :=
  if m.settings.logging then ((Value.query q).shown? m).map fun s => m.logged ("Executing " ++ s)
  else some m

theorem Machine.announced?_eq_some {m m' : Machine} {q : QueryId}
    (h : m.announced? q = some m') : m'.trace = m.trace ∧ m'.contexts = m.contexts := by
  unfold announced? at h
  split at h
  · obtain ⟨s, -, rfl⟩ := Option.map_eq_some_iff.mp h
    unfold logged
    split <;> exact ⟨rfl, rfl⟩
  · obtain rfl := Option.some.inj h
    exact ⟨rfl, rfl⟩

theorem exec_announce (q : QueryId) (m : Machine) :
    exec (logLine do return "Executing " ++ (← shownNow (.query q))) m = match m.announced? q with
      | some m' => (.ok (), m')
      | none => (.error .external, m) := by
  unfold logLine Machine.announced?
  rw [exec_bind_of_ok (exec_get m)]
  split
  · rename_i logging
    simp only [exec_bind, exec_shownNow]
    rcases (Value.query q).shown? m with _ | s
    · rfl
    · simp [Machine.logged, logging]
  · rfl

/-- How an unfiltered bulk statement over a query is refused: by a message, if the query has a
text. -/
def Value.refusal (m : Machine) (v : Value) : Error :=
  match v.shown? m with
  | some s => .unfilteredBulk s
  | none => .external

/-- What the trace notes of a statement that is sent. -/
def Machine.entry? (m : Machine) (st : Statement) (options : MappingId) : Option Description := do
  let noted ← (Value.statement 0 st).describe? m
  let options ← Description.fields (Value.describe? m) (m.mapping options)
  return .execution noted options

/-- What a bulk query hands to its session, and what the trace notes of it. -/
structure Parcel where
  session : Session
  statement : Statement
  entry : Description

/-- What a query hands to its session, if it has a session and a statement that can be noted. -/
def Executable.parcel? (m : Machine) (x : Executable) : Option Parcel :=
  match x.session, x.statement m m.next with
  | .session session, .ok st => (m.entry? st x.options).map fun entry => ⟨session, st, entry⟩
  | _, _ => none

theorem Executable.parcel?_eq_some {m : Machine} {x : Executable} {p : Parcel}
    (h : x.parcel? m = some p) :
    x.session = .session p.session ∧ x.statement m m.next = .ok p.statement ∧
      m.entry? p.statement x.options = some p.entry := by
  unfold parcel? at h
  split at h
  · rename_i session st hsession hst
    obtain ⟨entry, hentry, rfl⟩ := Option.map_eq_some_iff.mp h
    exact ⟨hsession, hst, hentry⟩
  · cases h

namespace Session

def answer (s : Session) : Run Answer :=
  match s.spec.failure?, s.spec.rows? with
  | some e, _ => fail e
  | none, some rows => return .rows rows
  | none, none => return .count s.spec.rowCount?

/-- What a session gives back for a bulk statement: how many rows it affected, if it tells. -/
def affected (s : Session) : Run Value := do
  match ← s.answer with
  | .rows _ | .count none => return .int 0 0
  | .count (some d) => Value.ofDatum d

end Session

namespace QueryId

/-- The part of a bulk execution behind its guards. -/
def send (q : QueryId) (x : Executable) : Run Value := do
  logLine do return "Executing " ++ (← shownNow (.query q))
  let session ← requireSession x.session
  match ← sendTo session (← currentStatement x) x.options with
  | .rows _ | .count none => return .int 0 0
  | .count (some d) => Value.ofDatum d

variable {q : QueryId} {m m₁ : Machine} {x : Executable} {y : Context}

theorem exec_requireSession (v : Value) (m : Machine) :
    (∃ s, v = .session s ∧ exec (requireSession v) m = (.ok s, m)) ∨
      exec (requireSession v) m = (.error .external, m) := by
  unfold requireSession
  split
  · exact .inl ⟨_, rfl, rfl⟩
  · exact .inr rfl

theorem exec_sendTo (session : Session) (st : Statement) (options : MappingId) (m : Machine) :
    exec (sendTo session st options) m = match m.entry? st options with
      | some entry => exec session.answer { m with trace := m.trace ++ [entry] }
      | none => (.error .external, m) := by
  unfold sendTo Machine.entry?
  simp only [exec_bind, exec_get, exec_orExternal]
  rcases (Value.statement 0 st).describe? m with _ | noted
  · rfl
  rcases Description.fields (Value.describe? m) (m.mapping options) with _ | options <;> rfl

theorem exec_currentStatement (x : Executable) (m : Machine) :
    exec (currentStatement x) m = exec (liftExcept (x.statement m m.next)) m :=
  exec_bind_of_ok (exec_get m) _

/-- A parcel reaches its session, and the trace notes it. -/
theorem exec_send_of_parcel {p : Parcel} (hm : m.announced? q = some m₁)
    (hp : x.parcel? m₁ = some p) :
    exec (q.send x) m = exec p.session.affected { m₁ with trace := m₁.trace ++ [p.entry] } := by
  obtain ⟨hsession, hstatement, hentry⟩ := Executable.parcel?_eq_some hp
  have announce := exec_announce q m
  rw [hm] at announce
  have found : exec (requireSession x.session) m₁ = (.ok p.session, m₁) := by
    rw [hsession]
    rfl
  have current : exec (currentStatement x) m₁ = (.ok p.statement, m₁) := by
    rw [exec_currentStatement, hstatement]
    rfl
  have sent := exec_sendTo p.session p.statement x.options m₁
  rw [hentry] at sent
  unfold send
  rw [exec_bind_of_ok announce, exec_bind_of_ok found, exec_bind_of_ok current, exec_bind, sent,
    ← exec_bind]
  rfl

/-- Without a parcel nothing reaches a session, and that is no refusal. -/
theorem exec_send_of_none (hk : x.kind = .bulk) (hy : x.criteria? m = some y)
    (h : (m.announced? q).bind x.parcel? = none) :
    ∃ e m', exec (q.send x) m = (.error e, m') ∧ m'.trace = m.trace ∧
      e.errorClass ≠ .unsupportedCombination := by
  have announce := exec_announce q m
  unfold send
  rcases hm : m.announced? q with _ | m₁ <;> rw [hm] at announce h
  · exact ⟨_, _, exec_bind_of_error announce _, rfl, by decide⟩
  obtain ⟨same, contexts⟩ := Machine.announced?_eq_some hm
  have hy₁ : x.criteria? m₁ = some y := Executable.criteria?_eq contexts ▸ hy
  rw [exec_bind_of_ok announce]
  rcases exec_requireSession x.session m₁ with ⟨session, hsession, found⟩ | missing
  · rw [exec_bind_of_ok found]
    have current := exec_currentStatement x m₁
    rcases hst : x.statement m₁ m₁.next with e | st <;> rw [hst] at current
    · exact ⟨e, m₁, exec_bind_of_error current _, same,
        Error.ne_unsupported_of_isFault (Executable.statement_faults hk hy₁ e hst)⟩
    · rw [exec_bind_of_ok current]
      have unsent := exec_sendTo session st x.options m₁
      rw [Option.bind_some, Executable.parcel?, hsession, hst] at h
      rw [Option.map_eq_none_iff.mp h] at unsent
      exact ⟨_, _, exec_bind_of_error unsent _, same, by decide⟩
  · exact ⟨_, _, exec_bind_of_error missing _, same, by decide⟩

/-- The guards of a bulk execution, in their order. -/
theorem exec_execute (hx : m.query? q = some x) (hk : x.kind = .bulk) :
    exec q.execute m =
      if x.firstResult.isSet || x.maxResults.isSet then (.error .boundedBulk, m)
      else match x.criteria? m with
        | none => (.error .external, m)
        | some y =>
          if y.restriction.isNull && !m.settings.allowUnfilteredBulk then
            (.error (x.query.refusal m), m)
          else exec (q.send x) m := by
  have read : exec (restriction x) m = match x.criteria? m with
      | none => (.error .external, m)
      | some y => (.ok y.restriction, m) := by
    unfold restriction
    rcases hy : x.criteria? m with _ | y
    · unfold Executable.criteria? at hy
      split
      · rename_i c hq
        rw [hq] at hy
        have absent : exec c.read m = (.error .external, m) := by
          rw [exec_readContext, show m.context? c = none from hy]
        exact exec_bind_of_error absent _
      · rfl
    · obtain ⟨c, hq, hc⟩ := Executable.criteria?_eq_some.mp hy
      rw [hq]
      exact exec_bind_of_ok (exec_readContext_of_some hc) _
  unfold execute
  rw [exec_bind_of_ok (exec_read_of_some hx), hk]
  dsimp only
  split
  · rfl
  rw [exec_bind, read]
  rcases x.criteria? m with _ | y
  · rfl
  dsimp only
  rw [exec_bind_of_ok (exec_get m)]
  split
  · simp only [exec_bind, exec_shownNow, Value.refusal]
    rcases x.query.shown? m with _ | s <;> rfl
  · rfl

end QueryId

theorem Value.describe?_statement (m : Machine) (id : Nat) (st : Statement) :
    (Value.statement id st).describe? m =
      Description.ofRendered m (Value.describeTo m 999) st.render := rfl

/-- The trace notes the text of a statement on one line. -/
theorem Machine.entry?_eq_some {m : Machine} {st : Statement} {options : MappingId}
    {entry : Description} {r : Rendered} (h : m.entry? st options = some entry)
    (hr : st.render = .ok r) :
    ∃ parameters fields, entry = .execution (.sql (Text.collapse r.text) parameters) fields := by
  unfold entry? at h
  obtain ⟨noted, hnoted, h⟩ := Option.bind_eq_some_iff.mp h
  obtain ⟨fields, -, h⟩ := Option.bind_eq_some_iff.mp h
  obtain rfl := Option.some.inj h
  rw [Value.describe?_statement, hr] at hnoted
  obtain ⟨parameters, -, hnoted⟩ := Option.bind_eq_some_iff.mp hnoted
  obtain rfl := Option.some.inj hnoted
  exact ⟨parameters, fields, rfl⟩

/-- No program changes the settings. Whatever it did before, a bulk query with row bounds is
refused, and so is one without a restriction unless the settings allow it: then nothing is sent and
nothing changes. No other query is refused; its statement, if there is one, is sent once, and has a
WHERE clause exactly if the conditions of its criteria are not all blank. A restriction that is
blank passes the guard. -/
theorem bulk_statement_filtered_iff {q : QueryId} {m : Machine} {x : Executable}
    (hx : m.query? q = some x) (hk : x.kind = .bulk) :
    (∀ depth scope e n, (after (eval depth scope e) n).settings = n.settings) ∧
      let bounded := x.firstResult.isSet || x.maxResults.isSet
      (bounded = true → exec q.execute m = (.error .boundedBulk, m)) ∧
      (bounded = false → x.criteria? m = none → exec q.execute m = (.error .external, m)) ∧
      ∀ y, bounded = false → x.criteria? m = some y →
        let refused := y.restriction.isNull && !m.settings.allowUnfilteredBulk
        (refused = true → exec q.execute m = (.error (x.query.refusal m), m)) ∧
        (refused = false → (m.announced? q).bind x.parcel? = none →
          ∃ e m', exec q.execute m = (.error e, m') ∧ m'.trace = m.trace ∧
            e.errorClass ≠ .unsupportedCombination) ∧
        ∀ m₁ p, refused = false → m.announced? q = some m₁ → x.parcel? m₁ = some p →
          exec q.execute m =
            exec p.session.affected { m₁ with trace := m.trace ++ [p.entry] } ∧
          ∀ r, p.statement.render = .ok r →
            (∃ parameters options,
              p.entry = .execution (.sql (Text.collapse r.text) parameters) options) ∧
            ∃ clause, p.statement.ShowsWhere r.text clause ∧
              (clause ≠ "" ↔ y.isFiltered = true) := by
  refine ⟨fun depth scope e n => eval_keeps (R := SameSettings) depth scope e n, ?_⟩
  have guards := QueryId.exec_execute hx hk
  intro bounded
  refine ⟨fun set => guards.trans (if_pos set), fun unset hy => ?_, fun y unset hy => ?_⟩
  · rw [guards, if_neg (by simpa [bounded] using unset), hy]
  rw [if_neg (by simpa [bounded] using unset), hy] at guards
  dsimp only at guards
  refine ⟨fun refused => guards.trans (if_pos refused), fun passed nothing => ?_,
    fun m₁ p passed hm hp => ?_⟩
  · rw [guards, if_neg (Bool.eq_false_iff.mp passed)]
    exact QueryId.exec_send_of_none hk hy nothing
  · obtain ⟨same, contexts⟩ := Machine.announced?_eq_some hm
    rw [guards, if_neg (Bool.eq_false_iff.mp passed), ← same]
    refine ⟨QueryId.exec_send_of_parcel hm hp, fun r hr => ?_⟩
    obtain ⟨-, hst, hentry⟩ := Executable.parcel?_eq_some hp
    refine ⟨Machine.entry?_eq_some hentry hr, ?_⟩
    obtain ⟨clause, shows⟩ := Statement.shows_of_render hr
    have hy₁ : x.criteria? m₁ = some y := Executable.criteria?_eq contexts ▸ hy
    exact ⟨clause, shows, Executable.showsWhere_iff hk hy₁ hst shows⟩

/-- A deletion restricted to an empty conjunction is sent although it selects no rows. -/
theorem bulk_statement_filtered_iff_empty_and :
    let everything : Value := .term 1 (Connective.join .and [])
    let y : Context := ⟨everything, .delete (.mapped ⟨.product, none⟩)⟩
    let x : Executable := ⟨.bulk, .session ⟨2, ⟨none, some (.int 7), none⟩⟩, .context ⟨0⟩, ⟨0⟩, ⟨1⟩,
      .unset, .unset⟩
    let start : Machine := .start ⟨false, false, false⟩
    let m : Machine := { start with contexts := [y], queries := [x], mappings := [[], []] }
    let st : Statement := .delete Table.products.source [.group .and []]
    exec (QueryId.execute ⟨0⟩) m = (.ok (.int 0 7),
      { m with trace := [.execution (.sql "DELETE FROM products" []) []] }) ∧
    st.render.toOption.map (·.text) = some "DELETE FROM products" ∧
    st.ShowsWhere "DELETE FROM products" "" := by
  intro everything y x start m st
  have unbounded : (x.firstResult.isSet || x.maxResults.isSet) = false := by
    simp [x, Stream.isSet_unset]
  obtain ⟨-, -, -, guarded⟩ := bulk_statement_filtered_iff (q := ⟨0⟩) (m := m) (x := x) rfl rfl
  obtain ⟨-, -, sends⟩ := guarded y unbounded rfl
  have made : x.statement m m.next = .ok st := by rfl
  have rendered : st.render = .ok ⟨"DELETE FROM products", []⟩ := by rfl
  have line : Text.collapse "DELETE FROM products" = "DELETE FROM products" := by decide +kernel
  have noted : m.entry? st ⟨1⟩ = some (.execution (.sql "DELETE FROM products" []) []) := by
    unfold Machine.entry?
    rw [Value.describe?_statement, rendered, Description.ofRendered, line]
    rfl
  have parcel : x.parcel? m = some ⟨⟨2, ⟨none, some (.int 7), none⟩⟩, st,
      .execution (.sql "DELETE FROM products" []) []⟩ := by
    unfold Executable.parcel?
    rw [made]
    change (m.entry? st ⟨1⟩).map _ = _
    rw [noted]
    rfl
  obtain ⟨sent, shown⟩ := sends m _ rfl rfl parcel
  obtain ⟨-, clause, shows, filtered⟩ := shown _ rendered
  have blank : clause = "" := by
    by_contra h
    have : y.isFiltered = false := by decide
    simp [filtered.mp h] at this
  rw [blank] at shows
  exact ⟨sent, by rw [rendered]; rfl, shows⟩

end FluentQuery
