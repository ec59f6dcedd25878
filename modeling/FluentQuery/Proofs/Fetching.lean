import FluentQuery.Proofs.Counting.Bag
import FluentQuery.Proofs.Freezing
import FluentQuery.Proofs.RowBounds

/-! What a search gives when it runs. All elements, the first one and the only one are read off the
same rows, each by one statement, however the query is bounded. -/

namespace FluentQuery

open Sql

/-! ### Sessions -/

/-- A session is sent statements with execution options: the trace notes them, and the session
answers or fails. It touches nothing else. -/
structure Sending.Behaves (send : Sending)
    (notes : Statement → List (String × Value) → Description)
    (answer : Session → Statement → Except Error Answer) : Prop where
  sends : ∀ session s options m, exec (send session s options) m =
    (answer session s, { m with trace := m.trace ++ [notes s (m.mapping options)] })

/-- The same SELECT without OFFSET and LIMIT. -/
def Sql.Select.unbounded (s : Select) : Select := { s with offset := none, limit := none }

/-- A SELECT is answered with the rows of its unbounded form, after OFFSET was dropped and LIMIT
taken. A row of a single column has a value. -/
structure Answers (answer : Statement → Except Error Answer)
    (table : Select → List (List Datum)) : Prop where
  selects : ∀ s, answer (.select s) = .ok (.rows (s.window (table s.unbounded)))
  filled : ∀ s, s.items.length = 1 → [] ∉ table s

theorem Sql.Select.mem_of_mem_window {α : Type} {s : Select} {l : List α} {x : α}
    (h : x ∈ s.window l) : x ∈ l := by
  unfold window at h
  split at h
  · exact List.mem_of_mem_drop h
  · exact List.mem_of_mem_drop (List.mem_of_mem_take h)

/-- One row is enough to see the first one, unless LIMIT leaves none. -/
theorem Sql.Select.window_one {α : Type} (s : Select) (l : List α) (id : Nat)
    (h : ∀ b ∈ s.limit, 0 < b.value) :
    ({ s with limit := some ⟨id, 1⟩ } : Select).window l = (s.window l).head?.toList := by
  have first (xs : List α) : xs.take 1 = xs.head?.toList := by cases xs <;> rfl
  unfold window
  change (l.drop s.dropped).take 1 = _
  rw [first]
  split
  · rfl
  · rename_i b hb
    have some : b.value.toNat ≠ 0 := by
      have := h b hb
      omega
    rw [List.head?_take, if_neg some]

/-! ### Elements -/

section Constructing

variable {α β : Type}

/-- A computation makes new data and logs, and gives this result whatever the trace and the log
say. -/
def Constructs (x : Run α) (m : Machine) (r : Except Error α) : Prop :=
  ∃ next new, ∀ trace log, ∃ log', exec x { m with trace, log } =
    (r, { m with trace, log := log', next, mappings := m.mappings ++ new })

theorem Constructs.exec_eq {x : Run α} {m : Machine} {r : Except Error α} (h : Constructs x m r) :
    (exec x m).1 = r := by
  obtain ⟨next, new, made⟩ := h
  obtain ⟨log, made⟩ := made m.trace m.log
  exact congrArg Prod.fst made

/-- A computation that only makes new data and logs, and never fails. -/
def Constructive (x : Run α) : Prop := ∀ m, ∃ a, Constructs x m (.ok a)

theorem constructs_pure (a : α) (m : Machine) : Constructs (pure a) m (.ok a) :=
  ⟨m.next, [], fun _ log => ⟨log, by simp⟩⟩

theorem constructs_fail (e : Error) (m : Machine) : Constructs (fail e : Run α) m (.error e) :=
  ⟨m.next, [], fun _ log => ⟨log, by simp⟩⟩

namespace Constructive

theorem pure (a : α) : Constructive (pure a) := fun m => ⟨a, constructs_pure a m⟩

theorem bind {x : Run α} {f : α → Run β} (hx : Constructive x) (hf : ∀ a, Constructive (f a)) :
    Constructive (x >>= f) := by
  intro m
  obtain ⟨a, next, new, first⟩ := hx m
  obtain ⟨b, last, more, rest⟩ := hf a { m with next, mappings := m.mappings ++ new }
  refine ⟨b, last, new ++ more, fun trace log => ?_⟩
  obtain ⟨log₁, h₁⟩ := first trace log
  obtain ⟨log₂, h₂⟩ := rest trace log₁
  exact ⟨log₂, by rw [exec_bind_of_ok h₁, ← List.append_assoc]; exact h₂⟩

theorem fresh : Constructive fresh := fun m =>
  ⟨m.next, m.next + 1, [], fun _ log => ⟨log, by simp⟩⟩

theorem newMapping (fields : List (String × Value)) : Constructive (newMapping fields) := fun m =>
  ⟨.mapping ⟨m.mappings.length⟩, m.next, [fields], fun _ log => ⟨log, rfl⟩⟩

theorem mapM {f : α → Run β} {xs : List α} (hf : ∀ x ∈ xs, Constructive (f x)) :
    Constructive (xs.mapM f) := by
  induction xs with
  | nil => exact pure []
  | cons x xs ih =>
    rw [List.mapM_cons]
    refine bind (hf x List.mem_cons_self) fun _ => ?_
    exact bind (ih fun y hy => hf y (List.mem_cons_of_mem _ hy)) fun _ => pure _

end Constructive

end Constructing

mutual

theorem Value.ofDatum_constructive : ∀ d : Datum, Constructive (Value.ofDatum d)
  | .null | .bool _ | .int _ | .float _ | .text _ => .pure _
  | .list items => (Value.ofData_constructive items).bind fun _ => .bind .fresh fun _ => .pure _
  | .mapping fields => (Value.ofFields_constructive fields).bind fun _ => .newMapping _

theorem Value.ofData_constructive : ∀ ds : List Datum, Constructive (Value.ofDatum.ofData ds)
  | [] => .pure _
  | d :: ds =>
    (Value.ofDatum_constructive d).bind fun _ =>
      (Value.ofData_constructive ds).bind fun _ => .pure _

theorem Value.ofFields_constructive :
    ∀ fields : List (String × Datum), Constructive (Value.ofDatum.ofFields fields)
  | [] => .pure _
  | (_, d) :: rest =>
    (Value.ofDatum_constructive d).bind fun _ =>
      (Value.ofFields_constructive rest).bind fun _ => .pure _

end

theorem element_constructive {single : Bool} {row : List Datum} (h : single = true → row ≠ []) :
    Constructive (element single row) := by
  unfold element
  split
  · rename_i column
    obtain ⟨d, row, rfl⟩ := List.exists_cons_of_ne_nil (h column)
    exact Value.ofDatum_constructive d
  · refine .bind .fresh fun _ => .bind (.mapM fun d _ => ?_) fun _ => .pure _
    exact Value.ofDatum_constructive d

/-- The only element there is, or how there is none. -/
def theOnly : List Value → Except Error Value
  | [] => .error (.signal .noResultFound)
  | [v] => .ok v
  | _ => .error (.signal .multipleResultsFound)

/-- What all rows give. -/
def allOf (single : Bool) (rows : List (List Datum)) : Run Value := do
  let elements ← rows.mapM (element single)
  logLine (pure ("Fetched " ++ toString elements.length ++ " rows"))
  newList elements

/-- What the first row gives, or null. -/
def firstOf (single : Bool) : List (List Datum) → Run Value
  | row :: _ => element single row
  | [] => return .null

/-- What the only row gives. -/
def onlyOf (single : Bool) : List (List Datum) → Run Value
  | [] => fail (.signal .noResultFound)
  | [row] => element single row
  | _ => fail (.signal .multipleResultsFound)

theorem allOf_constructs {single : Bool} {rows : List (List Datum)} {items : List Value}
    {m : Machine} (h : Constructs (rows.mapM (element single)) m (.ok items)) :
    ∃ id, Constructs (allOf single rows) m (.ok (.list id items)) := by
  obtain ⟨next, new, made⟩ := h
  refine ⟨next, next + 1, new, fun trace log => ?_⟩
  obtain ⟨log₁, h₁⟩ := made trace log
  unfold allOf
  rw [exec_bind_of_ok h₁, exec_bind_of_ok (exec_logLine_pure _ _)]
  unfold Machine.logged
  split
  · exact ⟨_, rfl⟩
  · exact ⟨_, rfl⟩

/-- From the same rows come the same elements, whether all are made or just one. -/
theorem elements_agree {single : Bool} {rows : List (List Datum)}
    (filled : ∀ row ∈ rows, single = true → row ≠ []) (m : Machine) :
    ∃ id items, Constructs (allOf single rows) m (.ok (.list id items)) ∧
      Constructs (firstOf single rows) m (.ok (items.head?.getD .null)) ∧
      Constructs (onlyOf single rows) m (theOnly items) := by
  cases rows with
  | nil =>
    have none : Constructs (([] : List (List Datum)).mapM (element single)) m (.ok []) :=
      constructs_pure [] m
    obtain ⟨id, all⟩ := allOf_constructs none
    exact ⟨id, [], all, constructs_pure Value.null m, constructs_fail _ m⟩
  | cons row rows =>
    obtain ⟨v, one⟩ := element_constructive (filled row List.mem_cons_self) m
    obtain ⟨next, new, made⟩ := id one
    have others : Constructive (rows.mapM (element single)) :=
      .mapM fun r hr => element_constructive (filled r (List.mem_cons_of_mem _ hr))
    obtain ⟨vs, last, more, rest⟩ := others { m with next, mappings := m.mappings ++ new }
    have elements : Constructs ((row :: rows).mapM (element single)) m (.ok (v :: vs)) := by
      refine ⟨last, new ++ more, fun trace log => ?_⟩
      obtain ⟨log₁, h₁⟩ := made trace log
      obtain ⟨log₂, h₂⟩ := rest trace log₁
      refine ⟨log₂, ?_⟩
      rw [List.mapM_cons, exec_bind_of_ok h₁, ← List.append_assoc, exec_bind_of_ok h₂]
      rfl
    obtain ⟨id, all⟩ := allOf_constructs elements
    refine ⟨id, v :: vs, all, one, ?_⟩
    obtain ⟨log, others⟩ := rest m.trace m.log
    cases rows with
    | nil =>
      obtain ⟨rfl, -⟩ := exec_pure_eq_ok.mp others
      exact one
    | cons second rows =>
      rw [List.mapM_cons] at others
      obtain ⟨_, _, -, others⟩ := exec_bind_eq_ok.mp others
      obtain ⟨_, _, -, others⟩ := exec_bind_eq_ok.mp others
      obtain ⟨rfl, -⟩ := exec_pure_eq_ok.mp others
      exact constructs_fail _ m

/-! ### Statements -/

theorem Bound.IsProper.whole? {b : Bound} (h : b.IsProper) : b.whole?.isSome := by
  rcases h with rfl | ⟨n, hn, -⟩
  · rfl
  · rw [hn]
    rfl

theorem Bound.isZero_of_whole? {b : Bound} {n : Int} (h : b.whole? = some n) :
    b.isZero = decide (n = 0) := by
  have position : b.position? = some (.ofInt n) := by
    cases b <;> simp_all [Bound.whole?, position?]
  have units : (Binary64.unitsPerOne : Int) ≠ 0 := by decide +kernel
  have same : n * (Binary64.unitsPerOne : Int) = 0 * Binary64.unitsPerOne ↔ n = 0 :=
    Int.mul_eq_mul_right_iff units
  unfold isZero
  rw [position, Bool.eq_iff_iff]
  simp only [beq_iff_eq, Option.some.injEq, Position.ofInt, Position.units.injEq, decide_eq_true_eq,
    same]

/-- A row limit is zero exactly if a statement shows it as zero; otherwise it leaves a row. -/
theorem Bound.IsProper.isZero_iff {b : Bound} (proper : b.IsProper) :
    if b.isZero then b.shown? = some 0 else ∀ n, b.shown? = some n → 0 < n := by
  obtain ⟨n, hn⟩ := Option.isSome_iff_exists.mp proper.whole?
  have set := isSet_of_whole? hn
  rw [isZero_of_whole? hn, shown?, hn]
  by_cases zero : n = 0
  · subst zero
    rw [if_pos (by simp), if_pos (by rw [set]; rfl)]
  · rw [if_neg (by simpa using zero)]
    intro k shown
    split at shown
    · rename_i isSet
      obtain rfl := Option.some.inj shown
      obtain ⟨i, hi, nonneg⟩ := proper.natural isSet
      obtain rfl := Option.some.inj (hn.symm.trans hi)
      omega
    · cases shown

/-- A query ready to run that is a search: it stands on a query context, and its row bounds are whole
numbers, with -1 for none. -/
structure QueryId.Searches (q : QueryId) (m : Machine) (x : Executable) : Prop where
  query : m.query? q = some x
  kind : x.kind = .typed
  criteria : ∃ c y body orders, x.query = .context c ∧ m.context? c = some y ∧
    y.kind = .query body orders
  first : x.firstResult.IsProper
  max : x.maxResults.IsProper

namespace Executable

variable {x : Executable} {m : Machine} {next : Nat}

/-- Without row bounds a search stands for the statement of its query, with the parameters. -/
theorem unbounded_statement_eq {c : ContextId} {y : Context} (hk : x.kind = .typed)
    (hq : x.query = .context c) (hc : m.context? c = some y) :
    x.unbounded.statement m next = (y.statement m >>= fun st => x.withParams m st) := by
  have params (st : Statement) : x.unbounded.withParams m st = x.withParams m st := rfl
  have kind : x.unbounded.kind = .typed := hk
  have query : x.unbounded.query = .context c := hq
  unfold statement statementTo
  simp only [kind, query, hc, Option.elim, params, withBounds_unbounded, Bool.false_eq_true,
    if_false, if_true]
  change (y.statement m >>= fun st => x.withParams m st >>= pure) = _
  simp only [bind_pure]

theorem select_of_withParams {s : Select} {st : Statement}
    (h : x.withParams m (.select s) = .ok st) : ∃ s', st = .select s' := by
  unfold withParams at h
  dsimp only at h
  split at h
  · exact ⟨s, (Except.ok.inj h).symm⟩
  split at h
  · cases h
  · exact ⟨_, (Except.ok.inj h).symm⟩

/-- The statement of a search, if it can be built, is a SELECT that shows its row limit. -/
theorem search_statement {q : QueryId} (search : q.Searches m x) (next : Nat) :
    (∃ s, x.statement m next = .ok (.select s) ∧
      s.limit.map (·.value) = x.maxResults.shown?) ∨
    ∃ e, x.statement m next = .error e ∧ e.isFault := by
  obtain ⟨c, y, body, orders, hq, hc, hy⟩ := search.criteria
  have bare : x.unbounded.statement m next = (y.statement m >>= fun st => x.withParams m st) :=
    unbounded_statement_eq search.kind hq hc
  obtain ⟨fails, shows⟩ := statement_shows m next search.kind hq search.first.whole?
    search.max.whole?
  have fault : Faults (x.unbounded.statement m next) :=
    bare ▸ .bind (y.statement_faults m) fun st => withParams_faults st
  rcases hu : x.unbounded.statement m next with e | st
  · exact .inr ⟨e, fails e hu, fault e hu⟩
  · rw [bare] at hu
    obtain ⟨st', hst, params⟩ := Except.bind_eq_ok.mp hu
    obtain ⟨s, rfl⟩ : ∃ s, st' = .select s := by
      cases Context.states hst with
      | select => exact ⟨_, rfl⟩
      | delete kind | update kind => cases hy.symm.trans kind
    obtain ⟨base, rfl⟩ := select_of_withParams params
    obtain ⟨offset, limit, built, -, shown⟩ := shows base (bare.trans hu)
    exact .inl ⟨_, built, shown⟩

end Executable

/-! ### Calls -/

/-- A call gives this result, sends what the trace notes of it, and otherwise only logs and makes new
data. -/
def Serves (x : Run Value) (m : Machine) (sent : List Description) (r : Except Error Value) : Prop :=
  ∃ log next new, exec x m =
    (r, { m with log, next, trace := m.trace ++ sent, mappings := m.mappings ++ new })

theorem serves_of_exec {x : Run Value} {m : Machine} {r : Except Error Value}
    (h : exec x m = (r, m)) : Serves x m [] r :=
  ⟨m.log, m.next, [], by rw [h, List.append_nil, List.append_nil]⟩

theorem Serves.of_exec_eq {x y : Run Value} {m : Machine} {sent : List Description}
    {r : Except Error Value} (h : Serves y m sent r) (same : exec x m = exec y m) :
    Serves x m sent r := by
  obtain ⟨log, next, new, h⟩ := h
  exact ⟨log, next, new, same.trans h⟩

theorem Machine.announced?_log {q : QueryId} {m m' : Machine} (h : m.announced? q = some m') :
    ∃ log, m' = { m with log } := by
  unfold announced? at h
  split at h
  · obtain ⟨s, -, rfl⟩ := Option.map_eq_some_iff.mp h
    unfold logged
    split
    · exact ⟨_, rfl⟩
    · exact ⟨_, rfl⟩
  · obtain rfl := Option.some.inj h
    exact ⟨_, rfl⟩

/-- A search that can be sent: it has a statement and a session, and a text if somebody reads the
log. -/
structure QueryId.Ready (q : QueryId) (m : Machine) (x : Executable) (session : Session)
    (s : Select) : Prop where
  statement : x.statement m m.next = .ok (.select s)
  session : x.session = .session session
  announced : (m.announced? q).isSome

namespace QueryId

section Calls

variable {send : Sending} {notes : Statement → List (String × Value) → Description}
  {answer : Session → Statement → Except Error Answer} (behaves : send.Behaves notes answer)
  {q : QueryId} {m : Machine} {x : Executable} (search : q.Searches m x)

/-- What is found in an answer. -/
def foundIn (s : Select) : Except Error Answer → Except Error (Bool × List (List Datum))
  | .ok (.rows rows) => .ok (s.items.length == 1, rows)
  | .ok (.count _) => .error .external
  | .error e => .error e

include behaves in
/-- A statement that reaches its session is sent once. -/
theorem exec_found {session : Session} (hs : x.session = .session session)
    (announced : (m.announced? q).isSome) :
    ∃ log, ∀ s : Select, exec (q.found send x (.select s)) m =
      (foundIn s (answer session (.select s)),
        { m with log, trace := m.trace ++ [notes (.select s) (m.mapping x.options)] }) := by
  obtain ⟨m₁, hm₁⟩ := Option.isSome_iff_exists.mp announced
  obtain ⟨log, rfl⟩ := Machine.announced?_log hm₁
  refine ⟨log, fun s => ?_⟩
  have announce := exec_announce q m
  rw [hm₁] at announce
  have sent := behaves.sends session (.select s) x.options { m with log }
  unfold found foundIn
  rw [exec_bind_of_ok announce, hs, exec_bind_of_ok (show exec (requireSession (.session session)) _ =
    (.ok session, _) from rfl), exec_bind, sent]
  rcases answer session (.select s) with e | (rows | n) <;> rfl

/-- A statement that cannot reach a session is not sent. -/
theorem exec_found_unsent (h : ∀ session, x.session = .session session → m.announced? q = none)
    (st : Statement) : ∃ log, exec (q.found send x st) m = (.error .external, { m with log }) := by
  have announce := exec_announce q m
  unfold found
  rcases hm₁ : m.announced? q with _ | m₁ <;> rw [hm₁] at announce
  · exact ⟨m.log, exec_bind_of_error announce _⟩
  obtain ⟨log, rfl⟩ := Machine.announced?_log hm₁
  refine ⟨log, ?_⟩
  rw [exec_bind_of_ok announce]
  rcases exec_requireSession x.session { m with log } with ⟨session, hs, -⟩ | missing
  · cases (h session hs).symm.trans hm₁
  · exact exec_bind_of_error missing _

include search

theorem exec_typed : exec q.typed m = (.ok x, m) := by
  unfold typed
  rw [exec_bind_of_ok (exec_read_of_some search.query), search.kind]
  rfl

/-- A search without a statement fails, and sends nothing. -/
theorem exec_current_of_error {α : Type} {e : Error} (he : x.statement m m.next = .error e)
    (f : Executable → Statement → Run α) :
    exec (do
      let x ← q.typed
      f x (← currentStatement x)) m = (.error e, m) := by
  rw [exec_bind_of_ok (exec_typed search)]
  refine exec_bind_of_error ?_ _
  rw [exec_currentStatement, he]
  rfl

theorem exec_current {α : Type} {st : Statement} (h : x.statement m m.next = .ok st)
    (f : Executable → Statement → Run α) :
    exec (do
      let x ← q.typed
      f x (← currentStatement x)) m = exec (f x st) m := by
  rw [exec_bind_of_ok (exec_typed search)]
  refine exec_bind_of_ok ?_ _
  rw [exec_currentStatement, h]
  rfl

end Calls

/-! ### What a call makes of the rows -/

/-- Sends a statement of a search, and goes on with what was found. -/
def sending (send : Sending) (q : QueryId) (x : Executable) (s : Statement)
    (read : Bool → List (List Datum) → Run Value) : Run Value :=
  q.found send x s >>= fun found => read found.1 found.2

theorem fetch_eq (send : Sending) (q : QueryId) : q.fetch send = (do
    let x ← q.typed
    q.sending send x (← currentStatement x) allOf) := rfl

theorem one_eq (send : Sending) (q : QueryId) : q.one send = (do
    let x ← q.typed
    q.sending send x (← currentStatement x) onlyOf) := by
  refine bind_congr fun x => bind_congr fun st => bind_congr fun found => ?_
  obtain ⟨single, _ | ⟨row, _ | ⟨second, rows⟩⟩⟩ := found <;> rfl

/-- The statement that asks for one row of those a SELECT gives. -/
def oneRow (s : Select) (m : Machine) : Select := { s with limit := some ⟨m.next + 1, 1⟩ }

theorem exec_first_sending (send : Sending) (q : QueryId) (x : Executable) (s : Select)
    (m : Machine) : exec (do
      let limited : Select := { s with limit := some ⟨(← get).next + 1, 1⟩ }
      match ← q.found send x (.select limited) with
      | (single, row :: _) => element single row
      | (_, []) => return .null) m = exec (q.sending send x (.select (oneRow s m)) firstOf) m := by
  unfold sending
  rw [exec_bind_of_ok (exec_get m)]
  refine congrArg (exec · m) (bind_congr fun found => ?_)
  obtain ⟨single, _ | ⟨row, rows⟩⟩ := found <;> rfl

section Serving

variable {send : Sending} {notes : Statement → List (String × Value) → Description}
  {answer : Session → Statement → Except Error Answer} (behaves : send.Behaves notes answer)
  {q : QueryId} {m : Machine} {x : Executable}

include behaves in
/-- A statement that reaches its session is the only one sent. An error of the session stands, and
rows are made to data. -/
theorem serves_sending {session : Session} (hs : x.session = .session session)
    (announced : (m.announced? q).isSome) (s : Select)
    (read : Bool → List (List Datum) → Run Value) :
    (∀ e, answer session (.select s) = .error e → Serves (q.sending send x (.select s) read) m
      [notes (.select s) (m.mapping x.options)] (.error e)) ∧
    ∀ rows r, answer session (.select s) = .ok (.rows rows) →
      Constructs (read (s.items.length == 1) rows) m r →
      Serves (q.sending send x (.select s) read) m [notes (.select s) (m.mapping x.options)] r := by
  obtain ⟨log, found⟩ := exec_found behaves hs announced
  refine ⟨fun e he => ?_, fun rows r hr made => ?_⟩
  · have failed := found s
    rw [he] at failed
    exact ⟨log, m.next, [], by rw [sending, exec_bind_of_error failed, List.append_nil]⟩
  · have gave := found s
    rw [hr] at gave
    obtain ⟨next, new, made⟩ := made
    obtain ⟨log', made⟩ := made (m.trace ++ [notes (.select s) (m.mapping x.options)]) log
    exact ⟨log', next, new, by rw [sending, exec_bind_of_ok gave]; exact made⟩

theorem serves_unsent (h : ∀ session, x.session = .session session → m.announced? q = none)
    (st : Statement) (read : Bool → List (List Datum) → Run Value) :
    Serves (q.sending send x st read) m [] (.error .external) := by
  obtain ⟨log, failed⟩ := exec_found_unsent h st
  exact ⟨log, m.next, [], by rw [sending, exec_bind_of_error failed, List.append_nil, List.append_nil]⟩

end Serving

section First

variable {q : QueryId} {m : Machine} {x : Executable} (search : q.Searches m x)

include search

/-- No row may be returned: nothing is sent. -/
theorem serves_first_of_zero (send : Sending) (zero : x.maxResults.isZero) :
    Serves (q.first send) m [] (.ok .null) := by
  refine serves_of_exec ?_
  unfold first
  rw [exec_bind_of_ok (exec_typed search), if_pos zero]
  rfl

theorem exec_first (send : Sending) (nonzero : x.maxResults.isZero = false) {s : Select}
    (h : x.statement m m.next = .ok (.select s)) :
    exec (q.first send) m = exec (q.sending send x (.select (oneRow s m)) firstOf) m := by
  have current : exec (currentStatement x) m = (.ok (.select s), m) := by
    rw [exec_currentStatement, h]
    rfl
  unfold first
  rw [exec_bind_of_ok (exec_typed search), if_neg (by simp [nonzero]), exec_bind_of_ok current]
  exact exec_first_sending send q x s m

theorem exec_first_of_error (send : Sending) (nonzero : x.maxResults.isZero = false) {e : Error}
    (he : x.statement m m.next = .error e) : exec (q.first send) m = (.error e, m) := by
  have current : exec (currentStatement x) m = (.error e, m) := by
    rw [exec_currentStatement, he]
    rfl
  unfold first
  rw [exec_bind_of_ok (exec_typed search), if_neg (by simp [nonzero])]
  exact exec_bind_of_error current _

end First

section Ready

variable {q : QueryId} {m : Machine} {x : Executable} {session : Session} {s : Select}
  (search : q.Searches m x)

include search

theorem exec_fetch (send : Sending) {st : Statement} (h : x.statement m m.next = .ok st) :
    exec (q.fetch send) m = exec (q.sending send x st allOf) m := by
  rw [fetch_eq]
  exact exec_current search h _

theorem exec_one (send : Sending) {st : Statement} (h : x.statement m m.next = .ok st) :
    exec (q.one send) m = exec (q.sending send x st onlyOf) m := by
  rw [one_eq]
  exact exec_current search h _

/-- The statement is limited as the query is. -/
theorem Ready.limit (ready : q.Ready m x session s) :
    s.limit.map (·.value) = x.maxResults.shown? := by
  rcases Executable.search_statement search m.next with ⟨t, ht, shown⟩ | ⟨e, he, -⟩
  · obtain rfl := Statement.select.inj (Except.ok.inj (ht.symm.trans ready.statement))
    exact shown
  · cases he.symm.trans ready.statement

/-- A query that may return no row returns none. -/
theorem Ready.window_of_zero (ready : q.Ready m x session s) (zero : x.maxResults.isZero)
    {α : Type} (rows : List α) : s.window rows = [] := by
  have limit := search.max.isZero_iff
  rw [if_pos zero, ← ready.limit search] at limit
  obtain ⟨b, hb, none⟩ := Option.map_eq_some_iff.mp limit
  unfold Select.window
  rw [hb]
  simp [none]

/-- If a row may be returned, the one row that is asked for is the first of all. -/
theorem Ready.window_oneRow (ready : q.Ready m x session s) (nonzero : x.maxResults.isZero = false)
    {α : Type} (rows : List α) : (oneRow s m).window rows = (s.window rows).head?.toList := by
  have limit := search.max.isZero_iff
  rw [if_neg (by simp [nonzero]), ← ready.limit search] at limit
  exact Select.window_one s rows _ fun b hb => limit _ (by rw [hb]; rfl)

/-- The first element is made of the first of all rows, whether it is asked for or not. -/
theorem Ready.serves_first {send : Sending} {notes : Statement → List (String × Value) → Description}
    {answer : Session → Statement → Except Error Answer} (behaves : send.Behaves notes answer)
    (ready : q.Ready m x session s) {table : Select → List (List Datum)}
    (answers : Answers (answer session) table) {r : Except Error Value}
    (made : Constructs (firstOf (s.items.length == 1) (s.window (table s.unbounded))) m r) :
    Serves (q.first send) m (if x.maxResults.isZero then []
      else [notes (.select (oneRow s m)) (m.mapping x.options)]) r := by
  cases zero : x.maxResults.isZero with
  | true =>
    rw [ready.window_of_zero search zero] at made
    rw [if_pos rfl, ← made.exec_eq]
    exact serves_first_of_zero search send zero
  | false =>
    have head : (oneRow s m).window (table (oneRow s m).unbounded) =
        (s.window (table s.unbounded)).head?.toList :=
      ready.window_oneRow search zero (table s.unbounded)
    have same (rows : List (List Datum)) : firstOf (s.items.length == 1) rows.head?.toList =
        firstOf (s.items.length == 1) rows := by
      cases rows <;> rfl
    have gave := answers.selects (oneRow s m)
    rw [head] at gave
    have sent := serves_sending behaves ready.session ready.announced (oneRow s m) firstOf
    exact (sent.2 _ _ gave ((same _).symm ▸ made)).of_exec_eq
      (exec_first search send zero ready.statement)

/-- A search that cannot be sent fails alike in every call. -/
theorem serves_unready (send : Sending) (unready : ∀ session s, ¬q.Ready m x session s) :
    ∃ e, e.isFault ∧ Serves (q.fetch send) m [] (.error e) ∧ Serves (q.one send) m [] (.error e) ∧
      (x.maxResults.isZero = false → Serves (q.first send) m [] (.error e)) := by
  rcases Executable.search_statement search m.next with ⟨s, hs, -⟩ | ⟨e, he, fault⟩
  · have unsent (session : Session) (h : x.session = .session session) : m.announced? q = none := by
      cases announced : m.announced? q with
      | none => rfl
      | some m₁ => exact absurd ⟨hs, h, by rw [announced]; rfl⟩ (unready session s)
    refine ⟨.external, rfl, ?_, ?_, fun nonzero => ?_⟩
    · exact (serves_unsent unsent _ _).of_exec_eq (exec_fetch search send hs)
    · exact (serves_unsent unsent _ _).of_exec_eq (exec_one search send hs)
    · exact (serves_unsent unsent _ _).of_exec_eq (exec_first search send nonzero hs)
  · refine ⟨e, fault, ?_, ?_, fun nonzero => ?_⟩
    · rw [fetch_eq]
      exact serves_of_exec (exec_current_of_error search he _)
    · rw [one_eq]
      exact serves_of_exec (exec_current_of_error search he _)
    · exact serves_of_exec (exec_first_of_error search send nonzero he)

end Ready

end QueryId

open QueryId in
/-- All elements, the first and the only one agree. Each call sends one statement with the execution
options of the query, except that nothing is sent for a first element that may not be returned; it
leaves everything as it was, but for new data and the log. An error of the session is the result. If
the session answers as it should, the first element is the first of all, or null; the only one is the
one there is, or it fails as there are none or several. A search that cannot be sent is none of that:
every call fails alike, by a fault, and sends nothing. -/
theorem fetch_first_one_agree {send : Sending}
    {notes : Statement → List (String × Value) → Description}
    {answer : Session → Statement → Except Error Answer} (behaves : send.Behaves notes answer)
    {q : QueryId} {m : Machine} {x : Executable} (search : q.Searches m x) :
    let options := m.mapping x.options
    (x.maxResults.isZero → Serves (q.first send) m [] (.ok .null)) ∧
    (∀ session s, q.Ready m x session s →
      (∀ e, answer session (.select s) = .error e →
        Serves (q.fetch send) m [notes (.select s) options] (.error e) ∧
        Serves (q.one send) m [notes (.select s) options] (.error e)) ∧
      (∀ e, x.maxResults.isZero = false → answer session (.select (oneRow s m)) = .error e →
        Serves (q.first send) m [notes (.select (oneRow s m)) options] (.error e)) ∧
      ∀ table, Answers (answer session) table → ∃ id items,
        Serves (q.fetch send) m [notes (.select s) options] (.ok (.list id items)) ∧
        Serves (q.one send) m [notes (.select s) options] (theOnly items) ∧
        Serves (q.first send) m
          (if x.maxResults.isZero then [] else [notes (.select (oneRow s m)) options])
          (.ok (items.head?.getD .null))) ∧
    ((∀ session s, ¬q.Ready m x session s) → ∃ e, e.isFault ∧
      Serves (q.fetch send) m [] (.error e) ∧ Serves (q.one send) m [] (.error e) ∧
      (x.maxResults.isZero = false → Serves (q.first send) m [] (.error e))) := by
  intro options
  refine ⟨serves_first_of_zero search send, fun session s ready => ?_, serves_unready search send⟩
  have sent := serves_sending behaves ready.session ready.announced
  have fetched := exec_fetch search send ready.statement
  have one := exec_one search send ready.statement
  refine ⟨fun e he => ⟨?_, ?_⟩, fun e nonzero he => ?_, fun table answers => ?_⟩
  · exact ((sent s allOf).1 e he).of_exec_eq fetched
  · exact ((sent s onlyOf).1 e he).of_exec_eq one
  · exact ((sent _ firstOf).1 e he).of_exec_eq (exec_first search send nonzero ready.statement)
  · have filled : ∀ row ∈ s.window (table s.unbounded), (s.items.length == 1) = true → row ≠ [] := by
      rintro _ mem single rfl
      have column : s.unbounded.items.length = 1 := beq_iff_eq.mp single
      exact answers.filled s.unbounded column (Select.mem_of_mem_window mem)
    obtain ⟨id, items, madeAll, madeFirst, madeOnly⟩ := elements_agree filled m
    refine ⟨id, items, ?_, ?_, ready.serves_first search behaves answers madeFirst⟩
    · exact ((sent s allOf).2 _ _ (answers.selects s) madeAll).of_exec_eq fetched
    · exact ((sent s onlyOf).2 _ _ (answers.selects s) madeOnly).of_exec_eq one

/-- A session over three products, of which a query skips one and takes two: the first element is the
second product, and there is no only one. Each call is noted once, with the name of its option. -/
theorem fetch_first_one_agree_page :
    let rows : List (List Datum) := [[.int 1], [.int 2], [.int 3]]
    let answer : Session → Statement → Except Error Answer := fun _ st => match st with
      | .select s => .ok (.rows (s.window rows))
      | .delete _ _ | .update _ _ _ => .error .external
    let notes : Statement → List (String × Value) → Description := fun _ options =>
      .execution .null (options.map fun x => (x.1, .null))
    let send : Sending := fun session st options => do
      note (notes st ((← get).mapping options))
      liftExcept (answer session st)
    let x : Executable := ⟨.typed, .session ⟨1, ⟨none, none, none⟩⟩, .context ⟨0⟩, ⟨0⟩, ⟨1⟩, .number 1,
      .number 2⟩
    let m : Machine := { Machine.initial ⟨false, false, false⟩ with
      next := 2
      contexts := [.ofKind (.query { SelectBody.empty with roots := [.mapped ⟨.product, none⟩] } [])]
      queries := [x]
      mappings := [[], [("stream_results", .bool true)]] }
    let q : QueryId := ⟨0⟩
    let sent : List Description := [.execution .null [("stream_results", .null)]]
    send.Behaves notes answer ∧ q.Searches m x ∧
      ∃ id i j, Serves (q.fetch send) m sent (.ok (.list id [.int i 2, .int j 3])) ∧
        Serves (q.first send) m sent (.ok (.int i 2)) ∧
        Serves (q.one send) m sent (.error (.signal .multipleResultsFound)) := by
  intro rows answer notes send x m q sent
  have behaves : send.Behaves notes answer := by
    refine ⟨fun session st options m => ?_⟩
    change exec (liftExcept (answer session st)) _ = _
    cases answer session st <;> rfl
  have search : q.Searches m x := by
    refine ⟨rfl, rfl, ⟨_, _, _, _, rfl, rfl, rfl⟩, .inr ⟨1, rfl, by decide⟩, .inr ⟨2, rfl, by decide⟩⟩
  have built : (x.statement m m.next).toBool = true := by decide +kernel
  obtain ⟨s, hs⟩ : ∃ s, x.statement m m.next = .ok (.select s) := by
    rcases Executable.search_statement search m.next with ⟨s, hs, -⟩ | ⟨e, he, -⟩
    · exact ⟨s, hs⟩
    · rw [he] at built
      cases built
  have answers : Answers (answer ⟨1, ⟨none, none, none⟩⟩) fun _ => rows :=
    ⟨fun _ => rfl, fun _ _ => by simp [rows]⟩
  obtain ⟨-, ready, -⟩ := fetch_first_one_agree behaves search
  obtain ⟨-, -, agree⟩ := ready _ s ⟨hs, rfl, rfl⟩
  obtain ⟨id, items, fetched, one, first⟩ := agree _ answers
  obtain ⟨i, j, rfl⟩ : ∃ i j, items = [.int i 2, .int j 3] := by
    have two : (exec (q.fetch send >>= itemsOf) m).1.toOption.map (·.map Value.bound?) =
        some [some (.number 2), some (.number 3)] := by decide +kernel
    obtain ⟨_, _, _, gave⟩ := fetched
    rw [exec_bind_of_ok gave] at two
    have given : items.map Value.bound? = [some (.number 2), some (.number 3)] := Option.some.inj two
    have number {v : Value} {n : Int} (h : v.bound? = some (.number n)) : ∃ i, v = .int i n := by
      cases v <;> cases h
      exact ⟨_, rfl⟩
    obtain ⟨v, _, rfl, hv, given⟩ := List.map_eq_cons_iff.mp given
    obtain ⟨w, _, rfl, hw, given⟩ := List.map_eq_cons_iff.mp given
    obtain rfl := List.map_eq_nil_iff.mp given
    obtain ⟨i, rfl⟩ := number hv
    obtain ⟨j, rfl⟩ := number hw
    exact ⟨i, j, rfl⟩
  have nonzero : x.maxResults.isZero = false := by decide +kernel
  rw [nonzero] at first
  exact ⟨behaves, search, id, i, j, fetched, first, one⟩

end FluentQuery
