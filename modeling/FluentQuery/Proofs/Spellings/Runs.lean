import FluentQuery.Proofs.NullPredicates
import FluentQuery.Proofs.Spellings.Chains
import FluentQuery.Proofs.Structure

/-! What a build makes of its configuration: what is done with the selection inside the frame, and what
is done with the query behind it. Whatever two streams have in common but for their configurations,
their builds differ in nothing else. -/

namespace FluentQuery

open Sql

/-! ### Phases of a build -/

/-- Makes a query ready to run of a query context, with the parameters, options and row bounds of the
stream. -/
def Stream.issue (s : Stream) (t : QueryType) (context : Value) : Run Value := do
  let q ← t.createQuery s.session context
  let x ← q.read
  x.params.update s.params
  x.options.update s.options
  q.write { x with
    firstResult := if s.firstResult.isSet then s.firstResult else x.firstResult
    maxResults := if s.maxResults.isSet then s.maxResults else x.maxResults }
  s.logCompiled q
  return .query q

namespace Terminal

/-- Tells the query of a build the selection that was configured. -/
def settle (s : Stream) (c : ContextId) (w : Value) : Terminal → Run Unit
  | criteria | query =>
    match s.queryType with
    | .queryType t => discard (t.select (.context c) w)
    | _ => fail .external
  | subquery | existence => c.update (·.select w)

/-- What a build makes of its query when that was left. -/
def deliver (s : Stream) (c : ContextId) : Terminal → Run Value
  | criteria => do
    logLine (s.report (.context c))
    return .context c
  | query => do
    logLine (s.report (.context c))
    match s.queryType with
    | .queryType t => s.issue t (.context c)
    | _ => fail .external
  | subquery => c.scalar
  | existence => c.existence

end Terminal

section Phases

variable {call : Call} {s t : Stream} {T : Terminal} {m n : Machine} {o : Opening}

theorem QueryType.select_returns {ty : QueryType} {c : ContextId} {v w : Value}
    (h : exec (ty.select (.context c) w) m = (.ok v, n)) : v = .context c := by
  cases hp : ty.purpose with
  | search => exact (QueryType.exec_select hp h).1
  | delete | update =>
    unfold QueryType.select at h
    rw [hp] at h
    exact (exec_pure_eq_ok.mp h).1.symm

/-- What computations do that do the same goes on in the same way. -/
theorem exec_bind_congr {α β : Type} {x y : Run α} (h : exec x m = exec y n) (k : α → Run β) :
    exec (x >>= k) m = exec (y >>= k) n := by
  rw [exec_bind, exec_bind, h]

theorem exec_withFrame_of_null {α : Type} {builder : Value} (null : builder.isNull) (c : ContextId)
    (body : Frame → Run α) (m : Machine) :
    exec (withFrame builder (.context c) body) m = (.error (.null "builder"), m) := by
  rw [withFrame_of_null null]
  rfl

/-- Bodies that do the same in a frame, do the same with it. -/
theorem exec_withFrame_congr {α : Type} {builder : Value} {c : ContextId} {x y : Run α}
    (hb : builder.isNull = false)
    (h : exec x (m.entered builder (.context c)) = exec y (m.entered builder (.context c))) :
    exec (withFrame builder (.context c) fun _ => x) m =
      exec (withFrame builder (.context c) fun _ => y) m := by
  rw [exec_withFrame hb, exec_withFrame hb, h]

/-- What a frame gives need not be looked at if it can be nothing but its query. -/
theorem exec_withFrame_returns {β : Type} {builder : Value} {c : ContextId} {x : Run Value}
    (hb : builder.isNull = false)
    (returns : ∀ ⦃m v n⦄, exec x m = (.ok v, n) → v = .context c) (k : Value → Run β) :
    exec (do k (← withFrame builder (.context c) fun _ => x)) m =
      exec (do
        withFrame builder (.context c) fun _ => discard x
        k (.context c)) m := by
  have frames {α : Type} (body : Run α) := exec_withFrame hb c (fun _ => body) m
  rw [exec_bind, exec_bind, frames, frames]
  have mapped : discard x = x >>= fun _ => pure PUnit.unit := by
    rw [show discard x = (fun _ => PUnit.unit) <$> x from rfl, map_eq_pure_bind]
  rcases hx : exec x (m.entered builder (.context c)) with ⟨e | v, n⟩
  · rw [mapped, exec_bind_of_error hx]
  · obtain rfl := returns hx
    rw [mapped, exec_bind_of_ok hx]
    rfl

namespace Terminal

/-- A build that can begin configures its query in a frame of its own, settles it there, and delivers
it. -/
theorem exec_run_eq (ho : T.opening s m = .ok o) :
    exec (T.run call s) m = exec (do
      withFrame o.builder m.nextQuery fun _ => do
        T.settle s m.nextContext (← configure call s.configurer o.builder m.nextQuery)
      T.deliver s m.nextContext) o.machine := by
  have context {t : QueryType} {k : Value → Run Value} (ht : s.queryType = .queryType t)
      (ho : Terminal.criteria.opening s m = .ok o) :
      exec (do k (← s.toContext call)) m = exec (do
        withFrame o.builder m.nextQuery fun _ => do
          Terminal.criteria.settle s m.nextContext
            (← configure call s.configurer o.builder m.nextQuery)
        logLine (s.report m.nextQuery)
        k m.nextQuery) o.machine := by
    obtain ⟨t', ht', rfl⟩ := Terminal.exists_queryType ho
    obtain rfl := Value.queryType.inj (ht.symm.trans ht')
    let configured := configure call s.configurer (.criteriaBuilder m.next) m.nextQuery
    have returns ⦃n v n'⦄ (h : exec (do t.select m.nextQuery (← configured)) n = (.ok v, n')) :
        v = m.nextQuery := by
      obtain ⟨w, n₁, -, h⟩ := exec_bind_eq_ok.mp h
      exact QueryType.select_returns h
    have settles : (discard do t.select m.nextQuery (← configured)) =
        (do Terminal.criteria.settle s m.nextContext (← configured)) := by
      simp only [settle, ht]
      exact map_bind (fun _ => PUnit.unit) configured (t.select m.nextQuery)
    rw [exec_bind_congr (Stream.exec_toContext_eq ht) k, bind_assoc]
    simp only [bind_assoc, pure_bind]
    rw [← settles]
    exact exec_withFrame_returns rfl returns _
  have subquery {k : ContextId → Run Value} (ho : Terminal.subquery.opening s m = .ok o) :
      exec (do k (← s.toSubquery call)) m = exec (do
        withFrame o.builder m.nextQuery fun _ => do
          m.nextContext.update (·.select (← configure call s.configurer o.builder m.nextQuery))
        k m.nextContext) o.machine := by
    obtain ⟨f, rest, stack, -, rfl⟩ := Terminal.exists_frame ho
    unfold Stream.toSubquery
    simp only [bind_assoc, pure_bind]
    exact (exec_bind_of_ok (Stream.exec_currentFrame stack) _).trans
      (exec_bind_of_ok (ContextId.exec_new _ m) _)
  cases T with
  | criteria =>
    obtain ⟨t, ht, -⟩ := exists_queryType ho
    have := context (k := pure) ht ho
    rw [bind_pure] at this
    exact this
  | query =>
    obtain ⟨t, ht, -⟩ := exists_queryType (s := s) (m := m) ho
    have := context (k := s.issue t) ht ho
    simp only [run, Stream.toQuery, deliver, ht]
    exact this
  | subquery => exact subquery ho
  | existence => exact subquery ho

/-- What a build does in its frame. -/
abbrev settled (T : Terminal) (call : Call) (s : Stream) (m : Machine) (o : Opening) : Run Unit := do
  T.settle s m.nextContext (← configure call s.configurer o.builder m.nextQuery)

theorem exec_frame_eq (ho : T.opening s m = .ok o) {r : Except Error Unit}
    (h : exec (T.settled call s m o) (o.inside m) = (r, n)) :
    exec (withFrame o.builder m.nextQuery fun _ => T.settled call s m o) o.machine =
      (r, n.left o.machine m.nextContext) :=
  (exec_withFrame (opening_spec ho).1 m.nextContext _ o.machine).trans
    (congrArg (fun r : Except Error Unit × Machine => (r.1, r.2.left o.machine m.nextContext)) h)

/-- A build whose query is settled delivers it. -/
theorem exec_run_of_settled (ho : T.opening s m = .ok o) {u : Unit}
    (h : exec (T.settled call s m o) (o.inside m) = (.ok u, n)) :
    exec (T.run call s) m =
      exec (T.deliver s m.nextContext) (n.left o.machine m.nextContext) := by
  rw [exec_run_eq ho]
  exact exec_bind_of_ok (exec_frame_eq ho h) _

/-- A build fails as what it does in its frame. -/
theorem exec_run_of_unsettled (ho : T.opening s m = .ok o) {e : Error}
    (h : exec (T.settled call s m o) (o.inside m) = (.error e, n)) :
    exec (T.run call s) m = (.error e, n.left o.machine m.nextContext) := by
  rw [exec_run_eq ho]
  exact exec_bind_of_error (exec_frame_eq ho h) _

/-- A build whose configuration fails, fails like it and does nothing more. -/
theorem exec_run_of_failed (ho : T.opening s m = .ok o) {e : Error}
    (failed : exec (configure call s.configurer o.builder m.nextQuery) (o.inside m) = (.error e, n)) :
    exec (T.run call s) m = (.error e, n.left o.machine m.nextContext) :=
  exec_run_of_unsettled ho (exec_bind_of_error failed _)

end Terminal

/-! ### Streams that differ in their configuration -/

namespace Stream.Twin

variable (twin : s.Twin t)

include twin

theorem queryType : t.queryType = s.queryType := by
  obtain ⟨id, configurer, rfl⟩ := twin
  rfl

theorem opening (T : Terminal) (m : Machine) : T.opening t m = T.opening s m := by
  cases T <;> simp only [Terminal.opening, twin.queryType]

theorem settle (T : Terminal) (c : ContextId) (w : Value) : T.settle t c w = T.settle s c w := by
  cases T <;> simp only [Terminal.settle, twin.queryType]

theorem issue : t.issue = s.issue := by
  have compiled := twin.logCompiled
  obtain ⟨id, configurer, rfl⟩ := twin
  funext ty context
  simp only [Stream.issue, compiled]

theorem deliver (T : Terminal) (c : ContextId) : T.deliver t c = T.deliver s c := by
  cases T <;> simp only [Terminal.deliver, twin.report, twin.queryType, twin.issue]

/-- A build that cannot begin does not look at the configuration. -/
theorem exec_run_of_error {e : Error} (ho : T.opening s m = .error e) :
    exec (T.run call t) m = exec (T.run call s) m := by
  have refused (ho : Terminal.subquery.opening s m = .error e) (k : ContextId → Run Value) :
      exec (do k (← t.toSubquery call)) m = exec (do k (← s.toSubquery call)) m := by
    unfold toSubquery
    simp only [bind_assoc]
    obtain ⟨stack, rfl⟩ | ⟨f, rest, stack, null, rfl⟩ := Terminal.opening_refused ho
    · have frameless := exec_currentFrame_of_nil stack
      rw [exec_bind_of_error frameless, exec_bind_of_error frameless]
    · rw [exec_bind_of_ok (exec_currentFrame stack), exec_bind_of_ok (exec_currentFrame stack),
        exec_bind_of_ok (ContextId.exec_new _ m), exec_bind_of_ok (ContextId.exec_new _ m),
        exec_bind_of_error (exec_withFrame_of_null null _ _ _),
        exec_bind_of_error (exec_withFrame_of_null null _ _ _)]
  cases T with
  | criteria | query =>
    cases hs : s.queryType with
    | queryType ty => exact absurd ho (by simp [Terminal.opening, hs])
    | _ => simp only [Terminal.run, toContext, toQuery, twin.queryType, hs]
  | subquery => exact refused ho _
  | existence => exact refused ho _

/-- Builds differ in nothing if the configurations do the same. -/
theorem exec_run_congr
    (same : ∀ o, T.opening s m = .ok o →
      exec (configure call t.configurer o.builder m.nextQuery) (o.inside m) =
        exec (configure call s.configurer o.builder m.nextQuery) (o.inside m)) :
    exec (T.run call t) m = exec (T.run call s) m := by
  rcases ho : T.opening s m with e | o
  · exact twin.exec_run_of_error ho
  · rw [Terminal.exec_run_eq ((twin.opening T m).trans ho), Terminal.exec_run_eq ho, twin.deliver]
    simp only [twin.settle]
    exact exec_bind_congr (exec_withFrame_congr (Terminal.opening_spec ho).1
      (exec_bind_congr (same o ho) _)) _

end Stream.Twin

/-! ### Operations for one another -/

/-- An operation that sets no bounds, parameters or options of a query. -/
structure StreamOp.IsStructural (op : StreamOp) : Prop where
  skip : op.skip? = none
  limit : op.limit? = none
  params : op.params = []
  options : op.options = []

theorem Place.isStructural (p : Place) (v : Value) : (p.op v).IsStructural := by
  cases p <;> exact ⟨rfl, rfl, rfl, rfl⟩

/-- The configuration of the stream, run for a build that opens with `o`, comes to the selection `x` on
the machine `n`. -/
structure Stream.Reaches (call : Call) (s : Stream) (T : Terminal) (m : Machine) (o : Opening)
    (x : Value) (n : Machine) : Prop where
  opened : T.opening s m = .ok o
  configured : exec (configure call s.configurer o.builder m.nextQuery) (o.inside m) = (.ok x, n)

namespace Stream

variable {u : Stream} {op op' : StreamOp} {ops : List StreamOp} {x : Value}

section Reaches

variable (hc : ∀ f args, Keeps Lasting (call f args)) (reached : u.Reaches call T m o x n)

include hc reached

theorem Reaches.lasting : Lasting (o.inside m) n :=
  (configure_keeps hc _ _ _).of_exec reached.configured

/-- The query of a build is still there. -/
theorem Reaches.exists_context : ∃ y, n.context? m.nextContext = some y :=
  Terminal.exists_context_of_lasting reached.opened (reached.lasting hc)

/-- A nested build is inside its subquery. -/
theorem Reaches.exists_subquery (hT : T.nests) :
    ∃ y, n.context? m.nextContext = some y ∧ y.isSubquery := by
  obtain ⟨parent, created⟩ := Terminal.opening_nests hT reached.opened
  exact Machine.exists_subquery_of_created? (reached.lasting hc _ _ created)

end Reaches

theorem Chained.twin_of_first (plain : op.IsStructural) (plain' : op'.IsStructural)
    (chain : u.Chained (op :: ops) s) (other : u.Chained (op' :: ops) t) : s.Twin t := by
  refine chain.twin other ?_ ?_ ?_ ?_
  · simp only [StreamOp.skips, List.filterMap_cons, plain.skip, plain'.skip]
  · simp only [StreamOp.limits, List.filterMap_cons, plain.limit, plain'.limit]
  · rw [List.flatMap_cons, List.flatMap_cons, plain.params, plain'.params]
  · rw [List.flatMap_cons, List.flatMap_cons, plain.options, plain'.options]

/-- A chain configures what it started from, takes its first step, and goes on. -/
theorem Chained.configure_eq {step : Step} (chain : u.Chained (op :: ops) t)
    (hstep : op.step? u.queryType = some step) (builder query : Value) :
    configure call t.configurer builder query = (do
      let x ← configure call u.configurer builder query
      let y ← step.apply call builder query x
      Step.applyAll call builder query y (StreamOp.steps u.queryType ops)) := by
  rw [chain.continues.runs, StreamOp.steps, List.filterMap_cons_some hstep]
  rfl

theorem Chained.opening (chain : u.Chained ops t) (T : Terminal) (m : Machine) :
    T.opening t m = T.opening u m := by
  cases T <;> simp only [Terminal.opening, chain.continues.queryType]

/-- Chains that begin with one operation or the other are built alike if their steps do the same where
the chain comes to them. -/
theorem Chained.exec_run_congr {step step' : Step} (plain : op.IsStructural)
    (plain' : op'.IsStructural) (hstep : op.step? u.queryType = some step)
    (hstep' : op'.step? u.queryType = some step')
    (same : ∀ o x n, u.Reaches call T m o x n →
      exec (step'.apply call o.builder m.nextQuery x) n =
        exec (step.apply call o.builder m.nextQuery x) n)
    (chain : u.Chained (op :: ops) s) (other : u.Chained (op' :: ops) t) :
    exec (T.run call t) m = exec (T.run call s) m := by
  refine (chain.twin_of_first plain plain' other).exec_run_congr fun o ho => ?_
  have opened : T.opening u m = .ok o := (chain.opening T m).symm.trans ho
  rw [chain.configure_eq hstep, other.configure_eq hstep']
  rcases hu : exec (configure call u.configurer o.builder m.nextQuery) (o.inside m) with ⟨e | x, n⟩
  · rw [exec_bind_of_error hu, exec_bind_of_error hu]
  · rw [exec_bind_of_ok hu, exec_bind_of_ok hu]
    exact exec_bind_congr (same o x n ⟨opened, hu⟩) _

/-- Builds of such chains come to their first steps, or fail before and alike. -/
theorem Chained.exists_reaches_or_failed {step step' : Step} (plain : op.IsStructural)
    (plain' : op'.IsStructural) (hstep : op.step? u.queryType = some step)
    (hstep' : op'.step? u.queryType = some step') (chain : u.Chained (op :: ops) s)
    (other : u.Chained (op' :: ops) t) (call : Call) (T : Terminal) (m : Machine) :
    (∃ o x n, u.Reaches call T m o x n) ∨
      ∃ e n, exec (T.run call s) m = (.error e, n) ∧ exec (T.run call t) m = (.error e, n) := by
  by_cases reached : ∃ o x n, u.Reaches call T m o x n
  · exact .inl reached
  have same : exec (T.run call t) m = exec (T.run call s) m :=
    exec_run_congr plain plain' hstep hstep' (fun o x n h => absurd ⟨o, x, n, h⟩ reached) chain other
  have failed : ∃ e n, exec (T.run call s) m = (.error e, n) := by
    rcases ho : T.opening s m with e | o
    · obtain ⟨n, makes⟩ := T.run_makes_of_error call ho
      exact ⟨e, n, makes.exec_eq⟩
    rcases hu : exec (configure call u.configurer o.builder m.nextQuery) (o.inside m) with ⟨e | x, n⟩
    · have failed : exec (configure call s.configurer o.builder m.nextQuery) (o.inside m) =
          (.error e, n) := by
        rw [chain.configure_eq hstep]
        exact exec_bind_of_error hu _
      exact ⟨e, _, Terminal.exec_run_of_failed ho failed⟩
    · exact absurd ⟨o, x, n, (chain.opening T m).symm.trans ho, hu⟩ reached
  obtain ⟨e, n, failed⟩ := failed
  exact .inr ⟨e, n, failed, same.trans failed⟩

/-- A chain fails where its first step fails. -/
theorem Chained.exec_run_of_failed {step : Step} {n' : Machine} {e : Error}
    (hstep : op.step? u.queryType = some step) (reached : u.Reaches call T m o x n)
    (failed : exec (step.apply call o.builder m.nextQuery x) n = (.error e, n'))
    (chain : u.Chained (op :: ops) t) :
    exec (T.run call t) m = (.error e, n'.left o.machine m.nextContext) := by
  refine Terminal.exec_run_of_failed ((chain.opening T m).trans reached.opened) ?_
  rw [chain.configure_eq hstep, exec_bind_of_ok reached.configured]
  exact exec_bind_of_error failed _

/-- From `u`, chains that begin with one operation or the other are accepted together, and what they
lead to is built alike on `m`. -/
structure Interchangeable (call : Call) (T : Terminal) (m : Machine) (u : Stream)
    (op op' : StreamOp) : Prop where
  accepted : ∀ ops, (∃ t, u.Chained (op :: ops) t) ↔ ∃ t, u.Chained (op' :: ops) t
  run : ∀ ops t t', u.Chained (op :: ops) t → u.Chained (op' :: ops) t' →
    exec (T.run call t') m = exec (T.run call t) m

end Stream

end Phases

end FluentQuery
