import FluentQuery.Proofs.Bulk
import FluentQuery.Proofs.Filters.Joining
import FluentQuery.Proofs.Filters.Reading
import FluentQuery.Proofs.Filters.Steps
import FluentQuery.Proofs.Meaning

/-! The filters of a chain. Whatever else a build does, each filter joins its predicate to the
restriction that is there, so the WHERE clause reads as the conjunction of the restriction
that the build began with and of all predicates. -/

namespace FluentQuery

open Sql

/-! ### Builds -/

/-- The statements that what a build gives stands for: that of a query context or of an executable
query, or the sub-select of an expression. -/
inductive Value.StandsFor (m : Machine) : Value → Statement → Prop
  | context {c x st} : m.context? c = some x → x.statement m = .ok st →
      StandsFor m (.context c) st
  | query {q x next st} : m.query? q = some x → x.statement m next = .ok st →
      StandsFor m (.query q) st
  | scalar {id s} : StandsFor m (.term id (.scalar s)) (.select s)
  | existence {id s} : StandsFor m (.term id (.nonempty s)) (.select s)

/-- What a build of a configured query gives: its statements select by the restriction and the joins
of the query at `c`. -/
def Value.SelectsBy (c : ContextId) (m : Machine) (v : Value) : Prop :=
  ∀ x, m.context? c = some x → ∀ st, v.StandsFor m st →
    ∃ own, x.restriction.conditions = .ok own ∧ st.conditions = own ++ x.kind.joinConditions

section Builds

variable {call : Call} {s : Stream} {m m' : Machine} {v : Value}

theorem Executable.withBounds_conditions {q : Executable} {next : Nat} {st st' : Statement}
    (h : q.withBounds next st = .ok st') : st'.conditions = st.conditions := by
  unfold withBounds at h
  split at h
  · rw [Except.ok.inj h]
  · split at h
    · obtain ⟨offset, -, h⟩ := Except.bind_eq_ok.mp h
      obtain ⟨limit, -, h⟩ := Except.bind_eq_ok.mp h
      obtain rfl := Except.ok.inj h
      rfl
    · cases h

/-- An executable query selects by the conditions of its criteria. -/
theorem Executable.statement_conditions {q : Executable} {next : Nat} {x : Context}
    {st : Statement} (hx : q.criteria? m = some x) (h : q.statement m next = .ok st) :
    ∃ own, x.restriction.conditions = .ok own ∧ st.conditions = own ++ x.kind.joinConditions := by
  obtain ⟨c, hq, hc⟩ := criteria?_eq_some.mp hx
  unfold statement statementTo at h
  simp only [hq, hc, Option.elim] at h
  split at h
  · cases h
  · obtain ⟨y, hy, h⟩ := Except.bind_eq_ok.mp h
    obtain rfl := Except.ok.inj hy
    obtain ⟨bare, hbare, h⟩ := Except.bind_eq_ok.mp h
    obtain ⟨supplied, hsupplied, h⟩ := Except.bind_eq_ok.mp h
    obtain ⟨own, hown, conditions⟩ := Context.statement_conditions hbare
    refine ⟨own, hown, ?_⟩
    rw [← conditions, ← withParams_conditions hsupplied]
    split at h
    · exact withBounds_conditions h
    · rw [Except.ok.inj h]

theorem Context.nested_conditions {x : Context} {sel : Select} (h : x.nested m = .ok sel) :
    ∃ own, x.restriction.conditions = .ok own ∧ sel.conditions = own ++ x.kind.joinConditions := by
  have stated : x.statement m = .ok (.select sel) := by
    cases hk : x.kind with
    | subquery b parent roots conditions => simp [Context.statement, hk, h, Except.map]
    | _ => simp [Context.nested, hk] at h
  exact Context.statement_conditions stated

theorem Value.selectsBy_context (c : ContextId) (m : Machine) :
    (Value.context c).SelectsBy c m := by
  intro x hx st h
  cases h with
  | context hy hst =>
    obtain rfl := Option.some.inj (hx.symm.trans hy)
    exact Context.statement_conditions hst

theorem Value.selectsBy_query {q : QueryId} {x : Executable} {c : ContextId}
    (hx : m.query? q = some x) (hc : x.query = .context c) : (Value.query q).SelectsBy c m := by
  intro y hy st h
  cases h with
  | query hx' hst =>
    obtain rfl := Option.some.inj (hx.symm.trans hx')
    exact Executable.statement_conditions (Executable.criteria?_eq_some.mpr ⟨c, hc, hy⟩) hst

/-- The sub-select of a context, as one of the two expressions that contain it. -/
theorem exec_nested {c : ContextId} {expression : Select → Term}
    (he : ∀ id sel st n, Value.StandsFor n (.term id (expression sel)) st → st = .select sel)
    (h : exec (do newTerm (expression (← liftExcept ((← c.read).nested (← get))))) m =
      (.ok v, m')) :
    v.SelectsBy c m' ∧ ∀ d, SameRestriction d m m' := by
  rcases hx : m.context? c with _ | x
  · rw [exec_bind, exec_readContext, hx] at h
    cases h
  rw [exec_bind_of_ok (exec_readContext_of_some hx), exec_bind_of_ok (exec_get m)] at h
  obtain ⟨sel, m₁, lifted, h⟩ := exec_bind_eq_ok.mp h
  obtain ⟨hsel, rfl⟩ := exec_liftExcept_eq_ok.mp lifted
  obtain ⟨id, m₂, made, h⟩ := exec_bind_eq_ok.mp h
  obtain ⟨rfl, rfl⟩ := exec_pure_eq_ok.mp h
  obtain ⟨-, rfl⟩ := Prod.mk.inj made
  refine ⟨fun y hy st hst => ?_, fun d => .of_contexts rfl⟩
  obtain rfl := he _ _ _ _ hst
  obtain rfl := Option.some.inj (hx.symm.trans hy)
  exact Context.nested_conditions hsel

/-- A frame is left with the restrictions that its body left. -/
theorem exec_withFrame_eq_ok {α : Type} {builder : Value} (hb : builder.isNull = false)
    {c : ContextId} {body : Frame → Run α} {a : α}
    (h : exec (withFrame builder (.context c) body) m = (.ok a, m')) :
    ∃ m₁, exec (body ⟨m.next, builder, .context c⟩) (m.entered builder (.context c)) =
      (.ok a, m₁) ∧ ∀ d, SameRestriction d m₁ m' := by
  rw [exec_withFrame hb] at h
  obtain ⟨inside, rfl⟩ := Prod.mk.inj h
  exact ⟨_, Prod.ext inside rfl, fun d => .of_contexts (Machine.contexts_logged _ _)⟩

/-- A build that returns configured its query. From there on to its end restrictions stay, and what
it gives selects by the query that was configured. -/
def Terminal.Configured (T : Terminal) (call : Call) (s : Stream) (m : Machine) (v : Value)
    (m' : Machine) : Prop :=
  ∃ o w m₁, T.opening s m = .ok o ∧
    exec (configure call s.configurer o.builder m.nextQuery) (o.inside m) = (.ok w, m₁) ∧
    SameRestriction m.nextContext m₁ m' ∧ v.SelectsBy m.nextContext m'

theorem Stream.toContext_configured (h : exec (s.toContext call) m = (.ok v, m')) :
    v = m.nextQuery ∧ Terminal.criteria.Configured call s m v m' := by
  cases ht : s.queryType with
  | queryType t =>
    obtain ⟨w, m₁, m₂, hw, hs, logged⟩ := exec_toContext_phases ht h
    have selected : SameRestriction m.nextContext m₁ m₂ :=
      (QueryType.select_same t _ w).of_exec hs
    have left : SameRestriction m.nextContext m₂ m' := by
      refine Inert.trans (.of_contexts ?_) logged
      rw [Machine.contexts_logged]
    have result : v = m.nextQuery := by
      unfold QueryType.select at hs
      split at hs
      · exact (exec_pure_eq_ok.mp hs).1.symm
      · exact (exec_pure_eq_ok.mp hs).1.symm
      · obtain ⟨x, n, -, hs⟩ := exec_bind_eq_ok.mp hs
        obtain ⟨-, n', -, hs⟩ := exec_bind_eq_ok.mp (exec_guarded_eq_ok.mp hs).2
        exact (exec_pure_eq_ok.mp hs).1.symm
    refine ⟨result, ⟨.criteriaBuilder m.next, after t.createContext { m with next := m.next + 1 }⟩,
      w, m₁, ?_, hw, Inert.trans selected left, ?_⟩
    · simp [Terminal.opening, ht]
    · rw [result]
      exact Value.selectsBy_context _ _
  | _ => simp [toContext, ht] at h

theorem Stream.toQuery_configured (h : exec (s.toQuery call) m = (.ok v, m')) :
    Terminal.query.Configured call s m v m' := by
  cases ht : s.queryType with
  | queryType t =>
    obtain ⟨u, m₂, q, x, hu, rfl, hx, -, rfl, -, -, contexts⟩ := exec_toQuery ht h
    obtain ⟨result, o, w, m₁, ho, hw, same, -⟩ := toContext_configured hu
    exact ⟨o, w, m₁, ho, hw, Inert.trans same (.of_contexts contexts),
      Value.selectsBy_query hx result⟩
  | _ => simp [toQuery, ht] at h

theorem Stream.toSubquery_configured {c : ContextId}
    (h : exec (s.toSubquery call) m = (.ok c, m')) :
    c = m.nextContext ∧ ∃ o w m₁, Terminal.subquery.opening s m = .ok o ∧
      exec (configure call s.configurer o.builder m.nextQuery) (o.inside m) = (.ok w, m₁) ∧
      SameRestriction m.nextContext m₁ m' := by
  rcases ho : Terminal.subquery.opening s m with e | o
  · have refuses : ∃ n, Makes Silent call (fun k => s.toSubquery k) m [] (.error e) n :=
      toSubquery_makes_of_error ho
    obtain ⟨n, refused⟩ := refuses
    cases (Prod.mk.inj (refused.exec_eq.symm.trans h)).1
  obtain ⟨f, rest, stack, builder, rfl⟩ := Terminal.exists_frame ho
  unfold toSubquery at h
  rw [exec_bind_of_ok (exec_currentFrame stack), exec_bind_of_ok (ContextId.exec_new _ m)] at h
  obtain ⟨_, m₂, framed, h⟩ := exec_bind_eq_ok.mp h
  obtain ⟨rfl, rfl⟩ := exec_pure_eq_ok.mp h
  obtain ⟨m₁', inside, left⟩ := exec_withFrame_eq_ok builder framed
  obtain ⟨w, m₁, hw, selected⟩ := exec_bind_eq_ok.mp inside
  have same : SameRestriction m.nextContext m₁ m₁' :=
    (SameRestriction.update Context.restriction_select).of_exec selected
  exact ⟨rfl, _, w, m₁, rfl, hw, Inert.trans same (left _)⟩

/-- Every build that returns is the build of a configured query. -/
theorem Terminal.run_configured (T : Terminal) (h : exec (T.run call s) m = (.ok v, m')) :
    T.Configured call s m v m' := by
  have nested {expression : Select → Term}
      (he : ∀ id sel st n, Value.StandsFor n (.term id (expression sel)) st → st = .select sel)
      (h : exec (do
        let c ← s.toSubquery call
        newTerm (expression (← liftExcept ((← c.read).nested (← get))))) m = (.ok v, m')) :
      Terminal.subquery.Configured call s m v m' := by
    obtain ⟨c, m₂, built, h⟩ := exec_bind_eq_ok.mp h
    obtain ⟨rfl, o, w, m₁, ho, hw, same⟩ := Stream.toSubquery_configured built
    obtain ⟨selects, still⟩ := exec_nested he h
    exact ⟨o, w, m₁, ho, hw, Inert.trans same (still _), selects⟩
  cases T with
  | criteria => exact (Stream.toContext_configured h).2
  | query => exact Stream.toQuery_configured h
  | subquery =>
    refine nested (fun id sel st n stands => ?_) h
    cases stands
    rfl
  | existence =>
    refine nested (fun id sel st n stands => ?_) h
    cases stands
    rfl

/-- Outside subqueries there are no joins from correlated roots. -/
theorem Terminal.joinConditions_eq_nil {T : Terminal} (hT : T = .criteria ∨ T = .query)
    {o : Opening} (ho : T.opening s m = .ok o) (lasts : Lasting o.machine m') {x : Context}
    (hx : m'.context? m.nextContext = some x) : x.kind.joinConditions = [] := by
  have opened : Terminal.criteria.opening s m = .ok o := by
    rcases hT with rfl | rfl <;> exact ho
  obtain ⟨t, -, rfl⟩ := Terminal.exists_queryType opened
  have created (k : Context) (hk : k.created = k) :
      (after (ContextId.new k) { m with next := m.next + 1 }).created? m.nextContext = some k := by
    have last : (after (ContextId.new k) { m with next := m.next + 1 }).context? m.nextContext =
        some k := List.getElem?_concat_length
    rw [Machine.created?, last, Option.map_some, hk]
  obtain ⟨k, hk, plain, made⟩ : ∃ k, k.created = k ∧ k.isSubquery = false ∧
      t.createContext = ContextId.new k := by
    unfold QueryType.createContext
    cases t.purpose
    · exact ⟨_, rfl, rfl, rfl⟩
    · exact ⟨_, rfl, rfl, rfl⟩
    · exact ⟨_, rfl, rfl, rfl⟩
  have last := lasts m.nextContext k (made ▸ created k hk)
  rw [Machine.created?, hx, Option.map_some] at last
  have same := Option.some.inj last
  obtain ⟨restriction, kind⟩ := x
  cases kind with
  | subquery b parent roots conditions =>
    rw [← same] at plain
    cases plain
  | _ => rfl

end Builds

/-! ### Chains -/

/-- A statement that selects by a restriction to which conditions were joined selects by all of them,
and by what the restriction was. -/
theorem Conjoined.selectsWhere {base r : Value} {es : List Value} {own joins : List Term}
    {st : Statement} (h : Conjoined base es r) (hown : r.conditions = .ok own)
    (conditions : st.conditions = own ++ joins) :
    ∃ old new, base.conditions = .ok old ∧ es.mapM Value.condition = .ok new ∧
      st.SelectsWhere (old ++ new.map (·.term) ++ joins) := by
  obtain ⟨old, new, hold, hnew, value, complete, none⟩ := h.conjunction hown
  refine ⟨old, new, hold, hnew, Statement.selectsWhere_of_conditions (fun a => ?_) (fun all => ?_)
    fun empty => ?_⟩
  · rw [conditions, Term.conjunction_append, value, ← Term.conjunction_append]
  · rw [conditions]
    intro t ht
    rcases List.mem_append.mp ht with ht | ht
    · exact complete (fun t ht => all t (List.mem_append_left _ ht)) t ht
    · exact all t (List.mem_append_right _ ht)
  · obtain ⟨ownEmpty, joinsEmpty⟩ := List.append_eq_nil_iff.mp (conditions.symm.trans empty)
    rw [none ownEmpty, joinsEmpty, List.append_nil]

/-- The statements of what is built select by the restriction that stood before these last steps, by
what their filters joined to it, and by the conditions of joins from correlated roots. -/
theorem Terminal.run_selectsWhere {depth : Nat} {T : Terminal} {t : Stream} {o : Opening} {w v : Value}
    {steps : List Step} {m m₁ m' : Machine} {x : Context} {base : Value} {st : Statement}
    (ho : T.opening t m = .ok o)
    (split : exec (configure (callAny (eval depth)) t.configurer o.builder m.nextQuery) (o.inside m) =
      exec (Step.applyAll (callAny (eval depth)) o.builder m.nextQuery w steps) m₁)
    (based : m₁.restriction? m.nextContext = some base)
    (leave : LeaveRestriction (callAny (eval depth)) o.builder m.nextContext w steps m₁)
    (built : exec (T.run (callAny (eval depth)) t) m = (.ok v, m'))
    (hx : m'.context? m.nextContext = some x) (stands : v.StandsFor m' st) :
    ∃ old new, base.conditions = .ok old ∧
      (Step.predicates (callAny (eval depth)) o.builder m.nextQuery w steps m₁).mapM Value.condition =
        .ok new ∧
      st.SelectsWhere (old ++ new.map (·.term) ++ x.kind.joinConditions) := by
  obtain ⟨o', u, m₂, ho', ran, same, selects⟩ := T.run_configured built
  obtain rfl := Except.ok.inj (ho.symm.trans ho')
  obtain ⟨r, hr, conjoined⟩ := Step.applyAll_conjoins based leave (split.symm.trans ran)
  have last := same r hr
  rw [Machine.restriction?, hx] at last
  obtain rfl := Option.some.inj last
  obtain ⟨own, hown, conditions⟩ := selects x hx st stands
  exact conjoined.selectsWhere hown conditions

/-- A build of a chain starts from the restriction that the stream the chain began with places, and
each filter, in order, joins what its predicate gives to it; nothing else restricts the query,
unless a callable does. So each statement of what is built has a WHERE clause with the value, under
every assignment of truth values to the atomic conditions, of the conjunction of that restriction,
the predicates and, in a subquery, the conditions of joins from correlated roots. Its text reads as
this conjunction: no condition is taken by a connective of the one beside it. -/
theorem filters_conjoin {depth : Nat} {T : Terminal} {s t : Stream} {ops : List StreamOp}
    {m m' : Machine} {v : Value} (chain : s.Chained ops t)
    (built : exec (T.run (callAny (eval depth)) t) m = (.ok v, m')) :
    let call := callAny (eval depth)
    let steps := StreamOp.steps s.queryType ops
    ∃ o w m₁ base x, T.opening t m = .ok o ∧
      exec (configure call s.configurer o.builder m.nextQuery) (o.inside m) = (.ok w, m₁) ∧
      m₁.restriction? m.nextContext = some base ∧ m'.context? m.nextContext = some x ∧
      (T = .criteria ∨ T = .query → x.kind.joinConditions = []) ∧
      (LeaveRestriction call o.builder m.nextContext w steps m₁ →
        ∀ st, v.StandsFor m' st → ∃ old new, base.conditions = .ok old ∧
          (Step.predicates call o.builder m.nextQuery w steps m₁).mapM Value.condition = .ok new ∧
          st.SelectsWhere (old ++ new.map (·.term) ++ x.kind.joinConditions)) := by
  intro call steps
  obtain ⟨o, u, m₂, ho, ran, -, -⟩ := T.run_configured built
  rw [chain.continues.runs] at ran
  obtain ⟨w, m₁, began, -⟩ := exec_bind_eq_ok.mp ran
  obtain ⟨-, -, x₀, blank, hx₀⟩ := Terminal.opening_spec ho
  have callsLast (f : Value) (args : List Value) : Keeps Lasting (call f args) :=
    callAny_eval_keeps depth f args
  have begins : Lasting (o.inside m) m₁ := (configure_keeps callsLast _ _ _).of_exec began
  obtain ⟨x₂, hx₂⟩ := Lasting.exists_context (Inert.trans (o.inside_lasts m) begins) hx₀
  have ends : Lasting o.machine m' := after_eq built ▸ Terminal.run_after callsLast ho
  obtain ⟨x, hx⟩ := ends.exists_context hx₀
  have based : m₁.restriction? m.nextContext = some x₂.restriction := by
    rw [Machine.restriction?, hx₂]
    rfl
  refine ⟨o, w, m₁, x₂.restriction, x, ho, began, based, hx, ?_, fun leave st stands => ?_⟩
  · exact fun hT => Terminal.joinConditions_eq_nil hT ho ends hx
  · have split := congrArg (exec · (o.inside m)) (chain.continues.runs call o.builder m.nextQuery)
    exact Terminal.run_selectsWhere ho (split.trans (exec_bind_of_ok began _)) based leave built hx stands

/-- A search for products of a price below 5, restricted once more by a filter that is always true.
-/
theorem filters_conjoin_cheap_always :
    let product : Value := .mapped ⟨.product, none⟩
    let cheap : Value := .closure ⟨0, ["p"],
      .compare .lt (.get (.variable "p") "price") (.literal (.int 5)), []⟩
    let always : Value := .closure ⟨1, ["p"], .literal (.bool true), []⟩
    let ops : List StreamOp := [.fluent (.filter cheap), .fluent (.filter always)]
    let session : Value := .session ⟨1, ⟨some [], none, none⟩⟩
    ∃ s t m m' v st, exec (Stream.ofEntity .search session product)
        (.start ⟨false, false, false⟩) = (.ok s, m) ∧
      s.Chained ops t ∧ exec (Terminal.criteria.run (callAny (eval 3)) t) m = (.ok v, m') ∧
      v.StandsFor m' st ∧ st.conditions.length = 1 ∧
      ∃ new : List Operand, st.SelectsWhere (new.map (·.term)) := by
  intro product cheap always ops session
  let m₀ : Machine := .start ⟨false, false, false⟩
  let m : Machine := { m₀ with next := 5 }
  let s : Stream := ⟨4, .of .search, session, .queryType ⟨2, .search, product⟩,
    .configurer ⟨3, .root product, []⟩, .unset, .unset, [], []⟩
  let filter (f : Value) : Step := .filter s.queryType (.function f)
  let t (steps : List Step) : Stream :=
    { s with id := 3, configurer := .configurer ⟨2, .root product, steps⟩ }
  have start : exec (Stream.ofEntity .search session product) m₀ = (.ok s, m) := rfl
  have filtered (u : Stream) (f : Value) (hf : u.firstResult = .unset) (hm : u.maxResults = .unset)
      (selected : exec (selector "predicate" f) m₀ = (.ok (.function f), m₀)) :
      exec (StreamOp.apply u (.fluent (.filter f))) m₀ =
        exec (u.extend (.filter u.queryType (.function f))) m₀ := by
    unfold StreamOp.apply Fluent.apply Stream.filter
    rw [exec_bind_of_ok selected, exec_bind_of_ok (Stream.exec_requireUnbounded hf hm _ _)]
  have chain : s.Chained ops (t [filter cheap, filter always]) :=
    .snoc (.snoc .nil (filtered s cheap rfl rfl rfl))
      (filtered (t [filter cheap]) always rfl rfl rfl)
  obtain ⟨v, m', built, checked⟩ := exec_of_check (m := m)
    (x := Terminal.criteria.run (callAny (eval 3)) (t [filter cheap, filter always]))
    (fun _ m' => (m'.context? ⟨0⟩).any fun x =>
      (x.statement m').toOption.any fun st => st.conditions.length == 1) (by decide +kernel)
  obtain ⟨o, w, m₁, base, x, ho, began, based, hx, plain, conjoins⟩ := filters_conjoin chain built
  obtain ⟨y, hy, checked⟩ := (Option.any_eq_true _ _).mp checked
  obtain ⟨st, stated, single⟩ := (Option.any_eq_true _ _).mp checked
  have made : x.statement m' = .ok st := by
    obtain rfl := Option.some.inj (hx.symm.trans hy)
    rcases h : x.statement m' with e | st'
    · rw [h] at stated
      cases stated
    · rw [h] at stated
      exact congrArg _ (Option.some.inj stated)
  have context : exec ((t [filter cheap, filter always]).toContext (callAny (eval 3))) m =
      (.ok v, m') := built
  have result : v = m.nextQuery := (Stream.toContext_configured context).1
  have stands : v.StandsFor m' st := by
    rw [result]
    exact .context hx made
  obtain rfl := Except.ok.inj ho
  have root : exec (configure (callAny (eval 3)) s.configurer (.criteriaBuilder m.next)
      m.nextQuery) m.begun = (.ok product, m.opened product) := exec_configure_entity rfl
  obtain ⟨rfl, rfl⟩ : product = w ∧ m.opened product = m₁ := by
    have := root.symm.trans began
    simpa using this
  have leave : LeaveRestriction (callAny (eval 3)) (.criteriaBuilder m.next) m.nextContext product
      (StreamOp.steps s.queryType ops) (m.opened product) :=
    ⟨fun _ h => h, fun _ _ _ => ⟨fun _ h => h, fun _ _ _ => trivial⟩⟩
  obtain ⟨old, new, hold, -, selects⟩ := conjoins leave st stands
  obtain rfl : Value.null = base := Option.some.inj based
  obtain rfl := Except.ok.inj hold
  rw [plain (.inl rfl), List.append_nil, List.nil_append] at selects
  exact ⟨s, _, m, m', v, st, start, chain, built, stands, by simpa using single, new, selects⟩

end FluentQuery
