import FluentQuery.Proofs.Filters

/-! Predicates that give null. No restriction is null, so a filter is refused whose predicate gives
null where nothing restricts the query yet. Where something does, null is joined to it as a
condition instead: the filter succeeds, and the query selects no row. -/

namespace FluentQuery

open Sql

namespace Sql

theorem Truth.and_eq_true {a b : Truth} (h : Logic.and a b = Truth.true) : a = .true ∧ b = .true := by
  cases a <;> cases b <;> first | exact ⟨rfl, rfl⟩ | cases h

theorem Truth.and_unknown (a : Truth) : Logic.and a Truth.unknown ≠ Truth.true := by
  cases a <;> decide

end Sql

/-! ### Joining null -/

namespace Expression

variable {op : Connective} {vs : List Value} {m : Machine}

theorem exec_connect_of_error {e : Error} (h : vs.mapM Value.condition = .error e) :
    exec (connect op vs) m = (.error e, m) := by
  unfold connect
  rw [h]
  rfl

/-- Conditions can always be joined, and query contexts stay as they are. -/
theorem exec_connect_of_ok {xs : List Operand} (h : vs.mapM Value.condition = .ok xs) :
    ∃ r m', exec (connect op vs) m = (.ok r, m') ∧ m'.contexts = m.contexts := by
  have made (t : Term) : ∃ r m', exec (newTerm t) m = (.ok r, m') ∧ m'.contexts = m.contexts :=
    ⟨_, _, rfl, rfl⟩
  unfold connect
  rw [h, exec_bind_of_ok (exec_liftExcept_ok xs m)]
  dsimp only
  split
  · split
    · exact ⟨_, m, rfl, rfl⟩
    · exact made _
  · exact made _

end Expression

section Joining

variable {builder old : Value} {c : ContextId} {x : Context} {m : Machine}

theorem exec_conjoin_of_null (hx : m.context? c = some x) (hr : x.restriction.isNull = true)
    (condition : Value) : exec (conjoin builder c condition) m = (.ok condition, m) := by
  unfold conjoin
  rw [exec_bind_of_ok (exec_readContext_of_some hx)]
  simp only [hr, ↓reduceIte]
  exact exec_pure _ _

theorem exec_conjoin_of_builder {id : Nat} (hx : m.context? c = some x)
    (hr : x.restriction.isNull = false) (condition : Value) :
    exec (conjoin (.criteriaBuilder id) c condition) m =
      exec (Expression.connect .and [x.restriction, condition]) m := by
  unfold conjoin
  rw [exec_bind_of_ok (exec_readContext_of_some hx)]
  simp only [hr, Bool.false_eq_true, ↓reduceIte]
  exact exec_bind_of_ok rfl _

/-- Only a builder of criteria joins conditions. -/
theorem exec_conjoin_of_no_builder (hx : m.context? c = some x) (hr : x.restriction.isNull = false)
    (hb : ∀ id, builder ≠ .criteriaBuilder id) (condition : Value) :
    exec (conjoin builder c condition) m = (.error .external, m) := by
  unfold conjoin
  rw [exec_bind_of_ok (exec_readContext_of_some hx)]
  simp only [hr, Bool.false_eq_true, ↓reduceIte]
  cases builder with
  | criteriaBuilder id => exact absurd rfl (hb id)
  | _ => exact exec_fail_bind _ _ _

theorem QueryType.exec_restrict_of_some (hx : m.context? c = some x) {r : Value}
    (hr : r.isNull = false) :
    exec (QueryType.restrict (.context c) r) m =
      (.ok (), { m with contexts := m.contexts.set c.index { x with restriction := r } }) := by
  have given : (Value.context c).isNull = false := rfl
  unfold QueryType.restrict
  simp only [given, hr, Bool.false_eq_true, ↓reduceIte]
  refine exec_update_eq_ok.mpr ⟨x, _, hx, ?_, rfl⟩
  rw [Context.restrict, hr]
  rfl

end Joining

/-! ### The step -/

namespace Step

variable {call : Call} {builder w : Value} {c : ContextId} {q : QueryType} {p : Projection}
  {x : Context} {m m' : Machine}

/-- Behind its predicate a filter joins what that gave and restricts the query. -/
theorem exec_filter {e : Value} (gave : exec (p.read call w) m = (.ok e, m')) :
    exec ((filter (.queryType q) p).apply call builder (.context c) w) m =
      exec (do
        let r ← conjoin builder c e
        QueryType.restrict (.context c) r
        return w) m' := by
  unfold apply
  rw [exec_bind_of_ok gave, exec_bind_of_ok (exec_asContext c m')]

variable (gave : exec (p.read call w) m = (.ok .null, m')) (hx : m'.context? c = some x)

include gave hx

/-- Null is no restriction. -/
theorem exec_filter_null_refused (hr : x.restriction.isNull = true) :
    exec ((filter (.queryType q) p).apply call builder (.context c) w) m =
      (.error (.null "restriction"), m') := by
  rw [exec_filter gave, exec_bind_of_ok (exec_conjoin_of_null hx hr _)]
  rfl

/-- Null cannot be joined to what is no condition, nor without a builder of criteria. -/
theorem exec_filter_null_external (hr : x.restriction.isNull = false)
    (h : (∀ id, builder ≠ .criteriaBuilder id) ∨ ∀ y, x.restriction.condition ≠ .ok y) :
    exec ((filter (.queryType q) p).apply call builder (.context c) w) m =
      (.error .external, m') := by
  rw [exec_filter gave]
  refine exec_bind_of_error ?_ _
  by_cases hb : ∀ id, builder ≠ .criteriaBuilder id
  · exact exec_conjoin_of_no_builder hx hr hb _
  · obtain ⟨id, rfl⟩ := not_forall_not.mp hb
    rw [exec_conjoin_of_builder hx hr]
    rcases hy : x.restriction.condition with e | y
    · refine Expression.exec_connect_of_error ?_
      rw [List.mapM_cons, hy, Value.condition_eq_error hy]
      rfl
    · exact absurd hy (h.resolve_left hb y)

/-- Null is a condition beside another. What restricts the query then is as unknown as null. -/
theorem exec_filter_null_joined (id : Nat) {y : Operand} (hr : x.restriction.isNull = false)
    (hy : x.restriction.condition = .ok y) :
    ∃ r z n, exec ((filter (.queryType q) p).apply call (.criteriaBuilder id) (.context c) w) m =
        (.ok w, n) ∧ n.restriction? c = some r ∧ r.isNull = false ∧ r.condition = .ok z ∧
      ∀ {α : Type} [Logic α] (a : Term → α),
        z.term.truth a = Logic.and (y.term.truth a) (Logic.constant .null) := by
  have conditions : [x.restriction, .null].mapM Value.condition = .ok [y, .constant .null] :=
    Except.mapM_eq_ok.mpr (.cons hy (.cons rfl .nil))
  obtain ⟨r, n, joined, contexts⟩ : ∃ r n, exec (Expression.connect .and [x.restriction, .null]) m' =
      (.ok r, n) ∧ n.contexts = m'.contexts := Expression.exec_connect_of_ok conditions
  obtain ⟨y', k, z, hy', hk, hnull, hz, truth, -⟩ := Expression.exec_connect_and joined
  obtain rfl := Except.ok.inj (hy.symm.trans hy')
  obtain rfl := Except.ok.inj hk
  have hx' : n.context? c = some x := by
    rw [Machine.context?, contexts]
    exact hx
  refine ⟨r, z, { n with contexts := n.contexts.set c.index { x with restriction := r } }, ?_, ?_,
    hnull, hz, fun a => ?_⟩
  · rw [exec_filter gave, exec_bind_of_ok ((exec_conjoin_of_builder hx hr _).trans joined),
      exec_bind_of_ok (QueryType.exec_restrict_of_some hx' hnull)]
    rfl
  · rw [Machine.restriction?, context?_set hx']
    rfl
  · rw [truth a]
    exact congrArg _ (Term.truth_constant _)

end Step

/-! ### Builds -/

/-- A chain configures what its operations do up to any of them, then that one, then the rest. -/
theorem Stream.Chained.exec_configure {s t : Stream} {before later : List StreamOp} {op : StreamOp}
    {step : Step} (chain : s.Chained (before ++ op :: later) t)
    (hs : op.step? s.queryType = some step) {call : Call} {builder query v w : Value}
    {m m₀ m₁ : Machine} (began : exec (configure call s.configurer builder query) m = (.ok v, m₀))
    (reached : exec (Step.applyAll call builder query v (StreamOp.steps s.queryType before)) m₀ =
      (.ok w, m₁)) :
    exec (configure call t.configurer builder query) m = exec (do
      let u ← step.apply call builder query w
      Step.applyAll call builder query u (StreamOp.steps s.queryType later)) m₁ := by
  have split : StreamOp.steps s.queryType (before ++ op :: later) =
      StreamOp.steps s.queryType before ++ step :: StreamOp.steps s.queryType later := by
    rw [StreamOp.steps, List.filterMap_append, List.filterMap_cons_some hs]
    rfl
  rw [chain.continues.runs, split, exec_bind_of_ok began, Step.applyAll_append,
    exec_bind_of_ok reached]
  rfl

namespace Terminal

variable {T : Terminal} {call : Call} {s : Stream} {m m₁ : Machine} {o : Opening} {e : Error}

/-- A body that fails in a frame leaves the query contexts as they were when it failed. -/
theorem exec_withFrame_of_error {α : Type} {builder : Value} (hb : builder.isNull = false)
    {c : ContextId} (body : Frame → Run α)
    (h : exec (body ⟨m.next, builder, .context c⟩) (m.entered builder (.context c)) =
      (.error e, m₁)) :
    ∃ m', exec (withFrame builder (.context c) body) m = (.error e, m') ∧
      m'.contexts = m₁.contexts := by
  rw [exec_withFrame hb, h]
  exact ⟨_, rfl, Machine.contexts_logged _ _⟩

/-- A build fails as its configuration does, and leaves the query contexts as that did. -/
theorem exec_run_of_error_contexts (ho : T.opening s m = .ok o)
    (h : exec (configure call s.configurer o.builder m.nextQuery) (o.inside m) = (.error e, m₁)) :
    ∃ m', exec (T.run call s) m = (.error e, m') ∧ m'.contexts = m₁.contexts := by
  have context (ho : criteria.opening s m = .ok o) :
      ∃ m', exec (s.toContext call) m = (.error e, m') ∧ m'.contexts = m₁.contexts := by
    obtain ⟨t, ht, rfl⟩ := exists_queryType ho
    unfold Stream.toContext
    simp only [ht]
    rw [exec_bind_of_ok (exec_fresh m), exec_bind_of_ok (t.exec_createContext _)]
    obtain ⟨m', failed, contexts⟩ := exec_withFrame_of_error
      (m := after t.createContext { m with next := m.next + 1 }) rfl
      (fun _ => do t.select m.nextQuery (← configure call s.configurer _ m.nextQuery))
      (exec_bind_of_error h _)
    exact ⟨m', exec_bind_of_error failed _, contexts⟩
  have subquery (ho : Terminal.subquery.opening s m = .ok o) :
      ∃ m', exec (s.toSubquery call) m = (.error e, m') ∧ m'.contexts = m₁.contexts := by
    obtain ⟨f, rest, stack, builder, rfl⟩ := exists_frame ho
    unfold Stream.toSubquery
    rw [exec_bind_of_ok (Stream.exec_currentFrame stack), exec_bind_of_ok (ContextId.exec_new _ m)]
    obtain ⟨m', failed, contexts⟩ := exec_withFrame_of_error
      (m := after (ContextId.new (.subquery f.query)) m) builder
      (fun _ => do
        let selection ← configure call s.configurer f.builder m.nextQuery
        m.nextContext.update (·.select selection))
      (exec_bind_of_error h _)
    exact ⟨m', exec_bind_of_error failed _, contexts⟩
  cases T with
  | criteria => exact context ho
  | query =>
    obtain ⟨m', failed, contexts⟩ := context ho
    obtain ⟨t, ht, -⟩ := exists_queryType ho
    refine ⟨m', ?_, contexts⟩
    simp only [run, Stream.toQuery, ht]
    exact exec_bind_of_error failed _
  | subquery =>
    obtain ⟨m', failed, contexts⟩ := subquery ho
    exact ⟨m', exec_bind_of_error failed _, contexts⟩
  | existence =>
    obtain ⟨m', failed, contexts⟩ := subquery ho
    exact ⟨m', exec_bind_of_error failed _, contexts⟩

/-- While a build configures its query, that is there. -/
theorem exists_context_of_lasting (ho : T.opening s m = .ok o) (h : Lasting (o.inside m) m₁) :
    ∃ x, m₁.context? m.nextContext = some x := by
  obtain ⟨-, -, x, -, hx⟩ := opening_spec ho
  exact Lasting.exists_context (Inert.trans (o.inside_lasts m) h) hx

end Terminal

/-- Where what restricts the query at `c` is never true, the statements selected by it are not. -/
theorem Conjoined.never {old r : Value} {es : List Value} {z : Operand} (h : Conjoined old es r)
    (hold : old.isNull = false) (hz : old.condition = .ok z)
    (never : ∀ a : Term → Truth, z.term.truth a ≠ .true) {ts : List Term}
    (hts : r.conditions = .ok ts) (more : List Term) (a : Term → Truth) :
    Term.conjunction a (ts ++ more) ≠ .true := by
  obtain ⟨olds, xs, holds, -, same, -⟩ := h.conjunction hts
  rw [Value.conditions_eq hold hz] at holds
  obtain rfl := Except.ok.inj holds
  intro isTrue
  rw [Term.conjunction_append, same, List.singleton_append, Term.conjunction_cons] at isTrue
  exact never a (Truth.and_eq_true (Truth.and_eq_true isTrue).1).1

/-- A filter whose predicate gives null. If nothing restricts the query at that moment, the filter
is refused with an invalid argument, the query stays as the predicate left it, and so does the
build. If something does, that decides: where it is a condition, the filter succeeds, and no
statement of a build that returns selects any row, unless a callable behind the filter replaces the
restriction; where it is none, or there is no builder of criteria, joining fails. -/
theorem null_predicate_refused_or_joined {s t : Stream} {q : QueryType} {before later : List StreamOp}
    {predicate : Value} (hq : s.queryType = .queryType q)
    (chain : s.Chained (before ++ .fluent (.filter predicate) :: later) t) (T : Terminal)
    (depth : Nat) {m m₀ m₁ m₂ : Machine} {o : Opening} {v w : Value} :
    let call := callAny (eval depth)
    let step := Step.filter s.queryType (.selected predicate)
    T.opening t m = .ok o →
    exec (configure call s.configurer o.builder m.nextQuery) (o.inside m) = (.ok v, m₀) →
    exec (Step.applyAll call o.builder m.nextQuery v (StreamOp.steps s.queryType before)) m₀ =
      (.ok w, m₁) →
    exec ((Projection.selected predicate).read call w) m₁ = (.ok .null, m₂) →
    ∃ old, m₂.restriction? m.nextContext = some old ∧
      (old.isNull = true →
        exec (step.apply call o.builder m.nextQuery w) m₁ = (.error (.null "restriction"), m₂) ∧
        (Error.null "restriction").errorClass = .invalidArgument ∧
        ∃ m', exec (T.run call t) m = (.error (.null "restriction"), m') ∧
          m'.contexts = m₂.contexts) ∧
      (old.isNull = false → ∀ id y, o.builder = .criteriaBuilder id → old.condition = .ok y →
        ∃ r z m₃, exec (step.apply call o.builder m.nextQuery w) m₁ = (.ok w, m₃) ∧
          m₃.restriction? m.nextContext = some r ∧ r.condition = .ok z ∧
          (∀ {α : Type} [Logic α] (a : Term → α),
            z.term.truth a = Logic.and (y.term.truth a) (Logic.constant .null)) ∧
          ∀ u m', exec (T.run call t) m = (.ok u, m') →
            LeaveRestriction call o.builder m.nextContext w (StreamOp.steps s.queryType later) m₃ →
            ∀ st, u.StandsFor m' st → ∀ a : Term → Truth,
              Term.conjunction a st.conditions ≠ .true) ∧
      (old.isNull = false →
        (∀ id, o.builder ≠ .criteriaBuilder id) ∨ (∀ y, old.condition ≠ .ok y) →
        exec (step.apply call o.builder m.nextQuery w) m₁ = (.error .external, m₂) ∧
        ∃ m', exec (T.run call t) m = (.error .external, m') ∧ m'.contexts = m₂.contexts) := by
  intro call step ho began reached gave
  have lasting (f : Value) (args : List Value) : Keeps Lasting (call f args) :=
    callAny_eval_keeps depth f args
  have lasts : Lasting (o.inside m) m₂ :=
    Inert.trans ((configure_keeps lasting _ _ _).of_exec began)
      (Inert.trans ((Step.applyAll_keeps lasting _ _ _ _).of_exec reached)
        ((Projection.read_keeps lasting _ _).of_exec gave))
  obtain ⟨x, hx⟩ := Terminal.exists_context_of_lasting ho lasts
  have split := chain.exec_configure rfl began reached
  have fails {e : Error} (h : exec (step.apply call o.builder m.nextQuery w) m₁ = (.error e, m₂)) :
      ∃ m', exec (T.run call t) m = (.error e, m') ∧ m'.contexts = m₂.contexts :=
    Terminal.exec_run_of_error_contexts ho (split.trans (exec_bind_of_error h _))
  refine ⟨x.restriction, by rw [Machine.restriction?, hx]; rfl, fun null => ?_,
    fun some id y hb hy => ?_, fun some no => ?_⟩
  · have refused : exec (step.apply call o.builder m.nextQuery w) m₁ =
        (.error (.null "restriction"), m₂) := by
      dsimp only [step]
      rw [hq]
      exact Step.exec_filter_null_refused gave hx null
    exact ⟨refused, rfl, fails refused⟩
  · have joins := Step.exec_filter_null_joined (q := q) gave hx id some hy
    rw [← hq, ← hb] at joins
    obtain ⟨r, z, m₃, joined, restricted, given, hz, truth⟩ := joins
    refine ⟨r, z, m₃, joined, restricted, hz, truth, fun u m' built leave st stands a => ?_⟩
    obtain ⟨o', w', m₄, ho', ran, same, selects⟩ := T.run_configured built
    obtain rfl := Except.ok.inj (ho.symm.trans ho')
    obtain ⟨r', hr', conjoined⟩ := Step.applyAll_conjoins restricted leave
      ((exec_bind_of_ok joined _).symm.trans (split.symm.trans ran))
    have last := same r' hr'
    obtain ⟨x', hx', rfl⟩ := Option.map_eq_some_iff.mp last
    obtain ⟨own, hown, conditions⟩ := selects x' hx' st stands
    have never (a : Term → Truth) : z.term.truth a ≠ .true := by
      rw [truth a]
      exact Truth.and_unknown _
    rw [conditions]
    exact conjoined.never given hz never hown _ a
  · have failed : exec (step.apply call o.builder m.nextQuery w) m₁ = (.error .external, m₂) := by
      dsimp only [step]
      rw [hq]
      exact Step.exec_filter_null_external gave hx some no
    exact ⟨failed, fails failed⟩

/-- A search for products with a filter whose function gives nothing. Alone it is refused; behind
another filter it makes a query that selects no row. -/
theorem null_predicate_refused_or_joined_active :
    let product : Value := .mapped ⟨.product, none⟩
    let active : Value := .member ⟨⟨.product, none⟩, .column .active⟩
    let nothing : Value := .closure ⟨0, ["p"], .literal .null, []⟩
    let session : Value := .session ⟨1, ⟨some [], none, none⟩⟩
    ∃ s once twice m v m' st, exec (Stream.ofEntity .search session product)
        (.start ⟨false, false, false⟩) = (.ok s, m) ∧
      s.Chained [.fluent (.filter nothing)] once ∧
      s.Chained [.fluent (.filter active), .fluent (.filter nothing)] twice ∧
      (exec (once.toContext (callAny (eval 3))) m).1 = .error (.null "restriction") ∧
      exec (twice.toContext (callAny (eval 3))) m = (.ok v, m') ∧ v.StandsFor m' st ∧
      st.conditions.length = 1 ∧ ∀ a : Term → Truth, Term.conjunction a st.conditions ≠ .true := by
  intro product active nothing session
  let m₀ : Machine := .start ⟨false, false, false⟩
  let m : Machine := { m₀ with next := 5 }
  let s : Stream := ⟨4, .of .search, session, .queryType ⟨2, .search, product⟩,
    .configurer ⟨3, .root product, []⟩, .unset, .unset, [], []⟩
  let named : Step := .filter s.queryType (.named active)
  let null : Step := .filter s.queryType (.function nothing)
  let t (steps : List Step) : Stream :=
    { s with id := 3, configurer := .configurer ⟨2, .root product, steps⟩ }
  have start : exec (Stream.ofEntity .search session product) m₀ = (.ok s, m) := rfl
  have alone : exec (StreamOp.apply s (.fluent (.filter nothing))) m₀ = exec (s.extend null) m₀ :=
    Stream.exec_filter_unbounded rfl rfl rfl
  have first : exec (StreamOp.apply s (.fluent (.filter active))) m₀ = exec (s.extend named) m₀ :=
    Stream.exec_filter_unbounded rfl rfl rfl
  have second : exec (StreamOp.apply (t [named]) (.fluent (.filter nothing))) m₀ =
      exec ((t [named]).extend null) m₀ := Stream.exec_filter_unbounded rfl rfl rfl
  have once : s.Chained ([] ++ .fluent (.filter nothing) :: []) (t [null]) := .snoc .nil alone
  have twice : s.Chained ([.fluent (.filter active)] ++ .fluent (.filter nothing) :: [])
      (t [named, null]) := .snoc (.snoc .nil first) second
  have opened (steps : List Step) : Terminal.criteria.opening (t steps) m =
      .ok ⟨.criteriaBuilder m.next, after (ContextId.new .query) { m with next := m.next + 1 }⟩ := rfl
  have root : exec (configure (callAny (eval 3)) s.configurer (.criteriaBuilder m.next)
      m.nextQuery) m.begun = (.ok product, m.opened product) := exec_configure_entity rfl
  have gave (w : Value) (n : Machine) :
      exec ((Projection.selected nothing).read (callAny (eval 3)) w) n = (.ok .null, n) := rfl
  obtain ⟨old, hold, refused, -⟩ := null_predicate_refused_or_joined rfl once .criteria 3 (opened _)
    root rfl (gave product (m.opened product))
  obtain rfl : Value.null = old := Option.some.inj hold
  obtain ⟨-, -, n, fails, -⟩ := refused rfl
  obtain ⟨w, m₁, reached, checked⟩ := exec_of_check (m := m.opened product)
    (x := Step.applyAll (callAny (eval 3)) (.criteriaBuilder m.next) m.nextQuery product [named])
    (fun _ m₁ => (m₁.restriction? m.nextContext).any fun r => !r.isNull && r.condition.toBool)
    (by decide +kernel)
  obtain ⟨v, m', built, stated⟩ := exec_of_check (m := m)
    (x := (t [named, null]).toContext (callAny (eval 3)))
    (fun _ m' => (m'.context? m.nextContext).any fun x =>
      (x.statement m').toOption.any fun st => st.conditions.length == 1) (by decide +kernel)
  obtain ⟨r, hr, -, joins, -⟩ :=
    null_predicate_refused_or_joined rfl twice .criteria 3 (opened _) root reached (gave w m₁)
  obtain ⟨r', hr', checked⟩ := (Option.any_eq_true _ _).mp checked
  obtain rfl := Option.some.inj (hr.symm.trans hr')
  obtain ⟨given, isCondition⟩ := Bool.and_eq_true_iff.mp checked
  rcases hy : r.condition with e | y
  · rw [hy] at isCondition
    cases isCondition
  obtain ⟨_, _, m₃, -, -, -, -, never⟩ := joins (by simpa using given) _ y rfl hy
  obtain ⟨x, hx, stated⟩ := (Option.any_eq_true _ _).mp stated
  obtain ⟨st, made, single⟩ := Except.toOption_any_eq_true.mp stated
  have stands : v.StandsFor m' st := by
    rw [(Stream.toContext_configured built).1]
    exact .context hx made
  exact ⟨s, t [null], t [named, null], m, v, m', st, start, once, twice, congrArg Prod.fst fails,
    built, stands, by simpa using single, never v m' built trivial st stands⟩

end FluentQuery
