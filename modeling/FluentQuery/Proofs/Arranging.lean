import FluentQuery.Proofs.CurrentFrame

/-! Row bounds, sorting and grouping belong to the outermost query. A subquery refuses a step that
arranges its rows, before any function of that step is called; a query of its own never does. -/

namespace FluentQuery

/-! ### Steps -/

namespace Step

/-- What a subquery says to a step that bounds, sorts or groups its rows. -/
def refusal? : Step → Option Error
  | sort _ => some (.arrangedSubquery .sort)
  | group _ => some (.arrangedSubquery .group)
  | bounded b => some (.boundedSubquery b)
  | _ => none

/-- Reads off the selection what a step sorts or groups by. -/
def arrangement (call : Call) (builder selection : Value) : Step → Run (List Value)
  | sort o => o.clauses call builder selection
  | group g => g.clauses call selection
  | _ => return []

theorem errorClass_of_refusal? {step : Step} {e : Error} (h : step.refusal? = some e) :
    e.errorClass = .unsupportedCombination := by
  cases step <;> cases h <;> rfl

end Step

section Steps

variable {builder selection : Value} {c : ContextId} {x : Context} {m : Machine} {step : Step}
  {e : Error}

theorem requireOutermost_refused (hx : m.context? c = some x) (hq : x.isQuery = false)
    (a : Arranging) :
    exec (requireOutermost (.context c) a) m = (.error (.arrangedSubquery a), m) := by
  unfold requireOutermost
  rw [exec_bind_of_ok (exec_readContext_of_some hx)]
  simp [hq]

/-- A subquery refuses at once: nothing happens and no function is called. -/
theorem Step.apply_refused {L : Machine → Machine → Prop} [Inert L]
    (he : step.refusal? = some e) (hx : m.context? c = some x) (hs : x.isSubquery) (call : Call) :
    Makes L call (fun k => step.apply k builder (.context c) selection) m [] (.error e) m := by
  have notQuery : x.isQuery = false := by
    unfold Context.isSubquery at hs
    unfold Context.isQuery
    split at hs
    · simp [*]
    · cases hs
  have refused (a : Arranging) :
      Makes L call (fun _ => requireOutermost (.context c) a) m [] (.error (.arrangedSubquery a)) m :=
    .of_exec (requireOutermost_refused hx notQuery a) (Inert.refl m)
  cases step with
  | sort o =>
    cases he
    exact .stop (refused .sort)
  | group g =>
    cases he
    exact .stop (refused .group)
  | bounded b =>
    cases he
    have fails : exec (Step.apply call builder (.context c) selection (.bounded b)) m =
        (.error (.boundedSubquery b), m) := by
      unfold Step.apply
      rw [exec_bind_of_ok (exec_readContext_of_some hx)]
      simp only [hs, if_true]
      exact exec_fail_bind _ _ _
    exact .of_exec fails (Inert.refl m)
  | _ => cases he

/-- A context that was created as a query is one. -/
theorem Machine.exists_query_of_created? (h : m.created? c = some .query) :
    ∃ r b orders, m.context? c = some ⟨r, .query b orders⟩ := by
  obtain ⟨x, hx, created⟩ := Option.map_eq_some_iff.mp h
  obtain ⟨r, kind⟩ := x
  cases kind with
  | query b orders => exact ⟨r, b, orders, hx⟩
  | _ => cases created

/-- A context that was created as a subquery is one. -/
theorem Machine.exists_subquery_of_created? {parent : Value}
    (h : m.created? c = some (.subquery parent)) :
    ∃ x, m.context? c = some x ∧ x.isSubquery := by
  obtain ⟨x, hx, created⟩ := Option.map_eq_some_iff.mp h
  refine ⟨x, hx, ?_⟩
  obtain ⟨r, kind⟩ := x
  cases kind with
  | subquery b parent correlated conditions => rfl
  | _ => cases created

variable {call : Call}

theorem Step.arrangement_keeps {R : Machine → Machine → Prop} [Guarantee R]
    (hc : ∀ f args, Keeps R (call f args)) (builder selection : Value) (step : Step) :
    Keeps R (step.arrangement call builder selection) := by
  cases step with
  | sort o => exact Ordering.clauses_keeps hc _ _ o
  | group g => exact Grouping.clauses_keeps hc _ g
  | _ => exact .pure _

/-- In a query of its own a step that arranges rows fails only where what it sorts or groups by
cannot be read. -/
theorem Step.apply_arranges (hc : ∀ f args, Keeps Lasting (call f args))
    (he : step.refusal? = some e) (hx : m.created? c = some .query) :
    match exec (step.arrangement call builder selection) m with
    | (.ok _, _) => ∃ m', exec (step.apply call builder (.context c) selection) m =
        (.ok selection, m')
    | (.error err, m') => exec (step.apply call builder (.context c) selection) m =
        (.error err, m') := by
  obtain ⟨r, b, orders, hx'⟩ := Machine.exists_query_of_created? hx
  have outermost (a : Arranging) : exec (requireOutermost (.context c) a) m = (.ok c, m) := by
    unfold requireOutermost
    rw [exec_bind_of_ok (exec_readContext_of_some hx')]
    rfl
  have lasts := step.arrangement_keeps hc builder selection
  -- whatever is read, the query can be told
  have told {f : Context → Except Error Context} {m₁ : Machine}
      (accepts : ∀ r b orders, ∃ y, f ⟨r, .query b orders⟩ = .ok y) (later : Lasting m m₁) :
      ∃ m', exec (do c.update f; return selection) m₁ = (.ok selection, m') := by
    obtain ⟨r, b, orders, hx₁⟩ := Machine.exists_query_of_created? (later c _ hx)
    obtain ⟨y, hy⟩ := accepts r b orders
    have updated : exec (c.update f) m₁ =
        (.ok (), { m₁ with contexts := m₁.contexts.set c.index y }) :=
      exec_update_eq_ok.mpr ⟨_, y, hx₁, hy, rfl⟩
    exact ⟨_, by rw [exec_bind_of_ok updated]; rfl⟩
  cases step with
  | sort o =>
    unfold Step.apply Step.arrangement at *
    rw [exec_bind_of_ok (outermost .sort)]
    rcases hi : exec (o.clauses call builder selection) m with ⟨err | items, m₁⟩
    · exact exec_bind_of_error hi _
    · simp only [exec_bind_of_ok hi]
      exact told (fun r b orders => ⟨_, rfl⟩) (lasts.of_exec hi)
  | group g =>
    unfold Step.apply Step.arrangement at *
    rw [exec_bind_of_ok (outermost .group)]
    rcases hi : exec (g.clauses call selection) m with ⟨err | items, m₁⟩
    · exact exec_bind_of_error hi _
    · simp only [exec_bind_of_ok hi]
      exact told (fun r b orders => ⟨_, rfl⟩) (lasts.of_exec hi)
  | bounded b =>
    refine ⟨m, ?_⟩
    unfold Step.apply
    rw [exec_bind_of_ok (exec_readContext_of_some hx')]
    rfl
  | _ => cases he

/-- A subquery is never configured by steps one of which it refuses. -/
theorem Step.applyAll_ne_ok (hc : ∀ f args, Keeps Lasting (call f args)) {parent : Value}
    (hx : m.created? c = some (.subquery parent)) {steps : List Step}
    (refused : ∃ step ∈ steps, step.refusal?.isSome) (v : Value) (m' : Machine) :
    exec (Step.applyAll call builder (.context c) selection steps) m ≠ (.ok v, m') := by
  induction steps generalizing selection m with
  | nil =>
    obtain ⟨_, mem, -⟩ := refused
    cases mem
  | cons first rest ih =>
    intro h
    obtain ⟨w, m₁, hw, h⟩ := exec_bind_eq_ok.mp h
    obtain ⟨step, mem, he⟩ := refused
    rcases List.mem_cons.mp mem with rfl | later
    · obtain ⟨e, he⟩ := Option.isSome_iff_exists.mp he
      obtain ⟨x, hx, sub⟩ := Machine.exists_subquery_of_created? hx
      have stopped : Makes Idle call (fun k => step.apply k builder (.context c) selection) m []
          (.error e) m := Step.apply_refused he hx sub call
      cases (Prod.mk.inj (hw.symm.trans stopped.exec_eq)).1
    · exact ih (((Step.apply_keeps hc _ _ _ _).of_exec hw) _ _ hx) ⟨step, later, he⟩ h

end Steps

/-! ### Chains -/

/-- What a subquery says to an operation that bounds, sorts or groups its rows. -/
def Fluent.refusal? : Fluent → Option Error
  | limit _ => some (.boundedSubquery .limit)
  | skip _ => some (.boundedSubquery .skip)
  | orderBy .. | orderByAttributes _ | orderByListed _ => some (.arrangedSubquery .sort)
  | groupBy _ | groupByListed _ => some (.arrangedSubquery .group)
  | _ => none

theorem Fluent.exists_step_of_refusal? {op : Fluent} {e : Error} (h : op.refusal? = some e)
    (queryType : Value) : ∃ step, op.step? queryType = some step ∧ step.refusal? = some e := by
  cases op <;> simp_all [refusal?, step?, Step.refusal?]

namespace Stream

/-- A search as a chain begins with it: over the rows of an entity, or from a root of an enclosing
query. -/
inductive Begins : Stream → Prop
  | entity {session entity s m m'} (h : exec (ofEntity .search session entity) m = (.ok s, m')) :
      Begins s
  | root {session root s m m'} (h : exec (ofRoot session root) m = (.ok s, m')) : Begins s

theorem exec_ofRoot {session root : Value} {s : Stream} {m m' : Machine}
    (h : exec (ofRoot session root) m = (.ok s, m')) :
    (∃ id e, s.queryType = .queryType ⟨id, .search, .mapped ⟨e, none⟩⟩) ∧
      ∃ id, s.configurer = .configurer ⟨id, .correlated root, []⟩ := by
  replace h := (exec_guarded_eq_ok.mp h).2
  split at h
  · obtain ⟨_, _, _, h⟩ := exec_bind_eq_ok.mp h
    simp at h
  · rename_i e _
    obtain ⟨t, m₁, ht, h⟩ := exec_bind_eq_ok.mp h
    obtain ⟨id, m₂, _, ht⟩ := exec_bind_eq_ok.mp ht
    obtain ⟨id', m₃, _, h⟩ := exec_bind_eq_ok.mp h
    obtain ⟨id'', m₄, _, h⟩ := exec_bind_eq_ok.mp h
    obtain ⟨rfl, -⟩ := exec_pure_eq_ok.mp h
    obtain ⟨rfl, -⟩ := exec_pure_eq_ok.mp ht
    exact ⟨⟨id, e, rfl⟩, ⟨id', rfl⟩⟩

theorem Begins.search {s : Stream} (h : s.Begins) :
    ∃ t, s.queryType = .queryType t ∧ t.purpose = .search := by
  cases h with
  | entity h =>
    obtain ⟨-, ⟨id, ht⟩, -⟩ := exec_ofEntity h
    exact ⟨_, ht, rfl⟩
  | root h =>
    obtain ⟨⟨id, e, ht⟩, -⟩ := exec_ofRoot h
    exact ⟨_, ht, rfl⟩

/-- Nothing was configured yet, and no function of the program begins the configuration. -/
theorem Begins.functions {s : Stream} (h : s.Begins) :
    s.configurer.origin.functions = [] ∧ s.configurer.configured = [] := by
  cases h with
  | entity h =>
    obtain ⟨-, -, id, hc⟩ := exec_ofEntity h
    rw [hc]
    exact ⟨rfl, rfl⟩
  | root h =>
    obtain ⟨-, id, hc⟩ := exec_ofRoot h
    rw [hc]
    exact ⟨rfl, rfl⟩

/-- What operations on a stream configure: what the stream itself does, then their steps. -/
def configureWith (call : Call) (s : Stream) (ops : List Fluent) (builder query : Value) :
    Run Value := do
  let selection ← configure call s.configurer builder query
  Step.applyAll call builder query selection (Fluent.steps s.queryType ops)

section Configuring

variable {call : Call} {s t : Stream} {builder query : Value}

theorem configureWith_keeps {R : Machine → Machine → Prop} [Guarantee R]
    (hc : ∀ f args, Keeps R (call f args)) (ops : List Fluent) :
    Keeps R (s.configureWith call ops builder query) :=
  (configure_keeps hc _ _ _).bind fun v => Step.applyAll_keeps hc _ _ v _

/-- A chain configures what its operations do up to any of them, then that one, then the rest. -/
theorem Chain.configure_split {before later : List Fluent} {op : Fluent} {step : Step}
    (chain : s.Chain (before ++ op :: later) t) (hs : op.step? s.queryType = some step) :
    configure call t.configurer builder query = (do
      let selection ← s.configureWith call before builder query
      let selection ← step.apply call builder query selection
      Step.applyAll call builder query selection (Fluent.steps s.queryType later)) := by
  have split : Fluent.steps s.queryType (before ++ op :: later) =
      Fluent.steps s.queryType before ++ step :: Fluent.steps s.queryType later := by
    rw [Fluent.steps_append]
    exact congrArg (_ ++ ·) (List.filterMap_cons_some hs)
  rw [chain.continues.runs, split]
  simp only [configureWith, Step.applyAll_append, Step.applyAll, bind_assoc]

/-- Configuring calls the functions of the operations, in order and once each. -/
theorem Begins.configureWith_makes (start : s.Begins) {ops : List Fluent} {w : Value}
    {m m' : Machine} (h : exec (s.configureWith call ops builder query) m = (.ok w, m')) :
    ∃ es, Makes Idle call (fun k => s.configureWith k ops builder query) m es (.ok w) m' ∧
      called es = (Fluent.steps s.queryType ops).flatMap Step.functions := by
  obtain ⟨noFunction, noStep⟩ := start.functions
  have eq (k : Call) : s.configureWith k ops builder query = (do
      let selection ← s.configurer.origin.select k builder query
      Step.applyAll k builder query selection (Fluent.steps s.queryType ops)) := by
    unfold configureWith
    rw [configure_eq, noStep]
    simp only [Step.applyAll, bind_pure]
  obtain ⟨es, r, m₁, run⟩ := Configures.exists_run (L := Idle) call builder query
    s.configurer.origin (Fluent.steps s.queryType ops) m
  have makes := run.makes
  simp only [← eq] at makes
  obtain ⟨rfl, rfl⟩ := Prod.mk.inj (makes.exec_eq.symm.trans h)
  refine ⟨es, makes, ?_⟩
  rw [run.called_eq_of_ok, noFunction, List.nil_append]

end Configuring

end Stream

/-! ### Builds -/

namespace Terminal

variable {T : Terminal} {s : Stream} {m : Machine} {o : Opening}

theorem opening_nests (hT : T.nests = true) (ho : T.opening s m = .ok o) :
    ∃ parent, (o.inside m).created? m.nextContext = some (.subquery parent) := by
  have last (parent : Value) :
      (after (ContextId.new (.subquery parent)) m).created? m.nextContext =
        some (.subquery parent) := by
    rw [Machine.created?, show (after (ContextId.new (.subquery parent)) m).context? m.nextContext =
      some (.subquery parent) from List.getElem?_concat_length]
    rfl
  obtain ⟨f, rest, -, -, rfl⟩ := opening_of_nests hT ho
  exact ⟨f.query, Opening.inside_lasts _ m _ _ (last f.query)⟩

theorem opening_search {t : QueryType} (ht : s.queryType = .queryType t)
    (hp : t.purpose = .search) (ho : criteria.opening s m = .ok o) :
    (o.inside m).created? m.nextContext = some .query := by
  obtain ⟨t', ht', rfl⟩ := exists_queryType ho
  obtain rfl := Value.queryType.inj (ht.symm.trans ht')
  refine Opening.inside_lasts _ m _ _ ?_
  have created : (after t.createContext { m with next := m.next + 1 }).context? m.nextContext =
      some .query := by
    unfold QueryType.createContext
    rw [hp]
    exact List.getElem?_concat_length
  rw [Machine.created?, created]
  rfl

/-- A build fails as its configuration does. -/
theorem exec_run_of_error {call : Call} {e : Error} {m₁ : Machine} (ho : T.opening s m = .ok o)
    (h : exec (configure call s.configurer o.builder m.nextQuery) (o.inside m) = (.error e, m₁)) :
    ∃ m', exec (T.run call s) m = (.error e, m') := by
  obtain ⟨es, r, m₂, makes⟩ := configure_makes (L := Idle) call s.configurer o.builder m.nextQuery
    (o.inside m)
  obtain ⟨rfl, rfl⟩ := Prod.mk.inj (makes.exec_eq.symm.trans h)
  obtain ⟨r, m', run, fails, -⟩ := T.run_leads ho makes
  obtain rfl := fails e rfl
  exact ⟨m', run.exec_eq⟩

end Terminal

/-- A stream that goes on by a step a subquery refuses is never built as one. -/
theorem Stream.Continues.ne_ok {s t : Stream} {steps : List Step} (goes : s.Continues steps t)
    (refused : ∃ step ∈ steps, step.refusal?.isSome) {T : Terminal} (hT : T.nests = true)
    (depth : Nat) (m : Machine) (v : Value) (m' : Machine) :
    exec (T.run (callAny (eval depth)) t) m ≠ (.ok v, m') := by
  intro returned
  have lasting (f : Value) (args : List Value) : Keeps Lasting (callAny (eval depth) f args) :=
    callAny_eval_keeps depth f args
  rcases ho : T.opening t m with err | o
  · obtain ⟨n, makes⟩ := T.run_makes_of_error (callAny (eval depth)) ho
    cases (Prod.mk.inj (makes.exec_eq.symm.trans returned)).1
  rcases hw : exec (configure (callAny (eval depth)) t.configurer o.builder m.nextQuery)
    (o.inside m) with ⟨err | w, m₁⟩
  · obtain ⟨n, run⟩ := Terminal.exec_run_of_error ho hw
    cases (Prod.mk.inj (run.symm.trans returned)).1
  · rw [goes.runs] at hw
    obtain ⟨selection, m₂, begun, hw⟩ := exec_bind_eq_ok.mp hw
    obtain ⟨parent, nested⟩ := Terminal.opening_nests hT ho
    have reached : Lasting (o.inside m) m₂ := (configure_keeps lasting _ _ _).of_exec begun
    exact Step.applyAll_ne_ok lasting (reached _ _ nested) refused w m₁ hw

/-- A chain that was built as a subquery has no operation that bounds, sorts or groups rows. If it
has one and the operations before it complete, the build fails at its step: only the functions of
the operations before it were called, in order and once each, and nothing else happened. A build of
the same chain as a query of its own never refuses such a step: it fails only where its sort or
group expressions cannot be read. -/
theorem arranged_outermost_only {s t : Stream} {ops : List Fluent} (start : s.Begins)
    (chain : s.Chain ops t) (depth : Nat) (m : Machine) :
    let call := callAny (eval depth)
    (∀ T : Terminal, T.nests = true →
      (∀ v m', exec (T.run call t) m = (.ok v, m') → ∀ op ∈ ops, op.refusal? = none) ∧
      ∀ before op later e o w m₁, ops = before ++ op :: later → op.refusal? = some e →
        T.opening t m = .ok o →
        exec (s.configureWith call before o.builder m.nextQuery) (o.inside m) = (.ok w, m₁) →
        e.errorClass = .unsupportedCombination ∧
        ∃ es m', Makes Silent call (fun k => T.run k t) m es (.error e) m' ∧
          Makes Idle call (fun k => s.configureWith k before o.builder m.nextQuery) (o.inside m) es
            (.ok w) m₁ ∧
          called es = (Fluent.steps s.queryType before).flatMap Step.functions ∧ Silent m₁ m') ∧
    ∀ before op later step o w m₁, ops = before ++ op :: later → op.refusal?.isSome →
      op.step? s.queryType = some step → Terminal.criteria.opening t m = .ok o →
      exec (s.configureWith call before o.builder m.nextQuery) (o.inside m) = (.ok w, m₁) →
      match exec (step.arrangement call o.builder w) m₁ with
      | (.ok _, _) => ∃ m₂, exec (step.apply call o.builder m.nextQuery w) m₁ = (.ok w, m₂)
      | (.error err, m₂) =>
        exec (step.apply call o.builder m.nextQuery w) m₁ = (.error err, m₂) := by
  intro call
  have lasting (f : Value) (args : List Value) : Keeps Lasting (call f args) :=
    callAny_eval_keeps depth f args
  have refuses (T : Terminal) (hT : T.nests = true) : ∀ before op later e o w m₁,
      ops = before ++ op :: later → op.refusal? = some e → T.opening t m = .ok o →
      exec (s.configureWith call before o.builder m.nextQuery) (o.inside m) = (.ok w, m₁) →
      e.errorClass = .unsupportedCombination ∧
      ∃ es m', Makes Silent call (fun k => T.run k t) m es (.error e) m' ∧
        Makes Idle call (fun k => s.configureWith k before o.builder m.nextQuery) (o.inside m) es
          (.ok w) m₁ ∧
        called es = (Fluent.steps s.queryType before).flatMap Step.functions ∧ Silent m₁ m' := by
    rintro before op later e o w m₁ rfl he ho hw
    obtain ⟨step, hs, he⟩ := Fluent.exists_step_of_refusal? he s.queryType
    obtain ⟨es, makes, calls⟩ := start.configureWith_makes hw
    obtain ⟨parent, nested⟩ := Terminal.opening_nests hT ho
    have reached : Lasting (o.inside m) m₁ :=
      (Stream.configureWith_keeps lasting before).of_exec hw
    obtain ⟨x, hx, sub⟩ := Machine.exists_subquery_of_created? (reached _ _ nested)
    have refused : Makes Idle call (fun k => step.apply k o.builder m.nextQuery w) m₁ []
        (.error e) m₁ := Step.apply_refused he hx sub call
    have stopped := makes.andThen (f := fun k v => do
      let v ← step.apply k o.builder m.nextQuery v
      Step.applyAll k o.builder m.nextQuery v (Fluent.steps s.queryType later)) (.stop refused)
    rw [List.append_nil] at stopped
    simp only [← chain.configure_split hs] at stopped
    obtain ⟨r, m', run, fails, silent⟩ := T.run_leads ho stopped
    obtain rfl := fails e rfl
    exact ⟨Step.errorClass_of_refusal? he, es, m', run, makes, calls, silent⟩
  refine ⟨fun T hT => ⟨fun v m' returned op mem => ?_, refuses T hT⟩, ?_⟩
  · cases he : op.refusal? with
    | none => rfl
    | some e =>
      obtain ⟨step, hs, refused⟩ := Fluent.exists_step_of_refusal? he s.queryType
      exact absurd returned (chain.continues.ne_ok
        ⟨step, List.mem_filterMap.mpr ⟨op, mem, hs⟩, by rw [refused]; rfl⟩ hT depth m v m')
  · intro before op later step o w m₁ split arranges hs ho hw
    obtain ⟨e, he⟩ := Option.isSome_iff_exists.mp arranges
    obtain ⟨step', hs', refused⟩ := Fluent.exists_step_of_refusal? he s.queryType
    obtain rfl := Option.some.inj (hs.symm.trans hs')
    obtain ⟨qt, ht, search⟩ := start.search
    have created := Terminal.opening_search (chain.continues.queryType.trans ht) search ho
    have reached : Lasting (o.inside m) m₁ :=
      (Stream.configureWith_keeps lasting before).of_exec hw
    exact Step.apply_arranges lasting refused (reached _ _ created)

/-- The products, peeked at and then sorted by a function, where a subquery of another query is
wanted: only the peek was called. -/
theorem arranged_outermost_only_peeked :
    let product : Value := .mapped ⟨.product, none⟩
    let f : Value := .closure ⟨1, ["p"], .literal .null, []⟩
    let g : Value := .closure ⟨2, ["p"], .literal .null, []⟩
    let s : Stream := ⟨5, .of .search, .null, .queryType ⟨3, .search, product⟩,
      .configurer ⟨4, .root product, []⟩, .unset, .unset, [], []⟩
    let t : Stream := { s with
      id := 9, configurer := .configurer ⟨8, .root product, [.peek f, .sort (.listed g)]⟩ }
    let m : Machine := { Machine.start ⟨false, false, false⟩ with
      next := 10, contexts := [.query], stack := [⟨6, .criteriaBuilder 6, .context ⟨0⟩⟩] }
    s.Begins ∧ s.Chain [.peek f, .orderByListed g] t ∧
      ∃ es m', Makes Silent (callAny (eval 2)) (fun k => Terminal.existence.run k t) m es
        (.error (.arrangedSubquery .sort)) m' ∧ called es = [f] := by
  intro product f g s t m
  let fresh : Machine := { Machine.start ⟨false, false, false⟩ with next := 3 }
  let once : Stream := { s with
    id := 7, configurer := .configurer ⟨6, .root product, [.peek f]⟩ }
  have made : exec (Stream.ofEntity .search .null product) fresh = (.ok s, { fresh with next := 6 }) :=
    rfl
  have first : exec ((Fluent.peek f).apply s) { fresh with next := 6 } =
      (.ok once, { fresh with next := 8 }) := rfl
  have second : exec ((Fluent.orderByListed g).apply once) { fresh with next := 8 } =
      (.ok t, { fresh with next := 10 }) := by
    change exec (do once.requireUnbounded "sorting"; once.extend (.sort (.listed g))) _ = _
    rw [exec_bind_of_ok (Stream.exec_requireUnbounded rfl rfl _ _)]
    rfl
  have start : s.Begins := .entity made
  have chain : s.Chain [.peek f, .orderByListed g] t := (Stream.Chain.nil.snoc first).snoc second
  let o : Opening := ⟨.criteriaBuilder 6, after (ContextId.new (.subquery (.context ⟨0⟩))) m⟩
  have opened : Terminal.existence.opening t m = .ok o := rfl
  have peeked : (exec (s.configureWith (callAny (eval 2)) [.peek f] o.builder m.nextQuery)
      (o.inside m)).1.toBool = true := by decide +kernel
  rcases hw : exec (s.configureWith (callAny (eval 2)) [.peek f] o.builder m.nextQuery)
    (o.inside m) with ⟨_ | w, m₁⟩
  · rw [hw] at peeked
    cases peeked
  obtain ⟨-, es, m', run, -, calls, -⟩ := ((arranged_outermost_only start chain 2 m).1 .existence
    rfl).2 [.peek f] (.orderByListed g) [] _ o w m₁ rfl rfl opened hw
  exact ⟨start, chain, es, m', run, calls⟩

end FluentQuery
