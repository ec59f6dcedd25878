import FluentQuery.Proofs.Meaning.Steps

/-! The meaning of a whole chain: the query that a stream builds is the one read off the
operations it was put together from. -/

namespace FluentQuery

/-- The steps that operations of a search add. -/
def Step.isFluent : Step → Bool
  | assign .. | modify _ | transform _ => false
  | _ => true

theorem Fluent.isFluent_of_mem_steps {queryType : Value} {ops : List Fluent} {step : Step}
    (h : step ∈ Fluent.steps queryType ops) : step.isFluent := by
  obtain ⟨op, _, hs⟩ := List.mem_filterMap.mp h
  cases op <;> simp only [Fluent.step?, Option.some.injEq, reduceCtorEq] at hs <;> subst hs <;> rfl

/-- From this selection and machine on, the callables of the steps only compute: running them
leaves query contexts and bound Refs as they are. -/
def OnlyCompute (call : Call) (builder query : Value) : Value → List Step → Machine → Prop
  | _, [], _ => True
  | v, step :: steps, m =>
    Undisturbed m (step.evaluated call builder v m) ∧
      ∀ w m', exec (step.apply call builder query v) m = (.ok w, m') →
        OnlyCompute call builder query w steps m'

section Running

variable {call : Call} {builder v w : Value} {c : ContextId} {x : Context} {b : SelectBody}
  {orders : List Value} {d : Bool} {m m' : Machine}

/-- Every step of a chain says one thing about the query. -/
theorem Step.apply_tells (hc : ∀ f args, Keeps Growing (call f args)) (hx : m.context? c = some x)
    (hk : x.kind = .query b orders) (hd : b.distinct = .bool d) (hb : b.roots ≠ []) {step : Step}
    (fluent : step.isFluent) (hq : Undisturbed m (step.evaluated call builder v m))
    (h : exec (step.apply call builder (.context c) v) m = (.ok w, m')) :
    step.Tells call builder c x d v w m m' := by
  cases step with
  | filter queryType p => exact filter_tells hc hx hk hq h
  | peek f => exact peek_tells hc hx hq h
  | bind r p => exact bind_tells hc hx hq h
  | distinct => exact distinct_tells hx hk h
  | sort o => exact sort_tells hc hx hk hq h
  | group g => exact group_tells hc hx hk hq h
  | having p => exact having_tells hc hx hk hq h
  | addRoot r entity => exact addRoot_tells hx hk hb h
  | join key outer => exact join_tells hx hk h
  | map p => exact map_tells hc hx hq h
  | count => exact count_tells hx hk hd h
  | bounded bounding => exact bounded_tells hx h
  | assign key a => cases fluent
  | modify f => cases fluent
  | transform f => cases fluent

/-- A run of steps leaves a trail, and the query is told the entries of that trail. -/
theorem Step.applyAll_told (hc : ∀ f args, Keeps Growing (call f args)) {steps : List Step}
    (hx : m.context? c = some x) (hk : x.kind = .query b orders) (hd : b.distinct = .bool d)
    (hb : b.roots ≠ []) (fluent : ∀ step ∈ steps, step.isFluent)
    (hq : OnlyCompute call builder (.context c) v steps m)
    (h : exec (Step.applyAll call builder (.context c) v steps) m = (.ok w, m')) :
    ∃ es y, Trail call builder (.context c) d v steps es w m m' ∧ Told c x m es y m' := by
  induction steps generalizing v m x b orders d with
  | nil =>
    obtain ⟨rfl, rfl⟩ := exec_pure_eq_ok.mp h
    exact ⟨[], x, .nil, .nil hx⟩
  | cons step steps ih =>
    obtain ⟨u, m₁, hs, h⟩ := exec_bind_eq_ok.mp h
    obtain ⟨e, y, reads, hu, told⟩ := Step.apply_tells hc hx hk hd hb
      (fluent step List.mem_cons_self) hq.1 hs
    obtain ⟨es, z, trail, more⟩ := ih told.context (told.kind b orders hk)
      (e.tell_distinct hd) (e.tell_roots_ne_nil hb)
      (fun s hs => fluent s (List.mem_cons_of_mem _ hs)) (hq.2 u m₁ hs) h
    rw [hu] at hs trail
    exact ⟨e :: es, z, .cons reads hs trail, told.append more⟩

end Running

/-! ### Builds -/

/-- The machine on which the first step of a stream over `entity` is applied: inside the frame of a
new query that has `entity` as its only root. -/
def Machine.opened (m : Machine) (entity : Value) : Machine :=
  { m.begun with
    next := m.begun.next + 1
    contexts := m.contexts ++ [⟨.null, .query { SelectBody.empty with roots := [entity] } []⟩] }

/-- The first root of a query is the entity itself. -/
theorem exec_addRoot_query {m : Machine} {c : ContextId} {entity : Value}
    (hx : m.context? c = some .query) (he : entity.isNull = false) :
    exec (c.addRoot entity) m = (.ok entity, { m with
      next := m.next + 1
      contexts := m.contexts.set c.index
        ⟨.null, .query { SelectBody.empty with roots := [entity] } []⟩ }) := by
  unfold ContextId.addRoot
  rw [exec_bind_of_ok (exec_readContext_of_some hx)]
  simp only [Context.query, Context.ofKind, Context.target?]
  rw [exec_bind_of_ok (exec_fresh _), exec_updateGet]
  have still (n : Nat) : { m with next := n }.context? c = m.context? c := rfl
  rw [still, hx]
  have rooted (n : Nat) : Context.query.addRoot n entity =
      .ok (entity, ⟨.null, .query { SelectBody.empty with roots := [entity] } []⟩) := by
    cases entity <;> first | rfl | cases he
  simp only [rooted]

theorem exec_firstRoot {m : Machine} {entity : Value} (he : entity.isNull = false) :
    exec (ContextId.addRoot ⟨m.contexts.length⟩ entity) m.begun =
      (.ok entity, m.opened entity) := by
  have here : m.begun.context? ⟨m.contexts.length⟩ = some .query := by
    simp [Machine.context?, Machine.begun, Machine.entered]
  rw [exec_addRoot_query here he]
  simp [Machine.opened, Machine.begun, Machine.entered]

/-- The configuration of a search that selects nothing but its entity. -/
theorem exec_configure_entity {call : Call} {id : Nat} {m : Machine} {entity : Value}
    (he : entity.isNull = false) :
    exec (configure call (.configurer ⟨id, .root entity, []⟩) (.criteriaBuilder m.next)
      (.context ⟨m.contexts.length⟩)) m.begun = (.ok entity, m.opened entity) :=
  exec_bind_of_ok (exec_firstRoot he) _

/-! ### Distinctness -/

/-- Whether distinct rows are asked for from this step on. -/
def Step.mark? : Step → Option Bool
  | distinct => some true
  | count => some false
  | _ => none

theorem Trail.marks {call : Call} {builder query v w : Value} {d : Bool} {steps : List Step}
    {es : List Entry} {m m' : Machine} (h : Trail call builder query d v steps es w m m') :
    es.filterMap Entry.mark? = steps.filterMap Step.mark? := by
  induction h with
  | nil => rfl
  | cons reads _ _ ih =>
    rw [List.filterMap_cons, List.filterMap_cons, ih]
    cases reads <;> rfl

/-- Some operation asks for distinct rows, and none after it counts them. -/
def Fluent.AsksDistinct (ops : List Fluent) : Prop :=
  ∃ earlier later, ops = earlier ++ .distinct :: later ∧ .count ∉ later

theorem Fluent.asksDistinct_cons (op : Fluent) (ops : List Fluent) :
    AsksDistinct (op :: ops) ↔ op = .distinct ∧ .count ∉ ops ∨ AsksDistinct ops := by
  constructor
  · rintro ⟨earlier, later, h, hc⟩
    rcases List.cons_eq_append_iff.mp h with ⟨_, first⟩ | ⟨rest, _, others⟩
    · obtain ⟨rfl, rfl⟩ := List.cons.inj first
      exact .inl ⟨rfl, hc⟩
    · exact .inr ⟨rest, later, others, hc⟩
  · rintro (⟨rfl, hc⟩ | ⟨earlier, later, rfl, hc⟩)
    · exact ⟨[], ops, rfl, hc⟩
    · exact ⟨op :: earlier, later, rfl, hc⟩

theorem Fluent.last_mark (queryType : Value) (ops : List Fluent) (d : Bool) :
    ((Fluent.steps queryType ops).filterMap Step.mark?).getLastD d = true ↔
      d = true ∧ .count ∉ ops ∨ AsksDistinct ops := by
  induction ops generalizing d with
  | nil =>
    have none : ¬AsksDistinct [] := by
      rintro ⟨earlier, later, h, _⟩
      simp at h
    simp [steps, none]
  | cons op ops ih =>
    have head : steps queryType (op :: ops) = (op.step? queryType).toList ++ steps queryType ops := by
      unfold steps
      rw [List.filterMap_cons]
      cases op.step? queryType <;> rfl
    rw [head, asksDistinct_cons, List.filterMap_append]
    cases op with
    | distinct =>
      simp only [step?, Step.mark?, Option.toList_some, List.filterMap_cons, List.filterMap_nil,
        List.cons_append, List.nil_append, List.getLastD_cons, ih, List.mem_cons, reduceCtorEq,
        true_and, false_or]
      exact ⟨.inr, fun h => h.elim (fun h => .inl h.2) id⟩
    | _ =>
      simp [step?, Step.mark?, List.filterMap_cons, ih, List.getLastD_cons,
        -List.getLastD_eq_getLast?]

/-! ### Chains -/

/-- The query at `c` says what the entries of a chain of operations on a stream over `entity` say,
and nothing else. -/
structure Context.ReadOff (entity : Value) (ops : List Fluent) (es : List Entry) (x : Context) :
    Prop where
  restriction : Conjoined .null (es.filterMap Entry.condition?) x.restriction
  kind : ∃ distinct : Bool, (distinct = true ↔ Fluent.AsksDistinct ops) ∧ x.kind = .query
    { roots := entity :: es.filterMap Entry.root?
      joins := es.filterMap Entry.join?
      groupBy := (es.filterMap Entry.grouping?).getLastD []
      having := (es.filterMap Entry.having?).getLastD .null
      distinct := .bool distinct
      selection := (es.filterMap Entry.selection?).getLastD entity }
    ((es.filterMap Entry.order?).getLastD [])

/-- A search whose callables only compute builds the query read off its operations: every one says
what its callable or attribute gives on the selection current at that step. The aliases that come
with further roots and joins are new ones, and every Ref that was named holds what was bound to
it. -/
theorem toContext_reads_off {depth : Nat} {session entity v : Value} {s t : Stream}
    {ops : List Fluent} {m₀ m₁ m m' : Machine}
    (start : exec (Stream.ofEntity .search session entity) m₀ = (.ok s, m₁))
    (chain : s.Chain ops t)
    (compute : OnlyCompute (callAny (eval depth)) (.criteriaBuilder m.next)
      (.context ⟨m.contexts.length⟩) entity (Fluent.steps t.queryType ops) (m.opened entity))
    (built : exec (t.toContext (callAny (eval depth))) m = (.ok v, m')) :
    ∃ c es x w last, v = .context c ∧ m'.context? c = some x ∧ x.ReadOff entity ops es ∧
      Trail (callAny (eval depth)) (.criteriaBuilder m.next) v false entity
        (Fluent.steps t.queryType ops) es w (m.opened entity) last ∧
      (es.filterMap Entry.number?).Pairwise (· < ·) ∧
      (∀ n ∈ es.filterMap Entry.number?, m.next ≤ n ∧ n < m'.next) ∧
      ∀ r u, (r, u) ∈ es.filterMap Entry.bound? → r.index < m.refs.length → m'.ref? r = some u := by
  obtain ⟨he, ⟨id, hqt⟩, ⟨id', hcf⟩⟩ := Stream.exec_ofEntity start
  have continued := chain.continues
  obtain ⟨id'', hconf⟩ := continued.configurer _ hcf
  have ht : t.queryType = .queryType ⟨id, .search, entity⟩ := continued.queryType.trans hqt
  rw [← continued.queryType] at hconf
  obtain ⟨rfl, w, m₂, y₀, x, hrun, hy₀, hx, hx', refs, next⟩ := Stream.exec_toContext ht rfl built
  have root : exec (Origin.select (callAny (eval depth)) (.criteriaBuilder m.next)
      (.context ⟨m.contexts.length⟩) (.root entity)) m.begun = (.ok entity, m.opened entity) :=
    exec_firstRoot he
  rw [hconf, configure, Configurer.run, exec_bind_of_ok root] at hrun
  have first : (m.opened entity).context? ⟨m.contexts.length⟩ =
      some ⟨.null, .query { SelectBody.empty with roots := [entity] } []⟩ := by
    simp [Machine.context?, Machine.opened]
  have grows (f : Value) (args : List Value) : Keeps Growing (callAny (eval depth) f args) :=
    callAny_eval_keeps depth f args
  obtain ⟨es, y, trail, told⟩ := Step.applyAll_told grows first rfl rfl (by simp)
    (fun step hs => Fluent.isFluent_of_mem_steps hs) compute hrun
  obtain rfl : y = y₀ := Option.some.inj (told.context.symm.trans hy₀)
  have selected : x = ⟨y.restriction, .query
      { es.foldl Entry.tell { SelectBody.empty with roots := [entity] } with selection := w }
      ((es.filterMap Entry.order?).getLastD [])⟩ := by
    have selects := (Context.select_eq_ok hx).2
    rw [Context.updateBody_query (told.kind _ _ rfl)] at selects
    exact (Except.ok.inj selects).symm
  refine ⟨⟨m.contexts.length⟩, es, x, w, m₂, rfl, hx', ?_, trail, told.ordered, ?_, ?_⟩
  · rw [selected]
    refine ⟨told.restriction, (es.filterMap Entry.mark?).getLastD false, ?_, ?_⟩
    · rw [trail.marks, Fluent.last_mark]
      simp
    · rw [Entry.foldl_tell es _ rfl, trail.selection]
      rfl
  · intro n hn
    have opened : m.next ≤ (m.opened entity).next := by
      simp only [Machine.opened, Machine.begun, Machine.entered, Machine.next_logged]
      omega
    have := told.fresh n hn
    omega
  · intro r u hu hr
    refine refs r u (told.bound r u hu ?_)
    simpa [Machine.opened, Machine.begun, Machine.entered] using hr

/-- A search for distinct products of a price below 5. -/
theorem toContext_reads_off_distinct_cheap :
    let product : Value := .mapped ⟨.product, none⟩
    let cheap : Value := .closure ⟨0, ["p"],
      .compare .lt (.get (.variable "p") "price") (.literal (.int 5)), []⟩
    let ops : List Fluent := [.filter cheap, .distinct]
    let session : Value := .session ⟨1, ⟨some [], none, none⟩⟩
    ∃ s t m₁ m' c e x,
      exec (Stream.ofEntity .search session product) (.start ⟨false, false, false⟩) = (.ok s, m₁) ∧
      s.Chain ops t ∧
      OnlyCompute (callAny (eval 3)) (.criteriaBuilder m₁.next) (.context ⟨m₁.contexts.length⟩)
        product (Fluent.steps t.queryType ops) (m₁.opened product) ∧
      exec (t.toContext (callAny (eval 3))) m₁ = (.ok (.context c), m') ∧
      m'.context? c = some x ∧ x.ReadOff product ops [.condition e, .distinct] := by
  intro product cheap ops session
  let m₀ : Machine := .start ⟨false, false, false⟩
  let s : Stream := ⟨4, .of .search, session, .queryType ⟨2, .search, product⟩,
    .configurer ⟨3, .root product, []⟩, .unset, .unset, [], []⟩
  let filtering : Step := .filter s.queryType (.function cheap)
  let t (steps : List Step) : Stream :=
    { s with id := 3, configurer := .configurer ⟨2, .root product, steps⟩ }
  have start : exec (Stream.ofEntity .search session product) m₀ =
      (.ok s, { m₀ with next := 5 }) := rfl
  have filtered : exec (Fluent.apply s (.filter cheap)) m₀ =
      (.ok (t [filtering]), { m₀ with next := 4 }) := by
    have selected : exec (selector "predicate" cheap) m₀ = (.ok (.function cheap), m₀) := rfl
    unfold Fluent.apply Stream.filter
    rw [exec_bind_of_ok selected, exec_bind_of_ok (Stream.exec_requireUnbounded rfl rfl _ _)]
    rfl
  have distinct : exec (Fluent.apply (t [filtering]) .distinct) m₀ =
      (.ok (t [filtering, .distinct]), { m₀ with next := 4 }) := by
    unfold Fluent.apply Stream.distinct
    rw [exec_bind_of_ok (Stream.exec_requireUnbounded rfl rfl _ _)]
    rfl
  have chain : s.Chain ops (t [filtering, .distinct]) := .snoc (.snoc .nil filtered) distinct
  have compute : OnlyCompute (callAny (eval 3)) (.criteriaBuilder 5) (.context ⟨0⟩) product
      (Fluent.steps s.queryType ops) (Machine.opened { m₀ with next := 5 } product) :=
    ⟨⟨fun _ _ h => h, fun _ _ h => h⟩, fun _ _ _ => ⟨.refl _, fun _ _ _ => trivial⟩⟩
  obtain ⟨v, m', built, -⟩ := exec_of_check (m := { m₀ with next := 5 })
    (x := (t [filtering, .distinct]).toContext (callAny (eval 3))) (fun _ _ => true)
    (by decide +kernel)
  obtain ⟨c, es, x, w, last, rfl, hx, reads, trail, _⟩ :=
    toContext_reads_off start chain compute built
  cases trail with
  | cons first _ rest =>
    cases first
    cases rest with
    | cons second _ rest =>
      cases second
      cases rest
      exact ⟨s, _, _, m', c, _, x, start, chain, compute, built, hx, reads⟩

end FluentQuery
