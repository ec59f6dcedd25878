import FluentQuery.Proofs.Arranging
import FluentQuery.Proofs.Repetition

/-! The structure of the query that a stream builds: all of it but the selection. A build adds
nothing to what its configuration said but the selection. -/

namespace FluentQuery

/-! ### Kinds of queries -/

/-- The context that a query of this type starts as. -/
def QueryType.blank (t : QueryType) : Context :=
  match t.purpose with
  | .search => .query
  | .delete => .ofKind (.delete t.entity)
  | .update => .ofKind (.update t.entity [])

theorem QueryType.created_blank (t : QueryType) : t.blank.created = t.blank := by
  unfold blank
  cases t.purpose <;> rfl

/-- A new query starts blank. -/
theorem QueryType.created?_createContext (t : QueryType) (m : Machine) :
    (after t.createContext m).created? m.nextContext = some t.blank := by
  have last : (after t.createContext m).context? m.nextContext = some t.blank :=
    List.getElem?_concat_length
  rw [Machine.created?, last, Option.map_some, t.created_blank]

/-- The criteria of a stream stay of the kind that their query type says. -/
theorem Stream.toContext_created {s : Stream} {t : QueryType} {call : Call} {v : Value}
    {m m' : Machine} (ht : s.queryType = .queryType t)
    (hc : ∀ f args, Keeps Lasting (call f args)) (h : exec (s.toContext call) m = (.ok v, m')) :
    m'.created? m.nextContext = some t.blank := by
  have opened : Terminal.criteria.opening s m = .ok ⟨.criteriaBuilder m.next,
      after t.createContext { m with next := m.next + 1 }⟩ := by
    simp only [Terminal.opening, ht]
  have lasts : Lasting _ m' := after_eq h ▸ Terminal.run_after hc opened
  exact lasts _ _ (t.created?_createContext { m with next := m.next + 1 })

/-! ### Structure -/

/-- A query context but for what it selects. -/
def Context.unselected (x : Context) : Context :=
  match x.kind.body? with
  | some b => { x with kind := x.kind.withBody { b with selection := .null } }
  | none => x

namespace Context

theorem unselected_select {x y : Context} {w : Value} (h : x.select w = .ok y) :
    y.unselected = x.unselected := by
  obtain ⟨b, hb, rfl⟩ := updateBody_eq_ok.mp (select_eq_ok h).2
  obtain ⟨restriction, kind⟩ := x
  cases kind with
  | «abstract» | query | subquery =>
    cases hb
    rfl
  | common | delete | update => cases hb

theorem unselected_rename (ρ : Renaming) (x : Context) :
    (x.rename ρ).unselected = x.unselected.rename ρ := by
  obtain ⟨restriction, kind⟩ := x
  cases kind <;> rfl

end Context

section Builds

variable {call : Call} {s : Stream} {v : Value} {m m' : Machine}

/-- What a query type selects does not change the structure of the query. -/
theorem QueryType.select_unselected {t : QueryType} {c : ContextId} {w : Value} {x : Context}
    (hx : m.context? c = some x) (h : exec (t.select (.context c) w) m = (.ok v, m')) :
    ∃ y, m'.context? c = some y ∧ y.unselected = x.unselected := by
  cases hp : t.purpose with
  | search =>
    obtain ⟨-, x', y, hx', hy, rfl⟩ := exec_select hp h
    obtain rfl := Option.some.inj (hx.symm.trans hx')
    exact ⟨y, context?_set hx y, Context.unselected_select hy⟩
  | delete | update =>
    unfold select at h
    rw [hp] at h
    obtain ⟨-, rfl⟩ := exec_pure_eq_ok.mp h
    exact ⟨x, hx, rfl⟩

/-- A search can select anything but null. -/
theorem QueryType.exec_select_search {t : QueryType} (hp : t.purpose = .search) {c : ContextId}
    {r w : Value} {b : SelectBody} {orders : List Value}
    (hx : m.context? c = some ⟨r, .query b orders⟩) (hw : w.isNull = false) :
    exec (t.select (.context c) w) m = (.ok (.context c), { m with
      contexts := m.contexts.set c.index ⟨r, .query { b with selection := w } orders⟩ }) := by
  have selects : Context.select ⟨r, .query b orders⟩ w =
      .ok ⟨r, .query { b with selection := w } orders⟩ := by
    unfold Context.select
    rw [hw]
    rfl
  unfold select
  rw [hp]
  dsimp only
  rw [exec_bind_of_ok (exec_readContext_of_some hx)]
  exact exec_bind_of_ok (a := ()) (exec_update_eq_ok.mpr ⟨_, _, hx, selects, rfl⟩) _

theorem QueryType.exec_select_ok {t : QueryType} {c : ContextId} {w : Value}
    (hx : m.created? c = some t.blank) (hw : w.isNull = false) :
    ∃ y m', exec (t.select (.context c) w) m = (.ok (.context c), m') ∧ m'.context? c = some y ∧
      m'.settings = m.settings := by
  cases hp : t.purpose with
  | search =>
    rw [blank, hp] at hx
    obtain ⟨r, b, orders, hx⟩ := Machine.exists_query_of_created? hx
    exact ⟨_, _, exec_select_search hp hx hw, context?_set hx _, rfl⟩
  | delete | update =>
    obtain ⟨y, hy, -⟩ := Option.map_eq_some_iff.mp hx
    unfold select
    rw [hp]
    exact ⟨y, m, rfl, hy, rfl⟩

/-- The line that tells of a build. -/
def Stream.report (s : Stream) (built : Value) : Run String := do
  let text ← shownNow built
  return "Built " ++ text ++ " from " ++ (← shownNow (.stream s))

/-- A line is written if its text can be made, or if nobody reads it. -/
theorem exec_logLine_of_text {text : Run String}
    (h : m.settings.logging = false ∨ ∃ line, exec text m = (.ok line, m)) :
    ∃ line, exec (logLine text) m = (.ok (), m.logged line) := by
  unfold logLine Machine.logged
  rcases h with quiet | ⟨line, made⟩
  · refine ⟨"", ?_⟩
    rw [exec_bind_of_ok (exec_get m), quiet]
    rfl
  · refine ⟨line, ?_⟩
    rw [exec_bind_of_ok (exec_get m)]
    cases m.settings.logging with
    | false => rfl
    | true => exact exec_bind_of_ok made _

/-- The stream's configuration, for a build that opens with `o`, leaves the selection `w`. -/
def Stream.Configures (call : Call) (s : Stream) (m : Machine) (o : Opening) (w : Value)
    (m' : Machine) : Prop :=
  Terminal.criteria.opening s m = .ok o ∧
    exec (configure call s.configurer o.builder m.nextQuery) (o.inside m) = (.ok w, m')

/-- A build of the stream succeeds, and leaves `x` as its query. -/
def Stream.Builds (call : Call) (s : Stream) (m : Machine) (x : Context) : Prop :=
  ∃ m', exec (s.toContext call) m = (.ok m.nextQuery, m') ∧ m'.context? m.nextContext = some x

/-- A build on `m` configures a query of its type in a frame of its own, and logs it. -/
theorem Stream.exec_toContext_eq {t : QueryType} (ht : s.queryType = .queryType t) :
    exec (s.toContext call) m = exec (do
      let built ← withFrame (.criteriaBuilder m.next) m.nextQuery fun _ => do
        t.select m.nextQuery (← configure call s.configurer (.criteriaBuilder m.next) m.nextQuery)
      logLine (s.report built)
      return built) (after t.createContext { m with next := m.next + 1 }) := by
  unfold toContext
  rw [ht]
  exact (exec_bind_of_ok (exec_fresh m) _).trans (exec_bind_of_ok (t.exec_createContext _) _)

/-- A build that succeeds gives its own query. -/
theorem Stream.exists_builds (hc : ∀ f args, Keeps Lasting (call f args))
    (h : exec (s.toContext call) m = (.ok v, m')) : ∃ x, s.Builds call m x := by
  obtain ⟨rfl, o, _, _, opened, _⟩ := toContext_configured h
  obtain ⟨t, ht, -⟩ := Terminal.exists_queryType opened
  obtain ⟨x, hx, -⟩ := Option.map_eq_some_iff.mp (toContext_created ht hc h)
  exact ⟨x, m', h, hx⟩

/-- A build succeeds once what its configuration left is selected, if it can be told of. -/
theorem Stream.Configures.builds {t : QueryType} {o : Opening} {w : Value} {m₁ m₂ : Machine}
    {y : Context} (ht : s.queryType = .queryType t) (h : s.Configures call m o w m₁)
    (selected : exec (t.select m.nextQuery w) m₁ = (.ok m.nextQuery, m₂))
    (held : m₂.context? m.nextContext = some y)
    (told : ∀ n : Machine, n.settings = m₂.settings → n.context? m.nextContext = some y →
      n.settings.logging = false ∨ ∃ line, exec (s.report m.nextQuery) n = (.ok line, n)) :
    s.Builds call m y := by
  obtain ⟨ho, configured⟩ := h
  obtain ⟨t', ht', rfl⟩ := Terminal.exists_queryType ho
  obtain rfl := Value.queryType.inj (ht.symm.trans ht')
  let opened := after t.createContext { m with next := m.next + 1 }
  replace configured : exec (configure call s.configurer (.criteriaBuilder m.next) m.nextQuery)
    (opened.entered (.criteriaBuilder m.next) m.nextQuery) = (.ok w, m₁) := configured
  let last := m₂.left opened m.nextContext
  have framed : exec (withFrame (.criteriaBuilder m.next) m.nextQuery fun _ => do
      t.select m.nextQuery (← configure call s.configurer (.criteriaBuilder m.next) m.nextQuery))
      opened = (.ok m.nextQuery, last) := by
    refine (exec_withFrame rfl m.nextContext _ opened).trans ?_
    replace selected := (exec_bind_of_ok configured (t.select m.nextQuery)).trans selected
    exact congrArg (fun r : Except Error Value × Machine => (r.1, r.2.left opened m.nextContext))
      selected
  have still : last.context? m.nextContext = some y := by
    rw [Machine.context?, show last.contexts = m₂.contexts from Machine.contexts_logged _ _]
    exact held
  obtain ⟨line, logged⟩ :=
    exec_logLine_of_text (told last (Silent.left m₂ opened m.nextContext).settings still)
  refine ⟨last.logged line, ?_, ?_⟩
  · rw [exec_toContext_eq ht]
    exact (exec_bind_of_ok framed _).trans (exec_bind_of_ok logged _)
  · rw [Machine.context?, Machine.contexts_logged]
    exact still

/-- If nobody reads the log, a build succeeds once its configuration has left something to
select. -/
theorem Stream.Configures.exists_builds {o : Opening} {w : Value} {m₁ : Machine}
    (hc : ∀ f args, Keeps Lasting (call f args)) (hs : ∀ f args, Keeps SameSettings (call f args))
    (h : s.Configures call m o w m₁) (hw : w.isNull = false) (quiet : m.settings.logging = false) :
    ∃ x, s.Builds call m x := by
  obtain ⟨t, ht, rfl⟩ := Terminal.exists_queryType h.1
  let opened := after t.createContext { m with next := m.next + 1 }
  have blank : opened.created? m.nextContext = some t.blank :=
    t.created?_createContext { m with next := m.next + 1 }
  have lasts : Lasting opened m₁ :=
    Inert.trans (Opening.inside_lasts ⟨.criteriaBuilder m.next, opened⟩ m)
      ((configure_keeps hc _ _ _).of_exec h.2)
  obtain ⟨y, m₂, selected, held, same⟩ := t.exec_select_ok (lasts _ _ blank) hw
  refine ⟨y, h.builds ht selected held fun n settings _ => .inl ?_⟩
  have entered := (Silent.entered opened (.criteriaBuilder m.next) m.nextQuery).settings
  have kept : m₁.settings = _ := (configure_keeps hs _ _ _).of_exec h.2
  rw [settings, same, kept]
  exact (congrArg Diagnostics.logging entered).trans quiet

/-- A build leaves the query that its configuration left, but for what it selects. -/
theorem Stream.Builds.exists_configures {y : Context} (hc : ∀ f args, Keeps Lasting (call f args))
    (h : s.Builds call m y) :
    ∃ o w m₁ x, s.Configures call m o w m₁ ∧ m₁.context? m.nextContext = some x ∧
      y.unselected = x.unselected := by
  obtain ⟨m', h, hy⟩ := h
  obtain ⟨-, o, -, -, opened, -⟩ := toContext_configured h
  obtain ⟨-, -, x₀, -, hx₀⟩ := Terminal.opening_spec opened
  obtain ⟨t, ht, rfl⟩ := Terminal.exists_queryType opened
  obtain ⟨w, m₁, m₂, hw, hs, logged⟩ := exec_toContext_phases ht h
  have lasts : Lasting _ m₁ :=
    Inert.trans (Opening.inside_lasts ⟨.criteriaBuilder m.next, _⟩ m)
      ((configure_keeps hc _ _ _).of_exec hw)
  obtain ⟨x, hx⟩ := lasts.exists_context hx₀
  obtain ⟨z, hz, same⟩ := QueryType.select_unselected hx hs
  have last := (logged (R := Undisturbed)).context m.nextContext z (by
    rw [Machine.context?, Machine.contexts_logged]
    exact hz)
  obtain rfl := Option.some.inj (hy.symm.trans last)
  exact ⟨_, w, m₁, x, ⟨opened, hw⟩, hx, same⟩

/-- A chain configures what it started from, and then applies its own steps. -/
theorem Stream.Continues.configures {steps : List Step} {t : Stream} {o : Opening}
    (goes : s.Continues steps t) (h : t.Configures call m o v m') :
    ∃ w m₁, s.Configures call m o w m₁ ∧
      exec (Step.applyAll call o.builder m.nextQuery w steps) m₁ = (.ok v, m') := by
  obtain ⟨opened, configured⟩ := h
  rw [goes.runs] at configured
  obtain ⟨w, m₁, first, rest⟩ := exec_bind_eq_ok.mp configured
  have same : Terminal.criteria.opening s m = Terminal.criteria.opening t m := by
    simp only [Terminal.opening, goes.queryType]
  exact ⟨w, m₁, ⟨same.trans opened, first⟩, rest⟩

theorem Stream.Configures.unique {o o' : Opening} {w w' : Value} {m₁ m₂ : Machine}
    (h : s.Configures call m o w m₁) (h' : s.Configures call m o' w' m₂) :
    o = o' ∧ w = w' ∧ m₁ = m₂ := by
  obtain rfl := Except.ok.inj (h.1.symm.trans h'.1)
  obtain ⟨same, rfl⟩ := Prod.mk.inj (h.2.symm.trans h'.2)
  exact ⟨rfl, Except.ok.inj same, rfl⟩

/-- A stream built again when what its functions read holds what it held gives the same query, up to
what each build makes. -/
theorem Stream.builds_revisited {W : Moment} {F : Footprint} {n : Machine} (hm : m.Known W)
    (hs : s.Known W) (reads : s.Within F) (again : m.Revisited F n) (depth : Nat) :
    ∃ ρ : Renaming, ρ.Fixes m.extent ∧ ∀ z, s.Builds (callAny (eval depth)) n z ↔
      ∃ x, s.Builds (callAny (eval depth)) m x ∧ z = x.rename ρ := by
  have own : Made m.extent s := fun ρ hρ => Stream.Known.fixed (hm.extent ▸ hρ) hs
  obtain ⟨ρ, fixes, result, alike⟩ := s.toContext_repeats hm.wellMade again own reads depth
  let build : Run Value := s.toContext (callAny (eval depth))
  have counterpart {m' : Machine} (built : exec build m = (.ok m.nextQuery, m')) :
      exec build n = (.ok n.nextQuery, after build n) ∧
        (after build n).context? n.nextContext =
          (m'.context? m.nextContext).map (Context.rename ρ) := by
    have first : (exec build m).1 = .ok m.nextQuery := congrArg Prod.fst built
    have second : exec build n = (.ok (m.nextQuery.rename ρ), after build n) :=
      Prod.ext (result.trans (congrArg _ first)) rfl
    obtain ⟨same, -⟩ := s.toContext_configured second
    have address : m.nextContext.rename ρ = n.nextContext := Value.context.inj same
    have context := (alike m.nextContext first).context
    rw [after_eq built, address] at context
    exact ⟨same ▸ second, context⟩
  refine ⟨ρ, fixes, fun z => ⟨?_, ?_⟩⟩
  · rintro ⟨n', built, hz⟩
    replace result : (Except.ok n.nextQuery : Except Error Value) = _ :=
      (congrArg Prod.fst built).symm.trans result
    cases first : (exec build m).1 with
    | error e =>
      rw [first] at result
      cases result
    | ok v =>
      obtain ⟨rfl, -⟩ := s.toContext_configured (Prod.ext first rfl)
      obtain ⟨-, context⟩ := counterpart (Prod.ext first rfl)
      rw [after_eq built, hz] at context
      obtain ⟨x, hx, rfl⟩ := Option.map_eq_some_iff.mp context.symm
      exact ⟨x, ⟨_, Prod.ext first rfl, hx⟩, rfl⟩
  · rintro ⟨x, ⟨m', built, hx⟩, rfl⟩
    obtain ⟨again, context⟩ := counterpart built
    exact ⟨_, again, by rw [context, hx]; rfl⟩

end Builds

end FluentQuery
