import FluentQuery.Proofs.Order.Steps

/-! The operations that build a query from a stream. Each sets up a query context of its own,
configures it inside one frame, and is quiet before and behind that. -/

namespace FluentQuery

variable {α β : Type}

/-- Nothing was traced, no Ref was bound or unbound and no variable assigned. -/
structure Silent (m m' : Machine) : Prop where
  trace : m'.trace = m.trace
  refs : m'.refs = m.refs
  globals : m'.globals = m.globals
  settings : m'.settings = m.settings

namespace Silent

instance : Inert Silent where
  refl _ := ⟨rfl, rfl, rfl, rfl⟩
  trans h h' := ⟨h'.trace.trans h.trace, h'.refs.trans h.refs, h'.globals.trans h.globals,
    h'.settings.trans h.settings⟩
  fresh _ := ⟨rfl, rfl, rfl, rfl⟩
  newMapping _ _ := ⟨rfl, rfl, rfl, rfl⟩
  log _ _ := ⟨rfl, rfl, rfl, rfl⟩
  handle _ _ := ⟨rfl, rfl, rfl, rfl⟩

theorem blind (m : Machine) (contexts : List Context) : Silent m { m with contexts } :=
  ⟨rfl, rfl, rfl, rfl⟩

instance : Composing Silent := .of_blind blind

theorem of_idle {m m' : Machine} (h : Idle m m') : Silent m m' :=
  ⟨h.trace, h.refs, h.globals, h.settings⟩

theorem logged (m : Machine) (line : String) : Silent m (m.logged line) := by
  unfold Machine.logged
  split <;> exact ⟨rfl, rfl, rfl, rfl⟩

theorem onStack (m : Machine) (stack : List Frame) : Silent m { m with stack } :=
  ⟨rfl, rfl, rfl, rfl⟩

theorem entered (m : Machine) (builder query : Value) : Silent m (m.entered builder query) := by
  unfold Machine.entered
  exact Inert.trans (b := { m with next := m.next + 1, stack := ⟨m.next, builder, query⟩ :: m.stack })
    ⟨rfl, rfl, rfl, rfl⟩ (logged _ _)

theorem left (m outer : Machine) (c : ContextId) : Silent m (m.left outer c) :=
  Inert.trans (onStack m outer.stack) (logged _ _)

theorem updateMapping (i : MappingId) (fields : List (String × Value)) :
    Keeps Silent (i.update fields) :=
  fun _ => ⟨rfl, rfl, rfl, rfl⟩

theorem writeQuery (q : QueryId) (x : Executable) : Keeps Silent (q.write x) :=
  fun _ => ⟨rfl, rfl, rfl, rfl⟩

theorem createQuery (t : QueryType) (session query : Value) :
    Keeps Silent (t.createQuery session query) := by
  unfold QueryType.createQuery
  refine .guarded (.guarded (.bind (Inert.newMapping _) fun params => ?_))
  exact .bind (Inert.newMapping _) fun options => fun m => ⟨rfl, rfl, rfl, rfl⟩

end Silent

/-! ### Terminal operations -/

/-- The operations that build a query from a stream. -/
inductive Terminal where
  | criteria | query | subquery | existence

/-- What a build sets up first: its builder, and the machine with its new query context. -/
structure Opening where
  builder : Value
  machine : Machine

namespace Terminal

def run (call : Call) (s : Stream) : Terminal → Run Value
  | criteria => s.toContext call
  | query => s.toQuery call
  | subquery => s.asSubquery call
  | existence => s.existence call

/-- Builds a stream as part of the query under construction. -/
def nests : Terminal → Bool
  | subquery | existence => true
  | criteria | query => false

/-- What a build of `s` sets up on `m`, if it can begin at all. A query of its own has a new builder,
a subquery that of the query under construction. -/
def opening (s : Stream) (m : Machine) : Terminal → Except Error Opening
  | criteria | query =>
    match s.queryType with
    | .queryType t => .ok ⟨.criteriaBuilder m.next,
        after t.createContext { m with next := m.next + 1 }⟩
    | _ => .error .external
  | subquery | existence =>
    match m.stack with
    | [] => .error .noActiveContext
    | f :: _ =>
      if f.builder.isNull then .error (.null "builder")
      else .ok ⟨f.builder, after (ContextId.new (.subquery f.query)) m⟩

section Openings

variable {T : Terminal} {s : Stream} {m : Machine} {o : Opening}

/-- A query of its own is built by the type of the stream. -/
theorem exists_queryType (h : criteria.opening s m = .ok o) : ∃ t, s.queryType = .queryType t ∧
    o = ⟨.criteriaBuilder m.next, after t.createContext { m with next := m.next + 1 }⟩ := by
  dsimp only [opening] at h
  split at h
  · rename_i t ht
    exact ⟨t, ht, (Except.ok.inj h).symm⟩
  · cases h

/-- A subquery is built in the innermost frame, by the builder there. -/
theorem exists_frame (h : subquery.opening s m = .ok o) : ∃ f rest, m.stack = f :: rest ∧
    f.builder.isNull = false ∧ o = ⟨f.builder, after (ContextId.new (.subquery f.query)) m⟩ := by
  dsimp only [opening] at h
  split at h
  · cases h
  · rename_i f rest stack
    split at h
    · cases h
    · rename_i builder
      exact ⟨f, rest, stack, by simpa using builder, (Except.ok.inj h).symm⟩

/-- No subquery is built without a frame, or without a builder in it. -/
theorem opening_refused {e : Error} (h : subquery.opening s m = .error e) :
    m.stack = [] ∧ e = .noActiveContext ∨
      ∃ f rest, m.stack = f :: rest ∧ f.builder.isNull = true ∧ e = .null "builder" := by
  dsimp only [opening] at h
  split at h
  · rename_i stack
    exact .inl ⟨stack, (Except.error.inj h).symm⟩
  · rename_i f rest stack
    split at h
    · rename_i null
      exact .inr ⟨f, rest, stack, null, (Except.error.inj h).symm⟩
    · cases h

theorem opening_of_not_nests (hT : T.nests = false) (ho : T.opening s m = .ok o) :
    ∃ t, s.queryType = .queryType t ∧
      o = ⟨.criteriaBuilder m.next, after t.createContext { m with next := m.next + 1 }⟩ := by
  cases T with
  | criteria | query => exact exists_queryType ho
  | subquery | existence => cases hT

theorem opening_of_nests (hT : T.nests = true) (ho : T.opening s m = .ok o) :
    ∃ f rest, m.stack = f :: rest ∧ f.builder.isNull = false ∧
      o = ⟨f.builder, after (ContextId.new (.subquery f.query)) m⟩ := by
  cases T with
  | criteria | query => cases hT
  | subquery | existence => exact exists_frame (s := s) ho

/-- What a build sets up is set up by elementary steps. -/
theorem opening_keeps {R : Machine → Machine → Prop} [Composing R] (ho : T.opening s m = .ok o) :
    R m o.machine := by
  cases hT : T.nests with
  | false =>
    obtain ⟨t, -, rfl⟩ := opening_of_not_nests hT ho
    exact Inert.trans (Inert.fresh m) (QueryType.createContext_keeps t _)
  | true =>
    obtain ⟨f, rest, -, -, rfl⟩ := opening_of_nests hT ho
    exact Composing.newContext (.subquery f.query) m

end Openings

end Terminal

/-- The query context a build on `m` creates. -/
def Machine.nextContext (m : Machine) : ContextId := ⟨m.contexts.length⟩

theorem ContextId.exec_new (x : Context) (m : Machine) :
    exec (ContextId.new x) m = (.ok m.nextContext, after (ContextId.new x) m) := rfl

theorem QueryType.exec_createContext (t : QueryType) (m : Machine) :
    exec t.createContext m = (.ok m.nextContext, after t.createContext m) := rfl

/-- The query of a build on `m`, as a value. -/
def Machine.nextQuery (m : Machine) : Value := .context m.nextContext

/-- The machine inside the frame of a build on `m`. -/
def Opening.inside (o : Opening) (m : Machine) : Machine := o.machine.entered o.builder m.nextQuery

/-! ### Quiet surroundings -/

/-- What `x` does after a run that ended with `r` on `m₁` is quiet, and it fails as that did. -/
def Leads (call : Call) (x : Call → Run α) (m : Machine) (es : List Event) (r : Except Error β)
    (m₁ : Machine) : Prop :=
  ∃ r' m', Makes Silent call x m es r' m' ∧ (∀ e, r = .error e → r' = .error e) ∧ Silent m₁ m'

namespace Leads

variable {call : Call} {x : Call → Run α} {m m₁ : Machine} {es : List Event} {r : Except Error β}

theorem of_makes {r : Except Error α} (h : Makes Silent call x m es r m₁) :
    Leads call x m es r m₁ :=
  ⟨r, m₁, h, fun _ h => h, Inert.refl m₁⟩

/-- A quiet computation behind the rest. -/
theorem before {γ : Type} {f : α → Run γ} (h : Leads call x m es r m₁)
    (hf : ∀ a, Keeps Silent (f a)) : Leads call (fun k => x k >>= f) m es r m₁ := by
  obtain ⟨r', m', makes, fails, silent⟩ := h
  rcases r' with e | a
  · exact ⟨.error e, m', .stop makes, fun e' he => by rw [Except.error.inj (fails e' he)], silent⟩
  · have quiet := makes.andThen (f := fun _ => f) (.quiet (hf a m'))
    rw [List.append_nil] at quiet
    refine ⟨_, _, quiet, fun e he => ?_, Inert.trans silent (hf a m')⟩
    cases fails e he

/-- A quiet computation that returns, before the rest. -/
theorem behind {γ : Type} {y : Run γ} {f : Call → γ → Run α} {a : γ} {m' : Machine}
    (hy : exec y m = (.ok a, m')) (silent : Silent m m')
    (h : Leads call (fun k => f k a) m' es r m₁) :
    Leads call (fun k => y >>= f k) m es r m₁ := by
  obtain ⟨r', m'', makes, fails, silent'⟩ := h
  exact ⟨r', m'', (Makes.of_exec hy silent).andThen makes, fails, silent'⟩

theorem inFrame {builder : Value} {c : ContextId} {body : Call → Frame → Run α}
    (hb : builder.isNull = false)
    (h : Leads call (fun k => body k ⟨m.next, builder, .context c⟩)
      (m.entered builder (.context c)) es r m₁) :
    Leads call (fun k => withFrame builder (.context c) (body k)) m es r m₁ := by
  obtain ⟨r', m', makes, fails, silent⟩ := h
  exact ⟨r', _, .inFrame hb (.entered m _ _) makes (.left m' m c), fails,
    Inert.trans silent (.left m' m c)⟩

end Leads

namespace Stream

variable {call : Call} {s : Stream} {m m₁ : Machine} {o : Opening} {es : List Event}
  {r : Except Error Value}

theorem toContext_leads (ho : Terminal.criteria.opening s m = .ok o)
    (h : Makes Idle call (fun k => configure k s.configurer o.builder m.nextQuery) (o.inside m) es r
      m₁) : Leads call (fun k => s.toContext k) m es r m₁ := by
  obtain ⟨t, ht, rfl⟩ := Terminal.exists_queryType ho
  unfold toContext
  simp only [ht]
  refine .behind (exec_fresh m) ⟨rfl, rfl, rfl, rfl⟩ ?_
  refine .behind (t.exec_createContext _) (QueryType.createContext_keeps t _) ?_
  refine .before (.inFrame rfl ?_) fun built => ?_
  · exact (Leads.of_makes (h.mono fun _ _ => .of_idle)).before fun v =>
      QueryType.select_keeps _ _ _
  · refine (logLine_keeps ?_).bind fun _ => .pure _
    exact (shownNow_keeps _).bind fun _ => (shownNow_keeps _).bind fun _ => .pure _

theorem toQuery_leads (ho : Terminal.query.opening s m = .ok o)
    (h : Makes Idle call (fun k => configure k s.configurer o.builder m.nextQuery) (o.inside m) es r
      m₁) : Leads call (fun k => s.toQuery k) m es r m₁ := by
  have context := toContext_leads (s := s) ho h
  obtain ⟨t, ht, -⟩ := Terminal.exists_queryType ho
  unfold toQuery
  simp only [ht]
  refine context.before fun v => (Silent.createQuery t _ _).bind fun q => ?_
  refine q.read_keeps.bind fun x => .bind (Silent.updateMapping _ _) fun _ => ?_
  refine .bind (Silent.updateMapping _ _) fun _ => .bind (Silent.writeQuery _ _) fun _ => ?_
  exact (Stream.logCompiled_keeps s q).bind fun _ => .pure _

theorem exec_currentFrame {f : Frame} {rest : List Frame} (h : m.stack = f :: rest) :
    exec currentFrame m = (.ok f, m) := by
  unfold currentFrame
  rw [exec_bind_of_ok (exec_get m), h]
  rfl

theorem exec_currentFrame_of_nil (h : m.stack = []) :
    exec currentFrame m = (.error .noActiveContext, m) := by
  unfold currentFrame
  rw [exec_bind_of_ok (exec_get m), h]
  rfl

theorem toSubquery_leads (ho : Terminal.subquery.opening s m = .ok o)
    (h : Makes Idle call (fun k => configure k s.configurer o.builder m.nextQuery) (o.inside m) es r
      m₁) : Leads call (fun k => s.toSubquery k) m es r m₁ := by
  obtain ⟨f, rest, stack, builder, rfl⟩ := Terminal.exists_frame ho
  unfold toSubquery
  refine .behind (exec_currentFrame stack) (Inert.refl m) ?_
  refine .behind (a := m.nextContext) rfl (Silent.blind m _) ?_
  refine .before (.inFrame builder ?_) fun _ => .pure _
  exact (Leads.of_makes (h.mono fun _ _ => .of_idle)).before fun v => Composing.change _ (.select _)

theorem toSubquery_makes_of_error {e : Error} (ho : Terminal.subquery.opening s m = .error e) :
    ∃ m', Makes Silent call (fun k => s.toSubquery k) m [] (.error e) m' := by
  unfold toSubquery
  obtain ⟨stack, rfl⟩ | ⟨f, rest, stack, null, rfl⟩ := Terminal.opening_refused ho
  · exact ⟨m, .stop (.of_exec (exec_currentFrame_of_nil stack) (Inert.refl m))⟩
  · refine ⟨after (ContextId.new (.subquery f.query)) m, ?_⟩
    have frame : Makes Silent call (fun _ => currentFrame) m [] (.ok f) m :=
      .of_exec (exec_currentFrame stack) (Inert.refl m)
    have context : Makes Silent call (fun _ => ContextId.new (.subquery f.query)) m []
        (.ok m.nextContext) (after (ContextId.new (.subquery f.query)) m) :=
      .of_exec rfl (Silent.blind m _)
    refine frame.andThen (context.andThen ?_)
    simp only [withFrame_of_null null]
    exact .stop (.of_exec rfl (Inert.refl _))

theorem asSubquery_leads (ho : Terminal.subquery.opening s m = .ok o)
    (h : Makes Idle call (fun k => configure k s.configurer o.builder m.nextQuery) (o.inside m) es r
      m₁) : Leads call (fun k => s.asSubquery k) m es r m₁ :=
  (toSubquery_leads ho h).before fun c => c.scalar_keeps

theorem existence_leads (ho : Terminal.existence.opening s m = .ok o)
    (h : Makes Idle call (fun k => configure k s.configurer o.builder m.nextQuery) (o.inside m) es r
      m₁) : Leads call (fun k => s.existence k) m es r m₁ :=
  (toSubquery_leads ho h).before fun c => c.existence_keeps

end Stream

namespace Terminal

variable {s : Stream} {m : Machine}

/-- A build makes the events of its configuration, which runs in one frame for the context the build
created, and no other. -/
theorem run_leads (T : Terminal) {call : Call} {o : Opening} {es : List Event}
    {r : Except Error Value} {m₁ : Machine} (ho : T.opening s m = .ok o)
    (h : Makes Idle call (fun k => configure k s.configurer o.builder m.nextQuery) (o.inside m) es r
      m₁) : Leads call (fun k => T.run k s) m es r m₁ := by
  cases T with
  | criteria => exact Stream.toContext_leads ho h
  | query => exact Stream.toQuery_leads ho h
  | subquery => exact Stream.asSubquery_leads ho h
  | existence => exact Stream.existence_leads ho h

/-- A build that cannot begin makes no event. -/
theorem run_makes_of_error (T : Terminal) (call : Call) {e : Error} (ho : T.opening s m = .error e) :
    ∃ m', Makes Silent call (fun k => T.run k s) m [] (.error e) m' := by
  cases T with
  | criteria | query =>
    dsimp only [opening] at ho
    split at ho
    · cases ho
    · rename_i other
      obtain rfl := Except.error.inj ho
      refine ⟨m, ?_⟩
      dsimp only [run, Stream.toContext, Stream.toQuery]
      split
      · exact (other _ (by assumption)).elim
      · exact .quiet (x := fail .external) (Inert.refl m)
  | subquery =>
    obtain ⟨m', makes⟩ := Stream.toSubquery_makes_of_error ho
    exact ⟨m', .stop makes⟩
  | existence =>
    obtain ⟨m', makes⟩ := Stream.toSubquery_makes_of_error ho
    exact ⟨m', .stop makes⟩

end Terminal

end FluentQuery
