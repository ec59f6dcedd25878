import FluentQuery.Proofs.Lockstep.Library

/-! Building in lockstep: streams are put together alike, and configurations and builds do the same
if the functions they call do. -/

namespace FluentQuery

open Sql

variable {k : Margin}

/-! ### Streams -/

@[grind ←] theorem itemsOf_unswayed (v : Value) : Unswayed k (itemsOf v) := by
  unfold itemsOf
  split <;> grind

@[grind ←] theorem selector_unswayed (what : String) (target : Value) :
    Unswayed k (selector what target) := by
  unfold selector
  refine .guarded ?_
  split <;> grind

@[grind ←] theorem expressionSelector_unswayed (what : String) (target : Value) :
    Unswayed k (expressionSelector what target) := by
  unfold expressionSelector
  split <;> grind

@[grind ←] theorem requireUnbound_unswayed (v : Value) : Unswayed k (requireUnbound v) := by
  unfold requireUnbound
  split <;> grind

@[grind ←] theorem requireBound_unswayed (b : Bounding) (v : Value) :
    Unswayed k (requireBound b v) := by
  grind [requireBound]

@[grind ←] theorem fieldOf_unswayed (v : Value) : Unswayed k (fieldOf v) := by
  unfold fieldOf
  refine (itemsOf_unswayed v).bind fun items => ?_
  split <;> grind

@[grind ←] theorem fieldsOf_unswayed (v : Value) : Unswayed k (fieldsOf v) := by
  unfold fieldsOf
  refine (truth_unswayed v).bind fun t => ?_
  split
  · exact .pure []
  · split <;> grind

namespace Stream

@[grind ←] theorem new_unswayed (kind : StreamKind)
    (session queryType configurer first max params options : Value) :
    Unswayed k (Stream.new kind session queryType configurer first max params options) := by
  unfold Stream.new
  refine .guarded (.guarded (.guarded ?_))
  grind

@[grind ←] theorem extend_unswayed (s : Stream) (step : Step) : Unswayed k (s.extend step) := by
  unfold extend Configurer.extend
  refine .bind (fresh_unswayed.bind fun id => ?_) fun c => by grind
  split <;> grind

@[grind ←] theorem requireUnbounded_unswayed (s : Stream) (operation : String) :
    Unswayed k (s.requireUnbounded operation) := by
  grind [requireUnbounded]

@[grind ←] theorem requireNatural_unswayed (b : Bounding) (v : Value) :
    Unswayed k (requireNatural b v) := by
  unfold requireNatural
  split
  · exact .fail _
  · split <;> grind

@[grind ←] theorem bind_unswayed (s : Stream) (ref function : Value) :
    Unswayed k (s.bind ref function) := by
  grind [Stream.bind]

@[grind ←] theorem peek_unswayed (s : Stream) (peeker : Value) : Unswayed k (s.peek peeker) := by
  grind [peek]

@[grind ←] theorem filter_unswayed (s : Stream) (predicate : Value) :
    Unswayed k (s.filter predicate) := by
  grind [filter]

@[grind ←] theorem limit_unswayed (s : Stream) (v : Value) : Unswayed k (s.limit v) := by
  grind [limit]

@[grind ←] theorem skip_unswayed (s : Stream) (v : Value) : Unswayed k (s.skip v) := by
  grind [skip]

@[grind ←] theorem withParams_unswayed (s : Stream) (params : List (String × Value)) :
    Unswayed k (s.withParams params) := by
  grind [withParams]

@[grind ←] theorem withOptions_unswayed (s : Stream) (options : List (String × Value)) :
    Unswayed k (s.withOptions options) := by
  grind [withOptions]

@[grind ←] theorem distinct_unswayed (s : Stream) : Unswayed k s.distinct := by
  grind [Stream.distinct]

@[grind ←] theorem sort_unswayed (s : Stream) (o : Ordering) : Unswayed k (s.sort o) := by
  grind [sort]

@[grind ←] theorem orderBy_unswayed (s : Stream) (target ascending : Value) :
    Unswayed k (s.orderBy target ascending) := by
  grind [Stream.orderBy]

@[grind ←] theorem orderKeys_unswayed (position : Nat) (orders : List Value) :
    Unswayed k (orderKeys position orders) := by
  fun_induction orderKeys position orders <;> grind

@[grind ←] theorem orderByAttributes_unswayed (s : Stream) (orders : List Value) :
    Unswayed k (s.orderByAttributes orders) := by
  grind [orderByAttributes]

@[grind ←] theorem orderByListed_unswayed (s : Stream) (f : Value) :
    Unswayed k (s.orderByListed f) := by
  grind [orderByListed]

@[grind ←] theorem group_unswayed (s : Stream) (g : Grouping) : Unswayed k (s.group g) := by
  grind [group]

@[grind ←] theorem groupBy_unswayed (s : Stream) (target : Value) : Unswayed k (s.groupBy target) := by
  grind [Stream.groupBy]

@[grind ←] theorem groupByListed_unswayed (s : Stream) (f : Value) :
    Unswayed k (s.groupByListed f) := by
  grind [groupByListed]

@[grind ←] theorem having_unswayed (s : Stream) (predicate : Value) :
    Unswayed k (s.having predicate) := by
  grind [Stream.having]

@[grind ←] theorem addRoot_unswayed (s : Stream) (ref entity : Value) :
    Unswayed k (s.addRoot ref entity) := by
  grind [Stream.addRoot]

@[grind ←] theorem join_unswayed (s : Stream) (key outer : Value) : Unswayed k (s.join key outer) := by
  grind [Stream.join]

@[grind ←] theorem map_unswayed (s : Stream) (target : Value) : Unswayed k (s.map target) := by
  grind [Stream.map]

@[grind ←] theorem count_unswayed (s : Stream) : Unswayed k s.count := by
  grind [Stream.count]

@[grind ←] theorem assign_unswayed (s : Stream) (key v : Value) : Unswayed k (s.assign key v) := by
  grind [Stream.assign]

end Stream

namespace QueryType

@[grind ←] theorem new_unswayed (purpose : Purpose) (entity : Value) :
    Unswayed k (QueryType.new purpose entity) := by
  grind [QueryType.new]

@[grind ←] theorem createContext_unswayed (t : QueryType) :
    Unswayed k t.createContext := by
  grind [createContext]

@[grind ←] theorem restrict_unswayed (query restriction : Value) :
    Unswayed k (QueryType.restrict query restriction) := by
  unfold QueryType.restrict
  exact .guarded (.guarded (by grind))

@[grind ←] theorem select_unswayed (t : QueryType) (query selection : Value) :
    Unswayed k (t.select query selection) := by
  unfold QueryType.select
  split
  · exact .pure _
  · exact .pure _
  · split
    · exact (ContextId.read_unswayed _).bind fun x => .guarded (by grind)
    · grind

@[grind ←] theorem createQuery_unswayed (t : QueryType) (session query : Value) :
    Unswayed k (t.createQuery session query) := by
  grind [createQuery]

end QueryType

namespace Stream

@[grind ←] theorem start_unswayed (session : Value) (t : QueryType) (c : Configurer) :
    Unswayed k (start session t c) := by
  grind [start]

@[grind ←] theorem ofEntity_unswayed (purpose : Purpose) (session entity : Value) :
    Unswayed k (ofEntity purpose session entity) := by
  grind [ofEntity]

@[grind ←] theorem ofRoot_unswayed (session root : Value) : Unswayed k (ofRoot session root) := by
  unfold ofRoot
  refine .guarded ?_
  split <;> grind

end Stream

/-! ### Configurations -/

@[grind ←] theorem requireOutermost_unswayed (query : Value) (a : Arranging) :
    Unswayed k (requireOutermost query a) := by
  unfold requireOutermost
  split <;> grind

@[grind ←] theorem conjoin_unswayed (builder : Value) (c : ContextId) (condition : Value) :
    Unswayed k (conjoin builder c condition) := by
  grind [conjoin]

@[grind ←] theorem countSelection_unswayed (builder : Value) (c : ContextId) (selection : Value) :
    Unswayed k (countSelection builder c selection) := by
  unfold countSelection
  refine c.read_unswayed.bind fun x => ?_
  cases x.kind.body? with
  | none => exact .fail_bind _ _
  | some b =>
    refine .bind (.pure _) fun d => (c.update_unswayed _).bind fun _ => ?_
    split <;> grind

section Calls

variable {call call' : Call} (hc : ∀ f args, Agrees k.inner (call f args) (call' f args))

include hc

theorem Projection.read_agrees (selection : Value) (p : Projection) :
    Agrees k.inner (p.read call selection) (p.read call' selection) := by
  cases p with
  | whole => exact .pure _
  | named key => exact resolveAttribute_unswayed _ _
  | function f => exact hc _ _
  | held r => exact r.read_unswayed

theorem Ordering.clauses_agree (builder selection : Value) (o : Ordering) :
    Agrees k.inner (o.clauses call builder selection) (o.clauses call' builder selection) := by
  cases o with
  | listed f => exact (hc _ _).before fun v => itemsOf_unswayed v
  | keys keys =>
    change Agrees k.inner (Ordering.clauses.ordered call builder selection keys)
      (Ordering.clauses.ordered call' builder selection keys)
    induction keys with
    | nil => exact .pure []
    | cons key keys ih =>
      refine .behind (requireBuilder_unswayed _) fun _ => (key.1.read_agrees hc _).bind fun v => ?_
      refine .behind (truth_unswayed _) fun t => .behind (Expression.sorted_unswayed _ _) fun w => ?_
      exact ih.before fun _ => .pure _

theorem Grouping.clauses_agree (selection : Value) (g : Grouping) :
    Agrees k.inner (g.clauses call selection) (g.clauses call' selection) := by
  cases g with
  | key p => exact (p.read_agrees hc _).before fun v => .pure _
  | listed f => exact (hc _ _).before fun v => itemsOf_unswayed v

theorem assignedValue_agrees (selection v : Value) :
    Agrees k.inner (assignedValue call selection v) (assignedValue call' selection v) := by
  unfold assignedValue
  split
  · exact hc _ _
  · exact .pure _

/-- One step of a configuration. -/
theorem Step.apply_agrees (builder query selection : Value) (step : Step) :
    Agrees k.inner (step.apply call builder query selection)
      (step.apply call' builder query selection) := by
  cases step with
  | filter queryType p =>
    refine (p.read_agrees hc _).before fun v => (asContext_unswayed _).bind fun c => ?_
    refine (conjoin_unswayed _ _ _).bind fun r => ?_
    split <;> grind
  | peek f => exact (Agrees.map (hc _ _)).before fun _ => .pure _
  | bind r p => exact (p.read_agrees hc _).before fun v => by grind
  | sort o =>
    refine .behind (requireOutermost_unswayed _ _) fun c => ?_
    exact (o.clauses_agree hc _ _).before fun items => by grind
  | group g =>
    refine .behind (requireOutermost_unswayed _ _) fun c => ?_
    exact (g.clauses_agree hc _).before fun items => by grind
  | having p =>
    refine .behind (asContext_unswayed _) fun c => .behind c.read_unswayed fun x => .guarded ?_
    exact (p.read_agrees hc _).before fun v => by grind
  | map p => exact p.read_agrees hc _
  | assign key v =>
    refine .behind (asContext_unswayed _) fun c => .behind c.read_unswayed fun x => .guarded ?_
    exact (assignedValue_agrees hc _ _).before fun w => by grind
  | bounded b =>
    refine Unswayed.agrees ?_
    cases query with
    | context c =>
      refine c.read_unswayed.bind fun x => ?_
      split
      · exact .fail_bind _ _
      · exact .pure _
    | _ => exact .pure _
  | modify f => exact (Agrees.map (hc _ _)).before fun _ => .pure _
  | transform f => exact hc _ _
  | distinct | addRoot r entity | join key outer | count =>
    exact Unswayed.agrees (by grind [Step.apply])

theorem Step.applyAll_agrees (builder query selection : Value) (steps : List Step) :
    Agrees k.inner (Step.applyAll call builder query selection steps)
      (Step.applyAll call' builder query selection steps) := by
  induction steps generalizing selection with
  | nil => exact .pure _
  | cons step steps ih => exact (step.apply_agrees hc _ _ _).bind fun v => ih v

theorem Origin.select_agrees (builder query : Value) (o : Origin) :
    Agrees k.inner (o.select call builder query) (o.select call' builder query) := by
  cases o with
  | root entity => exact (asContext_unswayed _).bind fun c => c.addRoot_unswayed _
  | correlated outer => exact currentSubquery_unswayed.bind fun c => by grind
  | function f => exact hc _ _

theorem Configurer.run_agrees (c : Configurer) (builder query : Value) :
    Agrees k.inner (c.run call builder query) (c.run call' builder query) :=
  (c.origin.select_agrees hc _ _).bind fun _ => Step.applyAll_agrees hc _ _ _ _

theorem configure_agrees (configurer builder query : Value) :
    Agrees k.inner (configure call configurer builder query)
      (configure call' configurer builder query) := by
  unfold configure
  split
  · exact Configurer.run_agrees hc _ _ _
  · exact hc _ _

/-! ### Builds -/

namespace Stream

/-- A build of a query of its own is not even swayed by the top of the stack. -/
theorem toContext_agrees (s : Stream) : Agrees k (s.toContext call) (s.toContext call') := by
  unfold toContext
  split
  · refine .behind fresh_unswayed fun id => .behind (QueryType.createContext_unswayed _) fun c => ?_
    refine .before (withFrame_agrees _ _ fun _ => (configure_agrees hc _ _ _).before fun v => ?_)
      fun v => (logLine_unswayed (by grind)).bind fun _ => .pure _
    exact QueryType.select_unswayed _ _ _
  · exact .fail _

omit hc in
/-- Logging what was compiled is swayed by nothing but the setting that asks for it. -/
theorem logCompiled_unswayed (quiet : k ≠ .compiled) (s : Stream) (q : QueryId) :
    Unswayed k (s.logCompiled q) := by
  have told : Unswayed k (do
      let m ← get
      let statement ← liftExcept ((← q.read).statement m m.next)
      logLine do
        let stream ← shownNow (.stream s)
        let rendered ← orExternal statement.render.toOption
        return "Compiled SQL for " ++ stream ++ ":\n" ++ rendered.text) := by
    refine .reading (fun m o => ?_) fun m => by grind
    simp only [m.statement_amid o]
    rfl
  intro m m' h
  have same : m'.settings = m.settings := by
    have settings := h.settings
    cases k with
    | compiled => exact absurd rfl quiet
    | below | stack => exact settings
  have either := told m m' h
  unfold logCompiled
  rw [after, after, exec_bind_of_ok (exec_get m), exec_bind_of_ok (exec_get m')] at either ⊢
  rw [same]
  split
  · exact either
  · exact ⟨rfl, h⟩

theorem toQuery_agrees (quiet : k ≠ .compiled) (s : Stream) :
    Agrees k (s.toQuery call) (s.toQuery call') := by
  unfold toQuery
  split
  · have logged := s.logCompiled_unswayed quiet
    exact (s.toContext_agrees hc).before fun v => by grind
  · exact .fail _

theorem toSubquery_agrees (s : Stream) :
    Agrees k.inner (s.toSubquery call) (s.toSubquery call') := by
  unfold toSubquery
  refine .behind currentFrame_unswayed fun f => .behind (ContextId.new_unswayed _) fun c => ?_
  refine .before (withFrame_agrees _ _ fun _ => ?_) fun _ => .pure _
  rw [k.inner_inner]
  exact (configure_agrees hc _ _ _).before fun v => c.update_unswayed _

end Stream

omit hc in
@[grind ←] theorem ContextId.scalar_unswayed (c : ContextId) : Unswayed k c.scalar :=
  c.read_unswayed.bind fun x => .reading (fun _ _ => rfl) fun m => by grind

omit hc in
@[grind ←] theorem ContextId.existence_unswayed (c : ContextId) : Unswayed k c.existence :=
  c.read_unswayed.bind fun x => .reading (fun _ _ => rfl) fun m => by grind

theorem Stream.asSubquery_agrees (s : Stream) :
    Agrees k.inner (s.asSubquery call) (s.asSubquery call') :=
  (s.toSubquery_agrees hc).before fun c => c.scalar_unswayed

theorem Stream.existence_agrees (s : Stream) :
    Agrees k.inner (s.existence call) (s.existence call') :=
  (s.toSubquery_agrees hc).before fun c => c.existence_unswayed

end Calls

end FluentQuery
