import FluentQuery.Proofs.Guarantee.Library

/-! What building guarantees: streams, their configurations, and the queries and
subqueries built from them, if calling functions of the program does. -/

namespace FluentQuery

open Sql

variable {R : Machine → Machine → Prop}

/-! ### Streams -/

section Streams

variable [Inert R]

@[grind ←] theorem itemsOf_keeps (v : Value) : Keeps R (itemsOf v) := by
  unfold itemsOf
  split <;> grind

@[grind ←] theorem selector_keeps (what : String) (target : Value) :
    Keeps R (selector what target) := by
  unfold selector
  refine .guarded ?_
  split <;> grind

@[grind ←] theorem expressionSelector_keeps (what : String) (target : Value) :
    Keeps R (expressionSelector what target) := by
  unfold expressionSelector
  split <;> grind

@[grind ←] theorem requireUnbound_keeps (v : Value) : Keeps R (requireUnbound v) := by
  unfold requireUnbound
  split <;> grind

@[grind ←] theorem requireBound_keeps (b : Bounding) (v : Value) : Keeps R (requireBound b v) := by
  grind [requireBound]

@[grind ←] theorem fieldOf_keeps (v : Value) : Keeps R (fieldOf v) := by
  unfold fieldOf
  refine (itemsOf_keeps v).bind fun items => ?_
  split <;> grind

@[grind ←] theorem fieldsOf_keeps (v : Value) : Keeps R (fieldsOf v) := by
  unfold fieldsOf
  refine (truth_keeps v).bind fun t => ?_
  split
  · exact .pure []
  · split <;> grind

namespace Stream

@[grind ←] theorem new_keeps (kind : StreamKind)
    (session queryType configurer first max params options : Value) :
    Keeps R (Stream.new kind session queryType configurer first max params options) := by
  unfold Stream.new
  refine .guarded (.guarded (.guarded ?_))
  grind

@[grind ←] theorem extend_keeps (s : Stream) (step : Step) : Keeps R (s.extend step) := by
  unfold extend Configurer.extend
  refine .bind (.bind Inert.fresh fun id => ?_) fun c => by grind
  split <;> grind

@[grind ←] theorem requireUnbounded_keeps (s : Stream) (operation : String) :
    Keeps R (s.requireUnbounded operation) := by
  grind [requireUnbounded]

@[grind ←] theorem requireNatural_keeps (b : Bounding) (v : Value) :
    Keeps R (requireNatural b v) := by
  unfold requireNatural
  split
  · exact .fail _
  · split <;> grind

@[grind ←] theorem bind_keeps (s : Stream) (ref function : Value) :
    Keeps R (s.bind ref function) := by
  grind [Stream.bind]

@[grind ←] theorem peek_keeps (s : Stream) (peeker : Value) : Keeps R (s.peek peeker) := by
  grind [peek]

@[grind ←] theorem filter_keeps (s : Stream) (predicate : Value) :
    Keeps R (s.filter predicate) := by
  grind [filter]

@[grind ←] theorem limit_keeps (s : Stream) (v : Value) : Keeps R (s.limit v) := by
  grind [limit]

@[grind ←] theorem skip_keeps (s : Stream) (v : Value) : Keeps R (s.skip v) := by
  grind [skip]

@[grind ←] theorem withParams_keeps (s : Stream) (params : List (String × Value)) :
    Keeps R (s.withParams params) := by
  grind [withParams]

@[grind ←] theorem withOptions_keeps (s : Stream) (options : List (String × Value)) :
    Keeps R (s.withOptions options) := by
  grind [withOptions]

@[grind ←] theorem distinct_keeps (s : Stream) : Keeps R s.distinct := by
  grind [Stream.distinct]

@[grind ←] theorem sort_keeps (s : Stream) (o : Ordering) : Keeps R (s.sort o) := by
  grind [sort]

@[grind ←] theorem orderBy_keeps (s : Stream) (target ascending : Value) :
    Keeps R (s.orderBy target ascending) := by
  grind [Stream.orderBy]

@[grind ←] theorem orderKeys_keeps (position : Nat) (orders : List Value) :
    Keeps R (orderKeys position orders) := by
  fun_induction orderKeys position orders <;> grind

@[grind ←] theorem orderByAttributes_keeps (s : Stream) (orders : List Value) :
    Keeps R (s.orderByAttributes orders) := by
  grind [orderByAttributes]

@[grind ←] theorem orderByListed_keeps (s : Stream) (f : Value) : Keeps R (s.orderByListed f) := by
  grind [orderByListed]

@[grind ←] theorem group_keeps (s : Stream) (g : Grouping) : Keeps R (s.group g) := by
  grind [group]

@[grind ←] theorem groupBy_keeps (s : Stream) (target : Value) : Keeps R (s.groupBy target) := by
  grind [Stream.groupBy]

@[grind ←] theorem groupByListed_keeps (s : Stream) (f : Value) : Keeps R (s.groupByListed f) := by
  grind [groupByListed]

@[grind ←] theorem having_keeps (s : Stream) (predicate : Value) :
    Keeps R (s.having predicate) := by
  grind [Stream.having]

@[grind ←] theorem addRoot_keeps (s : Stream) (ref entity : Value) :
    Keeps R (s.addRoot ref entity) := by
  grind [Stream.addRoot]

@[grind ←] theorem join_keeps (s : Stream) (key outer : Value) : Keeps R (s.join key outer) := by
  grind [Stream.join]

@[grind ←] theorem map_keeps (s : Stream) (target : Value) : Keeps R (s.map target) := by
  grind [Stream.map]

@[grind ←] theorem count_keeps (s : Stream) : Keeps R s.count := by
  grind [Stream.count]

@[grind ←] theorem assign_keeps (s : Stream) (key v : Value) : Keeps R (s.assign key v) := by
  grind [Stream.assign]

end Stream

namespace QueryType

@[grind ←] theorem new_keeps (purpose : Purpose) (entity : Value) :
    Keeps R (QueryType.new purpose entity) := by
  grind [QueryType.new]

omit [Inert R] in
@[grind ←] theorem createContext_keeps [Composing R] (t : QueryType) :
    Keeps R t.createContext := by
  unfold createContext
  refine Composing.newContext ?_
  cases t.purpose
  · exact .query
  · exact .delete _
  · exact .update _

theorem restrict_keeps_of {query : Value} (h : ∀ c, query = .context c → KeepsTold R c)
    (restriction : Value) : Keeps R (QueryType.restrict query restriction) := by
  unfold QueryType.restrict
  refine .guarded (.guarded ?_)
  cases query with
  | context c =>
    change Keeps R (pure c >>= _)
    rw [pure_bind]
    exact (h c rfl).change (.restrict _)
  | _ => exact .fail_bind _ _

omit [Inert R] in
@[grind ←] theorem restrict_keeps [Composing R] (query restriction : Value) :
    Keeps R (QueryType.restrict query restriction) :=
  restrict_keeps_of (fun c _ => Composing.tells c) restriction

theorem select_keeps_of (t : QueryType) {query : Value} (h : ∀ c, query = .context c → KeepsTold R c)
    (selection : Value) : Keeps R (t.select query selection) := by
  unfold QueryType.select
  split
  · exact .pure _
  · exact .pure _
  · split
    · rename_i c
      refine c.read_keeps.bind fun x => .guarded ?_
      exact ((h c rfl).change (.select _)).bind fun _ => .pure _
    · grind

omit [Inert R] in
@[grind ←] theorem select_keeps [Composing R] (t : QueryType) (query selection : Value) :
    Keeps R (t.select query selection) :=
  t.select_keeps_of (fun c _ => Composing.tells c) selection

omit [Inert R] in
@[grind ←] theorem createQuery_keeps [Creating R] (t : QueryType) (session query : Value) :
    Keeps R (t.createQuery session query) := by
  grind [createQuery]

end QueryType

namespace Stream

@[grind ←] theorem start_keeps (session : Value) (t : QueryType) (c : Configurer) :
    Keeps R (start session t c) := by
  grind [start]

@[grind ←] theorem ofEntity_keeps (purpose : Purpose) (session entity : Value) :
    Keeps R (ofEntity purpose session entity) := by
  grind [ofEntity]

@[grind ←] theorem ofRoot_keeps (session root : Value) : Keeps R (ofRoot session root) := by
  unfold ofRoot
  refine .guarded ?_
  split <;> grind

end Stream

end Streams

/-! ### Configurations -/

section Reading

variable [Inert R] {call : Call} (hc : ∀ f args, Keeps R (call f args))

include hc

@[grind ←] theorem Projection.read_keeps (selection : Value) (p : Projection) :
    Keeps R (p.read call selection) := by
  cases p with
  | whole => exact .pure _
  | named key => exact resolveAttribute_keeps _ _
  | function f => exact hc _ _
  | held r => exact r.read_keeps

theorem Ordering.ordered_keeps (builder selection : Value) (keys : List (Projection × Value)) :
    Keeps R (Ordering.clauses.ordered call builder selection keys) := by
  induction keys with
  | nil => exact .pure []
  | cons key keys ih => grind [Ordering.clauses.ordered]

@[grind ←] theorem Ordering.clauses_keeps (builder selection : Value) (o : Ordering) :
    Keeps R (o.clauses call builder selection) := by
  cases o with
  | keys keys => exact ordered_keeps hc _ _ _
  | listed f => exact (hc _ _).bind fun v => itemsOf_keeps v

@[grind ←] theorem Grouping.clauses_keeps (selection : Value) (g : Grouping) :
    Keeps R (g.clauses call selection) := by
  cases g with
  | key p => exact (p.read_keeps hc _).bind fun v => .pure _
  | listed f => exact (hc _ _).bind fun v => itemsOf_keeps v

theorem assignedValue_keeps (selection v : Value) : Keeps R (assignedValue call selection v) := by
  grind [assignedValue]

omit hc

@[grind ←] theorem conjoin_keeps (builder : Value) (c : ContextId) (condition : Value) :
    Keeps R (conjoin builder c condition) := by
  grind [conjoin]

theorem countSelection_keeps_of (builder : Value) {c : ContextId} (h : KeepsTold R c)
    (selection : Value) : Keeps R (countSelection builder c selection) := by
  unfold countSelection
  refine c.read_keeps.bind fun x => ?_
  cases x.kind.body? with
  | none => exact .fail_bind _ _
  | some b =>
    refine .bind (.pure _) fun d => (h.change (.distinct _)).bind fun _ => ?_
    split <;> grind

end Reading

/-- What is done with the query context a value is upholds what operations on that context do. -/
theorem Keeps.onContext [Inert R] {α : Type} {query : Value} {f : ContextId → Run α}
    (h : ∀ c, query = .context c → Keeps R (f c)) : Keeps R (query.asContext >>= f) := by
  cases query with
  | context c =>
    change Keeps R (Pure.pure c >>= f)
    rw [pure_bind]
    exact h c rfl
  | _ => exact .fail_bind _ _

/-- So does what is done with it if it is that of a whole search. -/
theorem Keeps.onOutermost [Inert R] {α : Type} {query : Value} {a : Arranging}
    {f : ContextId → Run α} (h : ∀ c, query = .context c → Keeps R (f c)) :
    Keeps R (requireOutermost query a >>= f) := by
  unfold requireOutermost
  cases query with
  | context c =>
    simp only [bind_assoc]
    refine c.read_keeps.bind fun x => ?_
    split
    · rw [pure_bind]
      exact h c rfl
    · exact .fail_bind _ _
  | _ => exact .fail_bind _ _

/-- One step of a configuration upholds what calls and operations on its query context do. -/
theorem Step.apply_keeps_of [Creating R] {call : Call} (hc : ∀ f args, Keeps R (call f args))
    {query : Value} (h : ∀ c, query = .context c → KeepsTold R c) (builder selection : Value)
    (step : Step) : Keeps R (step.apply call builder query selection) := by
  cases step with
  | filter queryType p =>
    refine (p.read_keeps hc _).bind fun v => (asContext_keeps _).bind fun c => ?_
    refine (conjoin_keeps _ _ _).bind fun r => ?_
    cases queryType with
    | queryType t => exact (QueryType.restrict_keeps_of h _).bind fun _ => .pure _
    | _ => exact .fail_bind _ _
  | peek f => exact (discard_keeps (hc _ _)).bind fun _ => .pure _
  | bind r p => exact (p.read_keeps hc _).bind fun v => (Creating.bind r v).bind fun _ => .pure _
  | distinct => exact .onContext fun c hq => ((h c hq).change (.distinct _)).bind fun _ => .pure _
  | sort o =>
    refine .onOutermost fun c hq => (o.clauses_keeps hc _ _).bind fun items => ?_
    exact ((h c hq).change (.orderBy _)).bind fun _ => .pure _
  | group g =>
    refine .onOutermost fun c hq => (g.clauses_keeps hc _).bind fun items => ?_
    exact ((h c hq).change (.groupBy _)).bind fun _ => .pure _
  | having p =>
    refine .onContext fun c hq => c.read_keeps.bind fun x => .guarded ?_
    refine (p.read_keeps hc _).bind fun v => ?_
    exact ((h c hq).change (.having _)).bind fun _ => .pure _
  | addRoot r entity =>
    refine .onContext fun c hq => ((h c hq).addRoot_keeps _).bind fun v => ?_
    exact (Creating.bind r v).bind fun _ => .pure _
  | join key outer => exact .onContext fun c hq => (h c hq).join_keeps _ _ _
  | map p => exact p.read_keeps hc _
  | count => exact .onContext fun c hq => countSelection_keeps_of _ (h c hq) _
  | assign key v =>
    refine .onContext fun c hq => c.read_keeps.bind fun x => .guarded ?_
    refine (assignedValue_keeps hc _ _).bind fun w => ?_
    exact ((h c hq).assign_keeps _ _).bind fun _ => .pure _
  | bounded b =>
    cases query with
    | context c =>
      refine c.read_keeps.bind fun x => ?_
      split
      · exact .fail_bind _ _
      · exact .pure _
    | _ => exact .pure _
  | modify f => exact (discard_keeps (hc _ _)).bind fun _ => .pure _
  | transform f => exact hc _ _

theorem Step.applyAll_keeps_of [Creating R] {call : Call} (hc : ∀ f args, Keeps R (call f args))
    {query : Value} (h : ∀ c, query = .context c → KeepsTold R c) (builder selection : Value)
    (steps : List Step) : Keeps R (Step.applyAll call builder query selection steps) := by
  induction steps generalizing selection with
  | nil => exact .pure _
  | cons step steps ih => exact (step.apply_keeps_of hc h _ _).bind fun v => ih v

variable [Guarantee R] {call : Call} (hc : ∀ f args, Keeps R (call f args))

include hc

/-- One step of a configuration guarantees what calls do. -/
theorem Step.apply_keeps (builder query selection : Value) (step : Step) :
    Keeps R (step.apply call builder query selection) :=
  step.apply_keeps_of hc (fun c _ => Composing.tells c) builder selection

theorem Step.applyAll_keeps (builder query selection : Value) (steps : List Step) :
    Keeps R (Step.applyAll call builder query selection steps) :=
  Step.applyAll_keeps_of hc (fun c _ => Composing.tells c) builder selection steps

theorem Origin.select_keeps (builder query : Value) (o : Origin) :
    Keeps R (o.select call builder query) := by
  cases o with
  | root entity => exact (asContext_keeps _).bind fun c => c.addRoot_keeps _
  | correlated outer =>
    refine currentSubquery_keeps.bind fun c => ?_
    exact (Guarantee.change c (.correlate _)).bind fun _ => .pure _
  | function f => exact hc _ _

@[grind ←] theorem Configurer.run_keeps (c : Configurer) (builder query : Value) :
    Keeps R (c.run call builder query) :=
  (c.origin.select_keeps hc _ _).bind fun _ => Step.applyAll_keeps hc _ _ _ _

@[grind ←] theorem configure_keeps (configurer builder query : Value) :
    Keeps R (configure call configurer builder query) := by
  unfold configure
  split
  · exact Configurer.run_keeps hc _ _ _
  · exact hc _ _

/-! ### Builds -/

namespace Stream

@[grind ←] theorem toContext_keeps (s : Stream) : Keeps R (s.toContext call) := by
  unfold toContext
  split
  · refine .bind Inert.fresh fun id => (QueryType.createContext_keeps _).bind fun c => ?_
    refine .bind ?_ fun v => ?_
    · refine withFrame_keeps _ _ fun _ => (configure_keeps hc _ _ _).bind fun v => ?_
      exact QueryType.select_keeps _ _ _
    · refine (logLine_keeps ?_).bind fun _ => .pure _
      grind
  · exact .fail _

omit hc [Guarantee R] in
@[grind ←] theorem logCompiled_keeps [Inert R] (s : Stream) (q : QueryId) :
    Keeps R (s.logCompiled q) := by
  grind [logCompiled]

@[grind ←] theorem toQuery_keeps (s : Stream) : Keeps R (s.toQuery call) := by
  unfold toQuery
  split <;> grind

@[grind ←] theorem toSubquery_keeps (s : Stream) : Keeps R (s.toSubquery call) := by
  unfold toSubquery
  refine currentFrame_keeps.bind fun f => (Creating.newContext (.subquery _)).bind fun c => ?_
  refine (withFrame_keeps _ _ fun _ => ?_).bind fun _ => .pure _
  exact (configure_keeps hc _ _ _).bind fun v => Guarantee.change c (.select _)

end Stream

omit hc [Guarantee R] in
@[grind ←] theorem ContextId.scalar_keeps [Inert R] (c : ContextId) : Keeps R c.scalar := by
  grind [scalar]

omit hc [Guarantee R] in
@[grind ←] theorem ContextId.existence_keeps [Inert R] (c : ContextId) : Keeps R c.existence := by
  grind [existence]

@[grind ←] theorem Stream.asSubquery_keeps (s : Stream) : Keeps R (s.asSubquery call) :=
  (s.toSubquery_keeps hc).bind fun c => c.scalar_keeps

@[grind ←] theorem Stream.existence_keeps (s : Stream) : Keeps R (s.existence call) :=
  (s.toSubquery_keeps hc).bind fun c => c.existence_keeps

end FluentQuery
