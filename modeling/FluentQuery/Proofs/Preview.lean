import FluentQuery.Proofs.Preview.Builds

/-! A preview selects what the bulk statement touches: a search, a deletion and an update over one
entity that have the same filters are refused alike, or restricted alike. -/

namespace FluentQuery

open Sql

/-! ### Streams with the same filters -/

/-- The predicate of a filter. -/
def StreamOp.predicate? : StreamOp → Option Value
  | fluent (.filter predicate) => some predicate
  | _ => none

/-- A stream over the rows of the entity, filtered by these predicates in this order. A stream of
updates may make assignments between the filters. -/
def Stream.FilteredBy (t : Stream) (purpose : Purpose) (e : Entity) (predicates : List Value) : Prop :=
  ∃ session s m m' ops, exec (ofEntity purpose session (.mapped ⟨e, none⟩)) m = (.ok s, m') ∧
    s.Chained ops t ∧ ops.filterMap StreamOp.predicate? = predicates ∧
    ∀ op ∈ ops, op.predicate?.isSome ∨ purpose = .update ∧ ∃ key v, op = .assign key v

namespace Stream.FilteredBy

variable {s t : Stream} {purpose : Purpose} {e : Entity} {predicates : List Value} {m m' : Machine}

theorem ofEntity {session : Value}
    (h : exec (Stream.ofEntity purpose session (.mapped ⟨e, none⟩)) m = (.ok s, m')) :
    s.FilteredBy purpose e [] :=
  ⟨session, s, m, m', [], h, .nil, rfl, nofun⟩

/-- One filter more. -/
theorem filter (hs : s.FilteredBy purpose e predicates) {p : Value}
    (h : exec (s.filter p) m = (.ok t, m')) : t.FilteredBy purpose e (predicates ++ [p]) := by
  obtain ⟨session, s₀, m₀, m₁, ops, start, chain, rfl, only⟩ := hs
  have applied : exec (StreamOp.apply s (.fluent (.filter p))) m = (.ok t, m') := h
  refine ⟨session, s₀, m₀, m₁, _, start, chain.snoc applied, ?_, ?_⟩
  · rw [List.filterMap_append]
    rfl
  · exact List.forall_mem_append.mpr ⟨only, List.forall_mem_singleton.mpr (.inl rfl)⟩

/-- An assignment does not filter. -/
theorem assign (hs : s.FilteredBy .update e predicates) {key v : Value}
    (h : exec (s.assign key v) m = (.ok t, m')) : t.FilteredBy .update e predicates := by
  obtain ⟨session, s₀, m₀, m₁, ops, start, chain, rfl, only⟩ := hs
  have applied : exec (StreamOp.apply s (.assign key v)) m = (.ok t, m') := h
  refine ⟨session, s₀, m₀, m₁, _, start, chain.snoc applied, ?_, ?_⟩
  · rw [List.filterMap_append]
    exact List.append_nil _
  · exact List.forall_mem_append.mpr ⟨only, List.forall_mem_singleton.mpr (.inr ⟨rfl, key, v, rfl⟩)⟩

end Stream.FilteredBy

theorem StreamOp.filtering?_step (t : QueryType) (op : StreamOp) :
    (op.step? (.queryType t)).bind Step.filtering? = op.predicate?.map Projection.selected := by
  cases op with
  | assign key v => rfl
  | fluent op => cases op <;> rfl

/-- The steps of a filtered stream. -/
theorem Stream.FilteredBy.exists_steps {t : Stream} {purpose : Purpose} {e : Entity}
    {predicates : List Value} (h : t.FilteredBy purpose e predicates) :
    ∃ id steps k, t.queryType = .queryType ⟨id, purpose, .mapped ⟨e, none⟩⟩ ∧
      t.configurer = .configurer ⟨k, .root (.mapped ⟨e, none⟩), steps⟩ ∧
      steps.filterMap Step.filtering? = predicates.map Projection.selected ∧
      ∀ step ∈ steps, step.filtering?.isSome ∨ purpose = .update := by
  obtain ⟨session, s, m, m', ops, start, chain, rfl, only⟩ := h
  obtain ⟨-, ⟨id, hq⟩, ⟨id', hk⟩⟩ := exec_ofEntity start
  obtain ⟨k, goes⟩ := chain.continues.configurer _ hk
  rw [hq] at goes
  refine ⟨id, _, k, chain.continues.queryType.trans hq, goes, ?_, fun step hs => ?_⟩
  · rw [List.nil_append, StreamOp.steps, List.filterMap_filterMap, List.map_filterMap]
    exact congrArg (ops.filterMap ·) (funext (StreamOp.filtering?_step _))
  · obtain ⟨op, mem, hop⟩ := List.mem_filterMap.mp hs
    have same := StreamOp.filtering?_step ⟨id, purpose, .mapped ⟨e, none⟩⟩ op
    rw [hop, Option.bind_some] at same
    rcases only op mem with filters | ⟨update, -⟩
    · exact .inl (by rw [same, Option.isSome_map, filters])
    · exact .inr update

/-- A build of the stream on `m` can be compared with builds that began on `b`: where the footprint
reaches, what the predicates read, `m` still holds what `b` held. Along the build the functions among
the predicates get hold of no query context, and assignments succeed and leave alone what the
predicates read and the restriction. -/
structure Stream.Comparable (F : Footprint) (b m : Machine) (depth : Nat) (t : Stream) : Prop where
  known : ∃ W, m.Known W ∧ t.Known W
  retains : b.Retains F m
  aside : ∀ o k v n, Terminal.criteria.opening t m = .ok o → t.configurer = .configurer k →
    exec (k.origin.select (callAny (eval depth)) o.builder m.nextQuery) (o.inside m) = (.ok v, n) →
    StandAside F depth o.builder m.nextContext v k.steps n

/-! ### Products that have a review of five stars -/

namespace Catalog

/-- A stream over the products, with the steps of its chain. -/
def products (purpose : Purpose) (id : Nat) (steps : List Step) : Stream :=
  ⟨id, .of purpose, .session ⟨1, ⟨some [], none, none⟩⟩,
    .queryType ⟨2, purpose, .mapped ⟨.product, none⟩⟩,
    .configurer ⟨id - 1, .root (.mapped ⟨.product, none⟩), steps⟩, .unset, .unset, [], []⟩

/-- The step of a filter over the products. -/
def filtering (purpose : Purpose) (predicate : Closure) : Step :=
  .filter (.queryType ⟨2, purpose, .mapped ⟨.product, none⟩⟩) (.function (.closure predicate))

/-- The machine with only its session, on which numbers below this one are in use. -/
def machine (next : Nat) : Machine := { Machine.start ⟨false, false, false⟩ with next := next }

variable {purpose : Purpose} {predicates : List Value} {id : Nat} {steps : List Step}

/-- The reviews of five stars. -/
def fiveStars : Stream :=
  let five : Closure :=
    ⟨5, ["r"], .compare .eq (.get (.variable "r") "rating") (.literal (.int 5)), []⟩
  ⟨8, .of .search, .session ⟨1, ⟨some [], none, none⟩⟩,
    .queryType ⟨6, .search, .mapped ⟨.review, none⟩⟩,
    .configurer ⟨7, .root (.mapped ⟨.review, none⟩),
      [.filter (.queryType ⟨6, .search, .mapped ⟨.review, none⟩⟩) (.function (.closure five))]⟩,
    .unset, .unset, [], []⟩

/-- The predicate of products that cost something, while there are reviews of five stars. -/
def reviewed : Closure :=
  ⟨9, ["p"], .connect .and [.call (.variable "reviews") "exists" ⟨[], []⟩,
    .compare .gt (.get (.variable "p") "price") (.literal (.int 0))], [("reviews", .stream fiveStars)]⟩

/-- The reviewed products, each given its own name again. -/
def renamed : Stream :=
  products .update 13 [.assign (.text 0 "name") (.text 0 "name"), filtering .update reviewed]

/-- When these streams and one over the products were made. -/
def moment (t : Stream) : Moment :=
  ⟨(machine 14).extent, fun n => if n = 8 then some fiveStars else if n = t.id then some t else none⟩

variable {t : Stream}

theorem given {n : Nat} (h : n < 14) : (moment t).Given n := h

end Catalog

/-! ### What is told of a build -/

/-- The query of a build over an entity can be shown, and so can its stream. -/
theorem Stream.exec_report {s : Stream} {id : Nat} {purpose : Purpose} {e : Entity} {n : Machine}
    {c : ContextId} {x : Context} (hs : s.queryType = .queryType ⟨id, purpose, .mapped ⟨e, none⟩⟩)
    (hx : n.context? c = some x) (spans : x.kind.IsOver purpose (.mapped ⟨e, none⟩)) :
    ∃ line, exec (s.report (.context c)) n = (.ok line, n) := by
  have query : ∃ text, (Value.context c).shown? n = some text := by
    change ∃ text, Value.shownTo n [] (999 + 1) _ = some text
    unfold Value.shownTo
    simp only [hx]
    obtain ⟨restriction, kind⟩ := x
    cases purpose with
    | search | delete =>
      obtain rfl := spans
      exact ⟨_, rfl⟩
    | update =>
      obtain ⟨assignments, rfl⟩ := spans
      exact ⟨_, rfl⟩
  have stream : ∃ text, (Value.stream s).shown? n = some text := by
    change ∃ text, Value.shownTo n [] (998 + 1 + 1) _ = some text
    unfold Value.shownTo
    simp only [hs]
    exact ⟨_, rfl⟩
  obtain ⟨text, shown⟩ := query
  obtain ⟨text', shown'⟩ := stream
  have first : exec (shownNow (.context c)) n = (.ok text, n) := by rw [exec_shownNow, shown]
  have second : exec (shownNow (.stream s)) n = (.ok text', n) := by rw [exec_shownNow, shown']
  exact ⟨_, (exec_bind_of_ok first _).trans (exec_bind_of_ok second _)⟩

/-! ### Builds -/

section Builds

variable {F : Footprint} {b m : Machine} {W₀ : Moment} {t : Stream} {purpose : Purpose} {e : Entity}
  {predicates : List Value} {depth : Nat}

/-- Filters on their own: what every build of a stream with these predicates can be compared with. -/
def Machine.rehearsal (b : Machine) (e : Entity) (predicates : List Value) (depth : Nat) :
    Except Error Value × Machine :=
  exec (Step.applyAll (aloofCall depth) (.criteriaBuilder b.next) b.nextQuery (.mapped ⟨e, none⟩)
    ((predicates.map Projection.selected).map
      (Step.filter (.queryType ⟨0, .search, .mapped ⟨e, none⟩⟩)))) b.rehearsing

theorem Projection.selected_made {v : Value} (h : v.Known W₀) : Made W₀.extent (selected v) := by
  intro ρ hρ
  have fixed := h.fixed hρ
  cases v <;> first
    | exact congrArg Projection.named fixed
    | exact congrArg Projection.function fixed

theorem Projection.selected_within {v : Value} (h : v.Within F) : (selected v).Within F := by
  cases v <;> exact h

/-- The steps of a filtered stream are prepared if its predicates are. -/
theorem Prepared.of_filters {w : Moment} {c : ContextId} {builder : Value} {steps : List Step}
    (known : b.Known W₀) (reads : ∀ p ∈ predicates, p.Known W₀ ∧ p.Within F)
    (same : steps.filterMap Step.filtering? = predicates.map Projection.selected)
    (le : b.extent.Le w.extent) (hb : builder.Known w) (query : (Value.context c).Known w)
    (stepsKnown : ∀ step ∈ steps, step.Known w) :
    Prepared F b w c builder (.mapped ⟨e, none⟩) steps where
  le := le
  builder := hb
  query := query
  selection := fun _ _ => rfl
  known := stepsKnown
  made := fun _ _ => rfl
  within := trivial
  predicates p hp := by
    rw [same] at hp
    obtain ⟨v, hv, rfl⟩ := List.mem_map.mp hp
    rw [← known.extent]
    exact ⟨Projection.selected_made (reads v hv).1, Projection.selected_within (reads v hv).2⟩

/-- A build fails as the filters on their own do, or restricts its query as they do. -/
theorem Stream.Comparable.follows (known : b.Known W₀) (covers : F.Covers b)
    (reads : ∀ p ∈ predicates, p.Known W₀ ∧ p.Within F)
    (filtered : t.FilteredBy purpose e predicates) (comparable : t.Comparable F b m depth) :
    let call := callAny (eval depth)
    (∀ err l, b.rehearsal e predicates depth = (.error err, l) →
      ∃ m', exec (t.toContext call) m = (.error err, m')) ∧
    ∀ v l, b.rehearsal e predicates depth = (.ok v, l) → ∃ ρ x y,
      l.context? b.nextContext = some x ∧ ρ.Fixes b.extent ∧ t.Builds call m y ∧
      y.restriction = x.restriction.rename ρ ∧ y.kind.IsOver purpose (.mapped ⟨e, none⟩) := by
  intro call
  let entity : Value := .mapped ⟨e, none⟩
  obtain ⟨W, machine, stream⟩ := comparable.known
  obtain ⟨id, steps, k, type, configurer, same, only⟩ := filtered.exists_steps
  let T : QueryType := ⟨id, purpose, entity⟩
  have parts := stream.parts
  have typeKnown : T.Known W := by
    have := parts.queryType
    rwa [type] at this
  have stepsKnown : ∀ step ∈ steps, step.Known W := by
    have := parts.configurer
    rw [configurer] at this
    exact Step.allKnown_iff.mp this.2.2
  -- from what the build sets up to its first step
  have opened : Terminal.criteria.opening t m = .ok ⟨.criteriaBuilder m.next,
      after T.createContext { m with next := m.next + 1 }⟩ := by
    unfold Terminal.opening
    dsimp only
    rw [type]
  obtain ⟨w, ρ, since, builder, query, began⟩ :=
    Follows.begun known covers comparable.retains machine typeKnown
  have le : b.extent.Le w.extent := comparable.retains.extent.trans (machine.extent ▸ since.extent)
  obtain ⟨n, σ, w', rooted, root, began⟩ :=
    began.rooted covers le builder query (fun _ _ => rfl) rfl (by cases e <;> rfl) depth
  have ready : Prepared F b w m.nextContext (.criteriaBuilder m.next) entity steps :=
    .of_filters known reads same le builder query fun step hs => (stepsKnown step hs).mono since
  have aside := comparable.aside _ _ _ n opened configurer rooted
  -- from its first step to its last
  have configures :
      exec (configure call t.configurer (.criteriaBuilder m.next) m.nextQuery) (T.begun m) =
        exec (Step.applyAll call (.criteriaBuilder m.next) m.nextQuery entity steps) n := by
    rw [configurer]
    exact exec_bind_of_ok rooted _
  obtain ⟨fails, goes⟩ := began.applyAll covers ⟨0, .search, entity⟩ ready aside
  rw [same] at fails goes
  refine ⟨fun err l failed => ?_, fun v l went => ?_⟩
  · obtain ⟨n', failed⟩ := fails err l failed
    exact Terminal.exec_run_of_error (T := .criteria) opened (configures.trans failed)
  · obtain ⟨n', ρ', w'', ran, follows⟩ := goes v l went
    obtain ⟨x, y, hx, hy, seen⟩ := follows.seen
    obtain ⟨y', hy', spans⟩ := aside.isRooted (t := T) only root ran
    obtain rfl := Option.some.inj (hy.symm.trans hy')
    obtain ⟨z, m₂, selected, hz, restriction, spans⟩ := T.exec_select_isOver hy spans rfl
    have configured : t.Configures call m _ entity n' := ⟨opened, configures.trans ran⟩
    refine ⟨ρ', x, z, hx, follows.fixes, ?_, ?_, spans⟩
    · exact configured.builds type selected hz fun n _ hn => .inr (t.exec_report type hn spans)
    · exact restriction.trans (seen.restriction Context.restriction_bare).eq

end Builds

end FluentQuery
