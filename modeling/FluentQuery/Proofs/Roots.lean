import FluentQuery.Proofs.Meaning
import FluentQuery.Proofs.Repetition
import FluentQuery.Proofs.Roots.History

/-! Roots never collide. At every moment of a program, whatever query contexts list are aliases that
the calls made which entered them, and no two of them are one; only the first root of a query that is
no subquery is the object it was asked for. So a query shares nothing with what is nested in it. -/

namespace FluentQuery

open Sql

variable {m m' : Machine} {c : ContextId} {call : Call} {s : Stream} {v : Value}

/-! ### The calls of a program -/

namespace ContextId

/-- A root that is given is entered, but for that of a bulk statement. -/
theorem addRoot_enters {entity given : Value} (h : exec (c.addRoot entity) m = (.ok given, m')) :
    c.Enters m (.root entity given) m' ∨ m' = m ∧ (m.context? c).any (·.target?.isSome) := by
  unfold addRoot at h
  obtain ⟨x, m₁, read, h⟩ := exec_bind_eq_ok.mp h
  rw [exec_readContext] at read
  split at read
  · rename_i y hx
    obtain ⟨hxy, rfl⟩ := Prod.mk.inj read
    obtain rfl := Except.ok.inj hxy
    split at h
    · rename_i target bulk
      right
      refine ⟨?_, by simp [hx, bulk]⟩
      split at h
      · exact (exec_pure_eq_ok.mp h).2.symm
      · obtain ⟨_, _, _, h⟩ := exec_bind_eq_ok.mp h
        obtain ⟨_, _, _, h⟩ := exec_bind_eq_ok.mp h
        cases h
    · exact .inl (.root h)
  · cases read

/-- What is joined is entered. -/
theorem join_enters {owner key outer : Value} (h : exec (c.join owner key outer) m = (.ok v, m')) :
    ∃ correlated target m₁, v = .mapped target ∧ Idling m m₁ ∧
      c.Enters m₁ (.join correlated target) m' := by
  obtain ⟨x, owner', r, m₁, -, -, resolved, -, h⟩ := exec_join_eq_ok h
  have idling : Idling m m₁ := (resolveRelationship_keeps _ _).of_exec resolved
  obtain ⟨a, b, truth, -, joined, -⟩ := exec_growJoin_eq_ok h
  obtain ⟨rfl, -⟩ := Context.join_listing joined
  exact ⟨_, _, m₁, rfl, idling, .join h⟩

end ContextId

/-! ### Programs -/

theorem runSteps_onward (steps : List ProgramStep) (m : Machine) :
    m.Onward (runSteps steps m).2 := by
  induction steps generalizing m with
  | nil => exact Inert.refl m
  | cons step steps ih =>
    rw [runSteps_cons]
    have cleared : m.Onward { m with trace := [], log := [] } := .of_contexts (Nat.le_refl _) rfl
    exact (cleared.trans (step.run_keeps _)).trans (ih _)

/-- An alias that is known has been given its number. -/
theorem Machine.Known.alias_lt {w : Moment} (hm : m.Known w) {e : Entity} {n : Nat}
    (h : (Value.mapped ⟨e, some n⟩).Known w) : n < m.next := by
  by_contra later
  have le : m.extent.Le { m with next := m.next + 1 }.extent := ⟨Nat.le_succ _, fun _ => Nat.le_refl _⟩
  -- A renaming that only moves numbers that were not given away yet would move this one.
  let ρ := Renaming.resume m.extent _ le hm.positive
  have fixed : rename ρ (Mapped.mk e (some n)) = ⟨e, some n⟩ :=
    h ρ (hm.extent ▸ Renaming.resume_fixes le hm.positive)
  have moved : ρ.number n = n := Option.some.inj (congrArg Mapped.alias? fixed)
  change Renaming.shift m.next (m.next + 1) n = n at moved
  unfold Renaming.shift at moved
  split at moved <;> omega

/-! ### Searches -/

/-- The stream is a search for an entity: its configuration begins with a root for it. -/
def Stream.Searches (s : Stream) (entity : Value) : Prop :=
  ∃ t id steps, s.queryType = .queryType t ∧ t.purpose = .search ∧
    s.configurer = .configurer ⟨id, .root entity, steps⟩

/-- If the entity of a search that a program holds is an alias, it has been made. -/
theorem Stream.Searches.alias_lt {entity : Value} (h : s.Searches entity) {settings : Diagnostics}
    {steps : List ProgramStep} {name : String}
    (held : (runSteps steps (.start settings)).2.globals.lookup name = some (.stream s))
    {e : Entity} {n : Nat} (he : entity = .mapped ⟨e, some n⟩) :
    n < (runSteps steps (.start settings)).2.next := by
  obtain ⟨w, -, known⟩ := runSteps_known steps (Machine.start_known settings)
  have made : s.Known w := known_of_lookup (fun x hx => (known.globals x hx).2) held
  obtain ⟨id, kind, session, queryType, configurer, firstResult, maxResults, params, options⟩ := s
  obtain ⟨t, id', steps', -, -, hc⟩ := h
  obtain ⟨-, -, -, configured, -⟩ := made
  obtain rfl : configurer = .configurer ⟨id', .root entity, steps'⟩ := hc
  obtain ⟨-, root, -⟩ := configured
  subst he
  exact known.alias_lt root

/-- A search configures its query, and goes on from there. -/
theorem Stream.exec_toContext_onward {t : QueryType} (ht : s.queryType = .queryType t)
    (hp : t.purpose = .search) (h : exec (s.toContext call) m = (.ok v, m')) :
    ∃ w m₁, exec (configure call s.configurer (.criteriaBuilder m.next) m.nextQuery) m.begun =
      (.ok w, m₁) ∧ m₁.Onward m' := by
  obtain ⟨w, m₁, m₂, configured, selected, logged⟩ := exec_toContext_phases ht h
  rw [QueryType.createContext_search hp] at configured
  refine ⟨w, m₁, configured, ?_⟩
  have left : m₁.Onward m₂ := (QueryType.select_keeps t _ _).of_exec selected
  refine left.trans (Machine.Onward.trans ?_ logged)
  exact .of_contexts (by rw [Machine.next_logged]) (by rw [Machine.contexts_logged])

section Builds

variable {entity : Value} (keeps : ∀ f args, Keeps Machine.Onward (call f args))

include keeps

/-- A search gives its query the entity as its first root, and goes on from there. -/
theorem Stream.toContext_onward (searches : s.Searches entity)
    (h : exec (s.toContext call) m = (.ok v, m')) :
    m.Onward (m.opened entity) ∧ (m.opened entity).Onward m' := by
  obtain ⟨t, id, steps, ht, hp, hc⟩ := searches
  obtain ⟨w, m₁, configured, later⟩ := exec_toContext_onward ht hp h
  rw [hc, configure, Configurer.run] at configured
  obtain ⟨root, m₂, rooted, configured⟩ := exec_bind_eq_ok.mp configured
  replace rooted : exec (ContextId.addRoot ⟨m.contexts.length⟩ entity) m.begun = (.ok root, m₂) :=
    rooted
  have search : m.begun.context? ⟨m.contexts.length⟩ = some .query := by
    simp [Machine.context?, Machine.begun, Machine.entered]
  have nonnull : entity.isNull = false := by
    rcases ContextId.addRoot_enters rooted with ⟨⟨grown⟩⟩ | ⟨-, bulk⟩
    · obtain ⟨x, y, -, added, -⟩ := ContextId.exec_growRoot_eq_ok grown
      exact Context.isNull_of_addRoot added
    · rw [search] at bulk
      cases bulk
  obtain ⟨-, rfl⟩ := Prod.mk.inj ((exec_firstRoot nonnull).symm.trans rooted)
  have blank : m.Onward (after (ContextId.new .query) { m with next := m.next + 1 }) :=
    (Inert.fresh (R := Machine.Onward) m).trans (Creating.newContext .query _)
  have begun : m.Onward m.begun := Invariant.entered blank _ _
  exact ⟨begun.trans ((ContextId.addRoot_keeps _ _).of_exec rooted),
    ((Step.applyAll_keeps keeps _ _ _ _).of_exec configured).trans later⟩

theorem Terminal.run_onward {T : Terminal} (own : T.nests = false) (searches : s.Searches entity)
    (h : exec (T.run call s) m = (.ok v, m')) :
    m.Onward (m.opened entity) ∧ (m.opened entity).Onward m' := by
  cases T with
  | subquery | existence => cases own
  | criteria => exact s.toContext_onward keeps searches h
  | query =>
    obtain ⟨t, -, -, ht, -⟩ := id searches
    change exec (s.toQuery call) m = _ at h
    unfold Stream.toQuery at h
    simp only [ht] at h
    obtain ⟨q, m₁, built, h⟩ := exec_bind_eq_ok.mp h
    obtain ⟨opened, context⟩ := s.toContext_onward keeps searches built
    refine ⟨opened, context.trans (Keeps.of_exec ?_ h)⟩
    grind

/-- A search whose entity, if it is an alias, was made before shares nothing with what is nested in
its query. -/
theorem Terminal.run_disjoint {T : Terminal} (own : T.nests = false) (searches : s.Searches entity)
    (made : ∀ e n, entity = .mapped ⟨e, some n⟩ → n < m.next) (apart : m.Apart)
    (h : exec (T.run call s) m = (.ok v, m')) :
    ∃ k, m'.listing? m.nextContext = some k ∧ k.nested = false ∧ k.roots.head? = some entity ∧
      ∀ c l, m'.listing? c = some l → l.nested = true → m.listing? c = none →
        l.objects.Disjoint k.objects := by
  obtain ⟨opened, later⟩ := run_onward keeps own searches h
  obtain ⟨calls, follows⟩ := opened.trans later
  obtain ⟨more, follows'⟩ := later
  have first : (m.opened entity).listing? m.nextContext = some ⟨false, [entity], [], []⟩ := by
    simp [Machine.listing?, Machine.context?, Machine.opened, Machine.nextContext, Context.listing,
      Context.isSubquery, Context.correlated, ContextKind.body?, SelectBody.empty]
  obtain ⟨k, hk, grown⟩ := follows'.grows first
  have single : k.nested = false := grown.nested
  have head : k.roots.head? = some entity := by
    obtain ⟨rest, hr⟩ := grown.roots
    rw [← hr]
    rfl
  refine ⟨k, hk, single, head, fun c l hl nested new v hv hv' => ?_⟩
  rw [Listing.objects_eq_created nested] at hv
  rcases Listing.mem_created hv' with created | ⟨-, root⟩
  · have differ : c ≠ m.nextContext := by
      rintro rfl
      rw [Option.some.inj (hl.symm.trans hk), single] at nested
      cases nested
    exact (follows.apart apart).disjoint _ _ _ _ hl hk differ hv created
  · obtain rfl := Option.some.inj (head.symm.trans root)
    obtain ⟨e, n, he, old, -⟩ := (follows.mints hl hv (by simp [new])).numbered
    exact absurd (made e n he) (Nat.not_lt_of_le old)

end Builds

/-- Whatever a program does, the machine has a history at every moment, so no look that does nothing
on machines with a history changes a program. A call that succeeds adds to it. By any history each
query context lists what the calls on it entered: the first root of a query that is not nested is the
first object it was asked a root for, what is correlated are distinct objects in the order of their
first correlation, and all else are aliases, each made by a call on this query context. No two of
them are one. So a nested query shares nothing with another nested one, and with any other query at
most the first root that the program chose for it. A search shares nothing with what is nested in its
query; if its entity is an alias, that has been made before, as it has for each search that a program
holds. -/
theorem roots_never_collide (settings : Diagnostics) :
    let start := Machine.start settings
    (∀ look : Run Unit, (∀ calls m, start.Follows calls m → exec look m = (.ok (), m)) →
      ∀ steps, Eval.runProgram (observed look nestingLimit) settings steps =
        runProgram settings steps) ∧
    (∀ steps, ∃ calls, start.Follows calls (runSteps steps start).2) ∧
    (∀ steps name s entity, (runSteps steps start).2.globals.lookup name = some (.stream s) →
      s.Searches entity → ∀ e n, entity = .mapped ⟨e, some n⟩ → n < (runSteps steps start).2.next) ∧
    (∀ (c : ContextId) (entity given : Value) (m m' : Machine),
      exec (c.addRoot entity) m = (.ok given, m') →
        c.Enters m (.root entity given) m' ∨ m' = m ∧ (m.context? c).any (·.target?.isSome)) ∧
    (∀ (c : ContextId) (owner key outer v : Value) (m m' : Machine),
      exec (c.join owner key outer) m = (.ok v, m') →
        ∃ correlated target m₁, v = .mapped target ∧ Idling m m₁ ∧
          c.Enters m₁ (.join correlated target) m') ∧
    ∀ calls m, start.Follows calls m →
      (∀ c l, m.listing? c = some l → l.Records (itemsAt c calls) ∧
        ∀ v ∈ l.created, start.Mints calls m c v) ∧
      m.Apart ∧
      (∀ c d l k v, m.listing? c = some l → m.listing? d = some k → c ≠ d → l.nested = true →
        v ∈ l.objects → v ∈ k.objects → k.nested = false ∧ k.roots.head? = some v) ∧
      ∀ (depth : Nat) (T : Terminal) (s : Stream) (entity v : Value) (m' : Machine),
        T.nests = false → s.Searches entity → (∀ e n, entity = .mapped ⟨e, some n⟩ → n < m.next) →
        exec (T.run (callAny (eval depth)) s) m = (.ok v, m') →
          ∃ k, m'.listing? m.nextContext = some k ∧ k.nested = false ∧ k.roots.head? = some entity ∧
            ∀ c l, m'.listing? c = some l → l.nested = true → m.listing? c = none →
              l.objects.Disjoint k.objects := by
  intro start
  have empty : start.contexts = [] := rfl
  refine ⟨fun look quiet => ?_, fun steps => runSteps_onward steps start,
    fun steps name s entity held searches e n => searches.alias_lt held,
    fun c entity given m m' => ContextId.addRoot_enters,
    fun c owner key outer v m m' => ContextId.join_enters, fun calls m follows => ?_⟩
  · have quiet' (m : Machine) (h : start.Onward m) : exec look m = (.ok (), m) := by
      obtain ⟨calls, follows⟩ := h
      exact quiet calls m follows
    exact runProgram_observed quiet' settings (Inert.refl start)
  have apart : m.Apart := follows.apart (.of_contexts empty)
  refine ⟨fun c l hl => ⟨(follows.records empty c).1 l hl, fun v hv => ?_⟩, apart,
    fun c d l k v hl hk differ nested => apart.shared hl hk differ nested,
    fun depth T s entity v m' own searches made => ?_⟩
  · exact follows.mints hl hv fun l₀ hl₀ => by
      simp [Machine.listing?, Machine.context?, empty] at hl₀
  · exact T.run_disjoint (fun f args => callAny_eval_keeps depth f args) own searches made apart

/-- Reviews embedded twice in a search for products, one of them inside another subquery: the query
and its three subqueries share nothing. -/
theorem roots_never_collide_embedded :
    let product : Value := .mapped ⟨.product, none⟩
    let review : Value := .mapped ⟨.review, none⟩
    let stream (entity : Value) (steps : List Step) : Stream :=
      ⟨0, .of .search, .null, .queryType ⟨0, .search, entity⟩, .configurer ⟨0, .root entity, steps⟩,
        .unset, .unset, [], []⟩
    let exist (name : String) : Expr := .call (.variable name) "exists" ⟨[], []⟩
    let filter (body : Expr) (scope : Scope) : Step :=
      .filter (.queryType ⟨0, .search, product⟩) (.function (.closure ⟨0, ["x"], body, scope⟩))
    let reviews := stream review []
    let reviewed := stream review [filter (exist "reviews") [("reviews", .stream reviews)]]
    let s := stream product [filter (.connect .and [exist "reviews", exist "reviewed"])
      [("reviews", .stream reviews), ("reviewed", .stream reviewed)]]
    let m := Machine.start ⟨false, false, false⟩
    ∃ v m' calls k, exec (s.toContext (callAny (eval 5))) m = (.ok v, m') ∧ m.Follows calls m' ∧
      m'.contexts.map (fun x => (x.listing.nested, x.listing.roots.length)) =
        [(false, 1), (true, 1), (true, 1), (true, 1)] ∧
      m'.listing? ⟨0⟩ = some k ∧ k.roots.head? = some product ∧
      (∀ c l, m'.listing? c = some l → l.nested = true → l.objects.Disjoint k.objects) ∧
      ∀ c d l₁ l₂, m'.listing? c = some l₁ → m'.listing? d = some l₂ → c ≠ d → l₁.nested = true →
        l₂.nested = true → l₁.objects.Disjoint l₂.objects := by
  intro product review stream exist filter reviews reviewed s m
  obtain ⟨v, m', built, listed⟩ := exec_of_check (m := m) (x := s.toContext (callAny (eval 5)))
    (fun _ m' => m'.contexts.map (fun x => (x.listing.nested, x.listing.roots.length)) ==
      [(false, 1), (true, 1), (true, 1), (true, 1)]) (by decide +kernel)
  obtain ⟨calls, follows⟩ : m.Onward m' :=
    (s.toContext_keeps fun f args => callAny_eval_keeps 5 f args).of_exec built
  obtain ⟨-, -, -, -, -, told⟩ := roots_never_collide ⟨false, false, false⟩
  obtain ⟨-, -, -, search⟩ := told [] m .start
  have plain (e : Entity) (n : Nat) (other : product = .mapped ⟨e, some n⟩) : n < m.next := by
    simp [product] at other
  obtain ⟨k, hk, -, head, disjoint⟩ := search 5 .criteria s product v m' rfl
    ⟨_, _, _, rfl, rfl, rfl⟩ plain built
  obtain ⟨-, -, shared, -⟩ := told calls m' follows
  refine ⟨v, m', calls, k, built, follows, eq_of_beq listed, hk, head, fun c l hl nested => ?_, ?_⟩
  · exact disjoint c l hl nested rfl
  · intro c d l₁ l₂ hc hd differ first second u hu hu'
    have single := (shared c d l₁ l₂ u hc hd differ first hu hu').1
    rw [second] at single
    cases single

end FluentQuery
