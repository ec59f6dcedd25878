import FluentQuery.Proofs.Arranging
import FluentQuery.Proofs.Nesting
import FluentQuery.Proofs.Roots

/-! Streams that begin at a root of an enclosing query. A build of such a stream looks for its query
on top of the construction stack. It finds the one it has just put there: as a query of its own that
is no subquery, so the build is refused; as a subquery it is correlated with the root, and no other
query is. -/

namespace FluentQuery

variable {α β : Type} {m m' : Machine} {c : ContextId} {root : Value}

/-! ### One query context -/

/-- What the query context at an address is correlated with. -/
def Machine.correlated? (m : Machine) (c : ContextId) : Option (List Value) :=
  (m.context? c).map (·.correlated)

/-- Every other query context is as it was, and this one is correlated with what it was. -/
structure Confined (c : ContextId) (m m' : Machine) : Prop where
  others : ∀ d, d ≠ c → m'.context? d = m.context? d
  own : m'.correlated? c = m.correlated? c

namespace Confined

theorem of_contexts (h : m'.contexts = m.contexts) : Confined c m m' := by
  have same (d : ContextId) : m'.context? d = m.context? d := congrArg (·[d.index]?) h
  exact ⟨fun d _ => same d, by rw [Machine.correlated?, same, Machine.correlated?]⟩

theorem of_set {x y : Context} (hx : m.context? c = some x) (hy : y.correlated = x.correlated) :
    Confined c m { m with contexts := m.contexts.set c.index y } := by
  refine ⟨fun d hd => context?_set_of_ne hd m y, ?_⟩
  rw [Machine.correlated?, context?_set hx, Machine.correlated?, hx, Option.map_some, Option.map_some, hy]

instance : Inert (Confined c) := .of_contexts (fun _ => of_contexts) fun h h' =>
  ⟨fun d hd => (h'.others d hd).trans (h.others d hd), h'.own.trans h.own⟩

/-- Steps of a configuration correlate nothing. -/
theorem tells (c : ContextId) : KeepsTold (Confined c) c where
  change hf := .update fun hx hy => of_set hx (congrArg Listing.correlated (hf.listing hy))
  growRoot entity := Keeps.bind Inert.fresh fun _ => .updateGet fun hx hy =>
    of_set hx (congrArg Listing.correlated (Context.addRoot_listing hy).2)
  growJoin correlated owner r outer := Keeps.bind Inert.fresh fun _ => Keeps.bind .get fun _ =>
    .updateGet fun hx hy => by
      have entered := congrArg Listing.correlated (Context.join_listing hy).2.2
      cases correlated <;> exact of_set hx entered

end Confined

/-- What a build does by itself: nothing is traced, bound or assigned, and query contexts stay as they
are but for this one, which is only added to and is correlated with what it was. -/
structure Embedding (c : ContextId) (m m' : Machine) : Prop where
  silent : Silent m m'
  confined : Confined c m m'
  onward : m.Onward m'

namespace Embedding

instance : Inert (Embedding c) where
  refl m := ⟨Inert.refl m, Inert.refl m, Inert.refl m⟩
  trans h h' := ⟨Inert.trans h.silent h'.silent, Inert.trans h.confined h'.confined,
    Inert.trans h.onward h'.onward⟩
  fresh m := ⟨Inert.fresh m, Inert.fresh m, Inert.fresh m⟩
  newMapping fields m := ⟨Inert.newMapping fields m, Inert.newMapping fields m, Inert.newMapping fields m⟩
  log line m := ⟨Inert.log line m, Inert.log line m, Inert.log line m⟩
  handle v m := ⟨Inert.handle v m, Inert.handle v m, Inert.handle v m⟩

theorem tells (c : ContextId) : KeepsTold (Embedding c) c where
  change hf m := ⟨(Composing.tells c).change hf m, (Confined.tells c).change hf m,
    (Composing.tells c).change hf m⟩
  growRoot entity m := ⟨(Composing.tells c).growRoot entity m, (Confined.tells c).growRoot entity m,
    (Composing.tells c).growRoot entity m⟩
  growJoin k o r v m := ⟨(Composing.tells c).growJoin k o r v m, (Confined.tells c).growJoin k o r v m,
    (Composing.tells c).growJoin k o r v m⟩

theorem left (m outer : Machine) (c : ContextId) : Embedding c m (m.left outer c) where
  silent := .left m outer c
  confined := .of_contexts (Machine.contexts_logged _ _)
  onward := .of_contexts (by rw [Machine.left, Machine.next_logged]) (Machine.contexts_logged _ _)

end Embedding

/-! ### The root -/

/-- The stream begins at this root of an enclosing query. -/
def Stream.BeginsAt (s : Stream) (root : Value) : Prop :=
  ∃ t id steps, s.queryType = .queryType t ∧ t.purpose = .search ∧
    s.configurer = .configurer ⟨id, .correlated root, steps⟩ ∧ root.isNull = false

theorem Stream.beginsAt_of_ofRoot {session : Value} {s t : Stream} {ops : List StreamOp}
    (start : exec (Stream.ofRoot session root) m = (.ok s, m')) (chain : s.Chained ops t) :
    t.BeginsAt root := by
  obtain ⟨⟨k, e, queryType⟩, id, configurer⟩ := exec_ofRoot start
  obtain ⟨id', extended⟩ := chain.continues.configurer _ configurer
  have nonnull : root.isNull = false := Bool.eq_false_iff.mpr (exec_guarded_eq_ok.mp start).1
  exact ⟨_, id', _, chain.continues.queryType.trans queryType, rfl, extended, nonnull⟩

/-- A root that is known when the stream is, is no alias that is still to be made. -/
theorem Stream.BeginsAt.alias_lt {s : Stream} (h : s.BeginsAt root) {w : Moment} (hm : m.Known w)
    (hs : s.Known w) {e : Entity} {n : Nat} (he : root = .mapped ⟨e, some n⟩) : n < m.next := by
  obtain ⟨id, kind, session, queryType, configurer, firstResult, maxResults, params, options⟩ := s
  obtain ⟨t, id', steps, -, -, hc, -⟩ := h
  obtain ⟨-, -, -, configured, -⟩ := hs
  obtain rfl : configurer = .configurer ⟨id', .correlated root, steps⟩ := hc
  obtain ⟨-, known, -⟩ := configured
  subst he
  exact hm.alias_lt known

/-- The query context is nested and correlated with the root before anything else, and has it neither
as a root nor as the target of a join. -/
def Machine.Embeds (m : Machine) (c : ContextId) (root : Value) : Prop :=
  ∃ l, m.listing? c = some l ∧ l.nested = true ∧ l.correlated.head? = some root ∧ root ∉ l.objects

/-! ### Quiet surroundings of events -/

namespace Linked

variable {L R : Machine → Machine → Prop} {es : List Event}

/-- A relation that holds over every event and between any two leads from the start to the end. -/
theorem overall (trans : ∀ {a b c}, R a b → R b c → R a c) (h : Linked L m es m')
    (le : ∀ a b, L a b → R a b) (kept : ∀ e ∈ es, R e.before e.after) : R m m' := by
  induction h with
  | nil hl => exact le _ _ hl
  | cons hl _ ih =>
    obtain ⟨first, rest⟩ := List.forall_mem_cons.mp kept
    exact trans (le _ _ hl) (trans first (ih rest))

theorem over_rest [Inert L] {x : Run α} {f : α → Run β} (hf : ∀ a, Keeps L (f a))
    (h : Linked L m es (after x m')) : Linked L m es (after (x >>= f) m') := by
  rcases hx : exec x m' with ⟨e | a, m₁⟩
  · rw [after, exec_bind_of_error hx]
    rwa [after, hx] at h
  · rw [after_bind_of_ok hx]
    rw [after, hx] at h
    exact h.of_right (hf a m₁)

end Linked

/-- A quiet computation behind the rest. -/
theorem Makes.before {L : Machine → Machine → Prop} {call : Call} {x : Call → Run α} {es : List Event}
    {r : Except Error α} (h : Makes L call x m es r m') {f : α → Run β} (hf : ∀ a, Keeps L (f a)) :
    ∃ r' m'', Makes L call (fun k => x k >>= f) m es r' m'' := by
  cases r with
  | error e => exact ⟨_, _, .stop h⟩
  | ok a => exact ⟨_, _, by simpa using h.andThen (f := fun _ => f) (.quiet (hf a m'))⟩

/-! ### Builds -/

/-- A configuration that begins at a root of an enclosing query takes the query of the innermost frame
for its own. -/
theorem Origin.exec_correlated {call : Call} {builder query : Value} {f : Frame} {rest : List Frame}
    (hs : m.stack = f :: rest) (hf : f.query = .context c) {x : Context} (hx : m.context? c = some x) :
    exec (select call builder query (.correlated root)) m =
      exec (if x.isSubquery then do
        c.update (·.correlate root)
        return root
      else fail .notASubquery) m := by
  unfold select
  rw [exec_currentSubquery_bind hs hf, exec_bind_of_ok (exec_readContext_of_some hx)]

/-- What the build of a subquery of the query in this frame sets up. -/
def Frame.opening (f : Frame) (m : Machine) : Opening :=
  ⟨f.builder, after (ContextId.new (.subquery f.query)) m⟩

/-- What that build comes to by correlating the subquery, which is new, with the root. -/
def Machine.correlating (m : Machine) (f : Frame) (root : Value) : Machine :=
  { (f.opening m).inside m with
    contexts := m.contexts ++ [⟨.null, .subquery .empty f.query [root] []⟩] }

theorem Frame.contexts_opening (f : Frame) (m : Machine) :
    ((f.opening m).inside m).contexts = m.contexts ++ [.subquery f.query] :=
  Machine.contexts_logged _ _

theorem Origin.exec_correlating (nonnull : root.isNull = false) (call : Call) (f : Frame) (m : Machine) :
    exec (select call f.builder m.nextQuery (.correlated root)) ((f.opening m).inside m) =
      (.ok root, m.correlating f root) := by
  have hx : ((f.opening m).inside m).context? m.nextContext = some (.subquery f.query) := by
    rw [Machine.context?, f.contexts_opening]
    exact List.getElem?_concat_length
  have told : (Context.subquery f.query).correlate root =
      .ok ⟨.null, .subquery .empty f.query [root] []⟩ := by
    simp [Context.correlate, Context.subquery, Context.ofKind, nonnull]
  have updated : exec (m.nextContext.update (·.correlate root)) ((f.opening m).inside m) =
      (.ok (), m.correlating f root) := by
    refine exec_update_eq_ok.mpr ⟨_, _, hx, told, ?_⟩
    simp [Machine.correlating, f.contexts_opening, Machine.nextContext]
  rw [exec_correlated ((f.opening m).inside_stack m) rfl hx]
  exact exec_bind_of_ok updated fun _ => pure root

section Builds

variable {s : Stream} {T : Terminal} (begins : s.BeginsAt root)

include begins

/-- A query of its own is no subquery. -/
theorem Terminal.run_refuses (own : T.nests = false) (call : Call) (m : Machine) :
    ∃ m', Makes Silent call (fun k => T.run k s) m [] (.error .notASubquery) m' := by
  obtain ⟨t, id, steps, ht, hp, hc, -⟩ := begins
  let o : Opening := ⟨.criteriaBuilder m.next, after t.createContext { m with next := m.next + 1 }⟩
  have opening : T.opening s m = .ok o := by
    cases T with
    | criteria | query => simp only [Terminal.opening, ht, o]
    | subquery | existence => cases own
  have hx : (o.inside m).context? m.nextContext = some .query := by
    have contexts : (o.inside m).contexts = m.contexts ++ [.query] := by
      rw [show (o.inside m).contexts = o.machine.contexts from Machine.contexts_logged _ _]
      simp only [o, QueryType.createContext_search hp]
    rw [Machine.context?, contexts]
    exact List.getElem?_concat_length
  have refused (k : Call) : exec (Origin.select k o.builder m.nextQuery (.correlated root)) (o.inside m) =
      (.error .notASubquery, o.inside m) :=
    Origin.exec_correlated (o.inside_stack m) rfl hx
  have inside : Makes Idle call (fun k => configure k s.configurer o.builder m.nextQuery) (o.inside m)
      [] (.error .notASubquery) (o.inside m) := by
    simp only [hc, configure, Configurer.run]
    exact .stop (.of_exec (refused call) (Inert.refl _))
  obtain ⟨r, m', makes, fails, -⟩ := T.run_leads opening inside
  obtain rfl := fails _ rfl
  exact ⟨m', makes⟩

/-- A subquery is correlated with the root before anything is called. From there on the build changes
no other query, and what its own is correlated with only as the functions do that it calls. -/
theorem Stream.toSubquery_correlates {f : Frame} {rest : List Frame} (hs : m.stack = f :: rest)
    (hb : f.builder.isNull = false) (call : Call) :
    ∃ es, (∀ e ∈ es, e.Happens call) ∧
      Linked (Embedding m.nextContext) (m.correlating f root) es (after (s.toSubquery call) m) := by
  obtain ⟨t, id, steps, -, -, hc, nonnull⟩ := begins
  have tells (c : ContextId) (hq : m.nextQuery = .context c) : KeepsTold (Embedding m.nextContext) c :=
    Value.context.inj hq ▸ Embedding.tells _
  obtain ⟨es, r, m₂, run⟩ :=
    Performs.exists_run_of tells call f.builder root steps (m.correlating f root)
  obtain ⟨r', m₃, makes⟩ := run.makes.before (f := fun v => m.nextContext.update (·.select v))
    fun v => (Embedding.tells _).change (.select v)
  let body : Run Unit := do
    let v ← configure call s.configurer f.builder m.nextQuery
    m.nextContext.update (·.select v)
  have inside : exec body ((f.opening m).inside m) = (r', m₃) := by
    rw [← makes.exec_eq]
    simp only [body, hc, configure, Configurer.run, bind_assoc]
    exact exec_bind_of_ok (Origin.exec_correlating nonnull call f m) _
  have left : after (withFrame f.builder m.nextQuery fun _ => body) (f.opening m).machine =
      m₃.left (f.opening m).machine m.nextContext := by
    have framed := exec_withFrame hb m.nextContext (fun _ => body) (f.opening m).machine
    dsimp only at framed
    rw [show exec body ((f.opening m).machine.entered f.builder (.context m.nextContext)) = (r', m₃)
      from inside] at framed
    exact congrArg Prod.snd framed
  refine ⟨es, makes.happens, ?_⟩
  unfold toSubquery
  rw [after_bind_of_ok (exec_currentFrame hs), after_bind_of_ok (ContextId.exec_new _ m)]
  refine Linked.over_rest (fun _ => .pure _) ?_
  have linked := makes.linked.of_right (.left m₃ (f.opening m).machine m.nextContext)
  exact left ▸ linked

theorem Terminal.run_correlates (nests : T.nests = true) {f : Frame} {rest : List Frame}
    (hs : m.stack = f :: rest) (hb : f.builder.isNull = false) (call : Call) :
    ∃ es, (∀ e ∈ es, e.Happens call) ∧
      Linked (Embedding m.nextContext) (m.correlating f root) es (after (T.run call s) m) := by
  obtain ⟨es, happens, linked⟩ := s.toSubquery_correlates begins hs hb call
  cases T with
  | criteria | query => cases nests
  | subquery => exact ⟨es, happens, linked.over_rest fun c => c.scalar_keeps⟩
  | existence => exact ⟨es, happens, linked.over_rest fun c => c.existence_keeps⟩

end Builds

/-! ### What the subquery lists -/

theorem Machine.correlated?_correlating (m : Machine) (f : Frame) (root : Value) :
    (m.correlating f root).correlated? m.nextContext = some [root] := by
  rw [correlated?, context?, correlating, nextContext, List.getElem?_concat_length]
  rfl

/-- Aliases that a query lists are made for it, so none is one that was made before. -/
theorem Machine.Onward.embeds {f : Frame} (h : (m.correlating f root).Onward m')
    (made : ∀ e n, root = .mapped ⟨e, some n⟩ → n < m.next) : m'.Embeds m.nextContext root := by
  obtain ⟨calls, follows⟩ := h
  have first : (m.correlating f root).listing? m.nextContext = some ⟨true, [], [], [root]⟩ := by
    rw [listing?, context?, correlating, nextContext, List.getElem?_concat_length]
    rfl
  obtain ⟨l, hl, grown⟩ := follows.grows first
  refine ⟨l, hl, grown.nested, ?_, fun listed => ?_⟩
  · obtain ⟨rest, hr⟩ := grown.correlated
    rw [← hr]
    rfl
  · rw [Listing.objects_eq_created grown.nested] at listed
    obtain ⟨e, n, rfl, later, -⟩ := (follows.mints hl listed fun l₀ hl₀ => by
      obtain rfl := Option.some.inj (first.symm.trans hl₀)
      exact List.not_mem_nil).numbered
    have begun : m.next ≤ (m.correlating f (.mapped ⟨e, some n⟩)).next := by
      rw [correlating, Opening.inside, entered, next_logged]
      exact Nat.le_succ _
    exact absurd (made e n rfl) (Nat.not_lt_of_le (begun.trans later))

/-- Functions that change no query context by themselves correlate it with nothing else. -/
theorem Linked.correlated? {f : Frame} {es : List Event} {depth : Nat}
    (h : Linked (Embedding m.nextContext) (m.correlating f root) es m')
    (happens : ∀ e ∈ es, e.Happens (restrainedCall (restrained depth))) :
    m'.correlated? m.nextContext = some [root] := by
  let Correlates (m₁ m₂ : Machine) : Prop :=
    ∀ roots, m₁.correlated? m.nextContext = some roots → m₂.correlated? m.nextContext = some roots
  refine h.overall (R := Correlates) (fun h h' roots hr => h' roots (h roots hr))
    (fun a b kept roots hr => kept.confined.own.trans hr) (fun e he roots hr => ?_) _
      (m.correlated?_correlating f root)
  have spares (f : Value) (args : List Value) :
      Keeps (Spares (m.nextContext.index + 1)) (restrainedCall (restrained depth) f args) :=
    restrainedCall_spares (restrained_spares depth) f args
  obtain ⟨x, hx, -⟩ := Option.map_eq_some_iff.mp hr
  obtain ⟨there, -⟩ := List.getElem?_eq_some_iff.mp hx
  have same := (Event.Happens.keeps spares (happens e he) there).2 m.nextContext.index
    (Nat.lt_succ_self _)
  rwa [Machine.correlated?, Machine.context?, same]

/-- A stream that begins at a root of an enclosing query exists only as a subquery. As a query of its
own it is refused, on whatever stack, before any function of the chain is called. As a subquery of the
query in the frame on top of the stack, at whatever depth that is, it is correlated with the root before
anything is called; from there on nothing but the functions it calls changes another query or what any
query is correlated with. If the root is no alias still to be made, as it cannot be where the stream is
known, the subquery has it neither as a root nor as the target of a join, whatever the functions do. If
they change no query by themselves, the subquery ends up correlated with the root alone, and all queries
there were are as they were. -/
theorem substream_correlates_its_subquery (depth : Nat) {session root : Value} {s t : Stream}
    {ops : List StreamOp} {m₀ m₀' : Machine}
    (start : exec (Stream.ofRoot session root) m₀ = (.ok s, m₀')) (chain : s.Chained ops t)
    (T : Terminal) (m : Machine) :
    let call := callAny (eval depth)
    let c := m.nextContext
    let m' := after (T.run call t) m
    (T.nests = false → ∃ m', Makes Silent call (fun k => T.run k t) m [] (.error .notASubquery) m') ∧
    (T.nests = true → ∀ f rest, m.stack = f :: rest → f.builder.isNull = false →
      (∃ es, (∀ e ∈ es, e.Happens call) ∧ Linked (Embedding c) (m.correlating f root) es m' ∧
        ((∀ e n, root = .mapped ⟨e, some n⟩ → n < m.next) →
          (∀ e ∈ es, e.before.Embeds c root) ∧ m'.Embeds c root)) ∧
      (m' = after (T.run (restrainedCall (restrained depth)) t) m →
        m'.correlated? c = some [root] ∧ ∀ d x, m.context? d = some x → m'.context? d = some x)) ∧
    ∀ w, m.Known w → t.Known w → ∀ e n, root = .mapped ⟨e, some n⟩ → n < m.next := by
  intro call c m'
  have begins : t.BeginsAt root := Stream.beginsAt_of_ofRoot start chain
  refine ⟨fun own => T.run_refuses begins own call m, fun nests f rest hs hb => ⟨?_, fun innocent => ?_⟩,
    fun w hm ht e n he => begins.alias_lt hm ht he⟩
  · obtain ⟨es, happens, linked⟩ := T.run_correlates begins nests hs hb call
    have onward (e : Event) (he : e ∈ es) : e.before.Onward e.after :=
      Event.Happens.keeps (fun f args => callAny_eval_keeps depth f args) (happens e he)
    refine ⟨es, happens, linked, fun made => ⟨fun e he => ?_, ?_⟩⟩
    · exact (linked.to_before (fun _ _ h => h.onward) onward e he).embeds made
    · have last := linked.overall (R := Machine.Onward) Inert.trans (fun _ _ h => h.onward) onward
      exact last.embeds made
  · obtain ⟨es, happens, linked⟩ :=
      T.run_correlates begins nests hs hb (restrainedCall (restrained depth))
    rw [innocent]
    refine ⟨linked.correlated? happens, fun d x hx => ?_⟩
    obtain ⟨there, -⟩ := List.getElem?_eq_some_iff.mp hx
    have spared := T.run_spares (restrainedCall_spares (restrained_spares depth)) t m
      (Nat.le_refl m.contexts.length)
    exact (spared.2 d.index there).trans hx

/-- A stream of a root whose filter embeds another one of the same root, in the frame of a query. -/
theorem substream_correlates_its_subquery_twice :
    let product : Value := .mapped ⟨.product, none⟩
    let s : Stream := ⟨4, .of .search, .null, .queryType ⟨2, .search, product⟩,
      .configurer ⟨3, .correlated product, []⟩, .unset, .unset, [], []⟩
    let g : Value := .closure ⟨0, ["p"], .call (.variable "s") "exists" ⟨[], []⟩, [("s", .stream s)]⟩
    let t : Stream := { s with
      id := 6, configurer := .configurer ⟨5, .correlated product,
        [.filter (.queryType ⟨2, .search, product⟩) (.function g)]⟩ }
    let m : Machine := { Machine.start ⟨false, false, false⟩ with
      next := 7, contexts := [.query], stack := [⟨6, .criteriaBuilder 6, .context ⟨0⟩⟩] }
    let m' := after (t.existence (callAny (eval 4))) m
    m'.contexts.map (·.correlated.length) = [0, 1, 1] ∧ m'.correlated? ⟨1⟩ = some [product] ∧
      m'.Embeds ⟨1⟩ product ∧ m'.context? ⟨0⟩ = some .query := by
  intro product s g t m m'
  let begun (next : Nat) : Machine := { Machine.start ⟨false, false, false⟩ with next }
  have start : exec (Stream.ofRoot .null product) (begun 2) = (.ok s, begun 5) := rfl
  have filter : exec ((StreamOp.fluent (.filter g)).apply s) (begun 5) = (.ok t, begun 7) :=
    Stream.exec_filter_closure rfl rfl _ _
  obtain ⟨-, nested, -⟩ :=
    substream_correlates_its_subquery 4 start (.snoc .nil filter) .existence m
  obtain ⟨⟨es, -, -, embeds⟩, alone⟩ := nested rfl _ [] rfl rfl
  have made (e : Entity) (n : Nat) (other : product = .mapped ⟨e, some n⟩) : n < m.next := by
    simp [product] at other
  have same : exec (Terminal.existence.run (callAny (eval 4)) t) m =
      exec (Terminal.existence.run (restrainedCall (restrained 4)) t) m := rfl
  obtain ⟨own, others⟩ := alone (congrArg Prod.snd same)
  exact ⟨by decide +kernel, own, (embeds made).2, others ⟨0⟩ .query rfl⟩

end FluentQuery
