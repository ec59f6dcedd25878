import FluentQuery.Proofs.Spellings.Listed

/-! Equivalent spellings build equal queries. Wherever in a chain an attribute of the selection is asked
for, its name, a mapped attribute of that name and a function that reads it are the same to every
operation; a key to sort or group by can as well be listed. A name that the selection does not have
is refused by the build, at that step. -/

namespace FluentQuery

open Sql

/-! ### One spelling for another -/

namespace Stream

variable {call : Call} {T : Terminal} {m n n' : Machine} {o : Opening} {u s t : Stream}
  {op op' : StreamOp} {ops : List StreamOp} {v v' x : Value} {p : Place} {key text : String}

theorem accepted_iff (parallel : Parallel (op.apply u) (op'.apply u))
    (parallel' : Parallel (op'.apply u) (op.apply u)) (ops : List StreamOp) :
    (∃ t, u.Chained (op :: ops) t) ↔ ∃ t, u.Chained (op' :: ops) t :=
  ⟨fun ⟨_, chain⟩ => chain.exists_respelled parallel,
    fun ⟨_, chain⟩ => chain.exists_respelled parallel'⟩

/-- A place accepts one attribute or function as well as another. -/
theorem accepts_iff (p : Place) (hv : v.isSelector) (hv' : v'.isSelector) (ops : List StreamOp) :
    (∃ t, u.Chained (p.op v :: ops) t) ↔ ∃ t, u.Chained (p.op v' :: ops) t :=
  accepted_iff (parallel_places p hv hv') (parallel_places p hv' hv) ops

theorem Place.step?_of_isSelector (hv : v.isSelector) (p : Place) (queryType : Value) :
    (p.op v).step? queryType = some (p.step queryType v) :=
  Place.op_step? (Value.isSelector_expressed hv) (Value.isSelector_isNull hv)

/-- Where the selection has the attribute, all its spellings can stand for one another. -/
theorem interchangeable_of_takes {a : Attribute} (takes : p.Takes call a v) (takes' : p.Takes call a v')
    (has : ∀ o x n, u.Reaches call T m o x n → ∃ e, x = .mapped e ∧ e.attribute? a.key = some a) :
    u.Interchangeable call T m (p.op v) (p.op v') where
  accepted := accepts_iff p takes.spells.isSelector takes'.spells.isSelector
  run ops t t' chain chain' := by
    refine Chained.exec_run_congr (p.isStructural v) (p.isStructural v')
      (Place.step?_of_isSelector takes.spells.isSelector p _)
      (Place.step?_of_isSelector takes'.spells.isSelector p _) (fun o x n reached => ?_) chain chain'
    obtain ⟨e, rfl, ha⟩ := has o x n reached
    rw [Place.apply_congr ha takes takes']

theorem orderBy_apply (hv : v.isSelector) (u : Stream) (ascending : Value) :
    (StreamOp.fluent (.orderBy v ascending)).apply u = (do
      u.requireUnbounded "sorting"
      u.extend (.sort (.keys [(.selected v, ascending)]))) := by
  change u.orderBy v ascending = _
  rw [orderBy, expressionSelector_eq hv, pure_bind]
  rfl

/-- One key is a list of one pair. -/
theorem orderByAttributes_apply (hv : v.isSelector) (ascending : Value) (id : Nat) :
    (StreamOp.fluent (.orderByAttributes [.tuple id [v, ascending]])).apply u =
      (StreamOp.fluent (.orderBy v ascending)).apply u := by
  change u.orderByAttributes [.tuple id [v, ascending]] = u.orderBy v ascending
  simp [Stream.orderByAttributes, Stream.orderBy, Stream.orderKeys, selector_eq hv,
    expressionSelector_eq hv]

theorem interchangeable_of_pair (hv : v.isSelector) (ascending : Value) (id : Nat) :
    u.Interchangeable call T m (.fluent (.orderBy v ascending))
      (.fluent (.orderByAttributes [.tuple id [v, ascending]])) where
  accepted := by
    refine accepted_iff ?_ ?_
    all_goals
      rw [orderByAttributes_apply hv]
      exact fun _ s _ h => ⟨s, h, .refl s⟩
  run ops t t' chain chain' := by
    have step (queryType : Value) : (StreamOp.fluent (.orderBy v ascending)).step? queryType =
        some (.sort (.keys [(.selected v, ascending)])) := by
      simp [StreamOp.step?, Fluent.step?, Value.isSelector_expressed hv]
    exact Chained.exec_run_congr ⟨rfl, rfl, rfl, rfl⟩ ⟨rfl, rfl, rfl, rfl⟩ (step _) rfl
      (fun _ _ _ _ => rfl) chain chain'

/-! ### Refused spellings -/

/-- A stream of the kind that offers all operations. -/
def IsSearch (s : Stream) : Prop := ∃ t, s.queryType = .queryType t ∧ t.purpose = .search

/-- However a chain goes on from `u` after the operation, its build fails in the frame it opened, on the
machine `n` and with the error `e`. -/
def StopsAt (call : Call) (T : Terminal) (m : Machine) (o : Opening) (u : Stream) (op : StreamOp)
    (n : Machine) (e : Error) : Prop :=
  ∀ ops t, u.Chained (op :: ops) t →
    exec (T.run call t) m = (.error e, n.left o.machine m.nextContext)

section Refusals

variable (hc : ∀ f args, Keeps Lasting (call f args)) (reached : u.Reaches call T m o x n)

include reached

theorem Reaches.stopsAt {p : Place} {e : Error} (hv : v.isSelector)
    (failed : exec ((p.step u.queryType v).apply call o.builder m.nextQuery x) n = (.error e, n')) :
    u.StopsAt call T m o (p.op v) n' e :=
  fun _ _ chain =>
    chain.exec_run_of_failed (Place.step?_of_isSelector hv p u.queryType) reached failed

include hc

/-- A search that is no subquery configures a query with a builder of its own. -/
theorem Reaches.exists_query (hT : T.nests = false) (search : u.IsSearch) :
    ∃ y, n.context? m.nextContext = some y ∧ y.isQuery ∧ o.builder.requireBuilder = pure () := by
  obtain ⟨t, ht, hp⟩ := search
  obtain ⟨t', ht', rfl⟩ := Terminal.opening_of_not_nests hT reached.opened
  have opened : Terminal.criteria.opening u m = .ok ⟨.criteriaBuilder m.next,
      after t'.createContext { m with next := m.next + 1 }⟩ := by
    simp only [Terminal.opening, ht']
  have created := reached.lasting hc _ _ (Terminal.opening_search ht hp opened)
  obtain ⟨r, b, orders, hy⟩ := Machine.exists_query_of_created? created
  exact ⟨_, hy, rfl, rfl⟩

theorem Reaches.isSelecting (search : u.IsSearch) {y : Context}
    (hy : n.context? m.nextContext = some y) : y.isSelecting := by
  cases hT : T.nests with
  | true =>
    obtain ⟨z, hz, sub⟩ := reached.exists_subquery hc hT
    obtain rfl := Option.some.inj (hy.symm.trans hz)
    obtain ⟨r, kind⟩ := y
    cases kind with
    | subquery => rfl
    | _ => cases sub
  | false =>
    obtain ⟨z, hz, isQuery, -⟩ := reached.exists_query hc hT search
    obtain rfl := Option.some.inj (hy.symm.trans hz)
    obtain ⟨r, kind⟩ := y
    cases kind with
    | query => rfl
    | _ => cases isQuery

/-- A name that the selection lacks is refused where the chain comes to it. -/
theorem Reaches.stopsAt_of_lacks (names : Names key v) (lacks : x.Lacks key) {p : Place}
    (search : p.isSearching → u.IsSearch) (outermost : p.arranging?.isSome → T.nests = false)
    {items : List Value}
    (read : exec (Ordering.clauses.ordered call o.builder x p.earlier) n = (.ok items, n'))
    (shown : x.shown? n' = some text) :
    u.StopsAt call T m o (p.op v) n' (.noAttribute text key) := by
  obtain ⟨y, hy⟩ := reached.exists_context hc
  have arranging (h : p.arranging?.isSome) :
      y.isQuery ∧ o.builder.requireBuilder = pure () := by
    have offered : p.isSearching := by cases p <;> first | rfl | cases h
    obtain ⟨z, hz, both⟩ := reached.exists_query hc (outermost h) (search offered)
    obtain rfl := Option.some.inj (hy.symm.trans hz)
    exact both
  exact reached.stopsAt names.isSelector (Place.apply_of_lacks names lacks hy
    (fun h => reached.isSelecting hc (search h) hy) arranging read shown)

/-- In a subquery an operation that arranges is refused before its name is looked up. -/
theorem Reaches.stopsAt_of_arranging (hv : v.isSelector) (hT : T.nests) {p : Place} {a : Arranging}
    (arranges : p.arranging? = some a) :
    u.StopsAt call T m o (p.op v) n (.arrangedSubquery a) := by
  obtain ⟨y, hy, sub⟩ := reached.exists_subquery hc hT
  have refuses : (p.step u.queryType v).refusal? = some (.arrangedSubquery a) := by
    cases p <;> cases arranges <;> rfl
  exact reached.stopsAt hv (Step.apply_refused (L := Idle) refuses hy sub call).exec_eq

end Refusals

/-- A join of a column is refused, whichever name the column is given by. -/
theorem Reaches.stopsAt_of_column (hc : ∀ f args, Keeps Lasting (call f args)) {e : Mapped}
    {a : Attribute} (reached : u.Reaches call T m o (.mapped e) n)
    (ha : e.attribute? a.key = some a) (names : Names a.key v)
    (column : ∀ r, a.member ≠ .relationship r) (search : u.IsSearch) (outer : Value) :
    ∃ text, u.StopsAt call T m o (Place.op v (.join outer)) n (.notRelationship text) := by
  obtain ⟨y, hy⟩ := reached.exists_context hc
  have selecting := reached.isSelecting hc search hy
  obtain ⟨text, failed⟩ := Place.exec_join_of_column ha names column hy selecting outer
  exact ⟨text, reached.stopsAt names.isSelector failed⟩

end Stream

/-! ### All spellings -/

/-- Wherever a chain comes to, with whatever operations it goes on and however it is built, an attribute
that the selection has can be spelled in every way: the chains are accepted together, and their builds
do the same. A key to sort by is the same alone and as the one pair of a list of keys. A key to sort or
group by that is listed by a function takes a number for the list and no more, and the queries are the
same up to what each build makes. A name or a mapped attribute that the selection lacks is accepted like
any other and refused by the build, at that step and as an invalid argument; only, in a subquery whatever
arranges rows is refused before. -/
theorem equivalent_spellings (u : Stream) (T : Terminal) (m : Machine) (depth : Nat) :
    let call := callAny (eval depth)
    (∀ (p : Place) (a : Attribute) (v v' : Value), p.Takes call a v → p.Takes call a v' →
      (∀ o x n, u.Reaches call T m o x n → ∃ e, x = .mapped e ∧ e.attribute? a.key = some a) →
      u.Interchangeable call T m (p.op v) (p.op v')) ∧
    (∀ (a : Attribute) (v outer : Value), Names a.key v → (∀ r, a.member ≠ .relationship r) →
      u.IsSearch → ∀ o e n, u.Reaches call T m o (.mapped e) n → e.attribute? a.key = some a →
      ∃ text, (Error.notRelationship text).errorClass = .invalidArgument ∧
        u.StopsAt call T m o (Place.op v (.join outer)) n (.notRelationship text)) ∧
    (∀ (v ascending : Value) (id : Nat), v.isSelector →
      u.Interchangeable call T m (.fluent (.orderBy v ascending))
        (.fluent (.orderByAttributes [.tuple id [v, ascending]]))) ∧
    (∀ (l : KeyListing) (v g : Value), v.isSelector → g.isNull = false →
      (∀ o x n, u.Reaches call T m o x n → l.Gathers call g v x n) →
      (∀ ops, (∃ t, u.Chained (l.direct v :: ops) t) ↔ ∃ t, u.Chained (l.listed g :: ops) t) ∧
      (∀ o x n, u.Reaches call T m o x n →
        Skips (exec ((l.directStep v).apply call o.builder m.nextQuery x) n)
          (exec ((l.listedStep g).apply call o.builder m.nextQuery x) n)) ∧
      ∀ W F ops t t', m.Known W → t.Known W → t.Within F → m.Revisited F m →
        u.Chained (l.direct v :: ops) t → u.Chained (l.listed g :: ops) t' →
        t.SameBuilds call T m t') ∧
    ∀ (p : Place) (key : String) (v : Value), Names key v → (p.isSearching → u.IsSearch) →
      (∀ w ops, w.isSelector →
        ((∃ t, u.Chained (p.op v :: ops) t) ↔ ∃ t, u.Chained (p.op w :: ops) t)) ∧
      ∀ o x n, u.Reaches call T m o x n → x.Lacks key →
        ((p.arranging?.isSome → T.nests = false) → ∀ items n',
          exec (Ordering.clauses.ordered call o.builder x p.earlier) n = (.ok items, n') →
          ∃ text, x.shown? n' = some text ∧
            (Error.noAttribute text key).errorClass = .invalidArgument ∧
            u.StopsAt call T m o (p.op v) n' (.noAttribute text key)) ∧
        ∀ a, p.arranging? = some a → T.nests →
          (Error.arrangedSubquery a).errorClass = .unsupportedCombination ∧
          u.StopsAt call T m o (p.op v) n (.arrangedSubquery a) := by
  intro call
  have lasting (f : Value) (args : List Value) : Keeps Lasting (call f args) :=
    callAny_eval_keeps depth f args
  refine ⟨fun p a v v' => Stream.interchangeable_of_takes, ?_, fun v ascending id hv =>
    Stream.interchangeable_of_pair hv ascending id, fun l v g hv hg gathers => ⟨?_, ?_, ?_⟩,
    fun p key v names search => ⟨?_, fun o x n reached lacks => ⟨?_, ?_⟩⟩⟩
  · intro a v outer names column search o e n reached ha
    obtain ⟨text, stops⟩ := reached.stopsAt_of_column lasting ha names column search outer
    exact ⟨text, rfl, stops⟩
  · obtain ⟨parallel, parallel'⟩ := KeyListing.parallel hv hg l u
    exact Stream.accepted_iff parallel parallel'
  · exact fun o x n reached => KeyListing.skips_of_reaches depth reached (gathers o x n reached)
  · intro W F ops t t' hm known within closed chain chain'
    exact KeyListing.same_builds depth hm known within closed hv chain chain' gathers
  · exact fun w ops hw => Stream.accepts_iff p names.isSelector hw ops
  · intro outermost items n' read
    obtain ⟨text, shown⟩ := Option.isSome_iff_exists.mp (lacks.shown n')
    exact ⟨text, shown, rfl, reached.stopsAt_of_lacks lasting names lacks search outermost read shown⟩
  · exact fun a arranges nested =>
      ⟨rfl, reached.stopsAt_of_arranging lasting names.isSelector nested arranges⟩

/-- Products sorted by their names: by the name of an attribute of employees, by a function, by a list of
one pair and by a function that lists the one key; and filtered by an attribute they do not have. -/
theorem equivalent_spellings_products :
    let product : Value := .mapped ⟨.product, none⟩
    let u : Stream := ⟨4, .of .search, .session ⟨1, ⟨some [], none, none⟩⟩,
      .queryType ⟨2, .search, product⟩, .configurer ⟨3, .root product, []⟩, .unset, .unset, [], []⟩
    let m : Machine := { Machine.start ⟨false, false, false⟩ with next := 9, globals := [] }
    let call := callAny (eval 8)
    let name : Value := .member ⟨⟨.employee, none⟩, .column .name⟩
    let reading : Value := .closure ⟨5, ["p"], .get (.variable "p") "name", []⟩
    let listing : Value :=
      .closure ⟨5, ["p"], KeyListing.body (.get (.variable "p") "name") (.sort true), []⟩
    let sorted (v : Value) : StreamOp := .fluent (.orderBy v (.bool true))
    (∃ t t', u.Chained [sorted name] t ∧ u.Chained [sorted reading] t' ∧
      (exec (Terminal.criteria.run call t) m).1 = .ok m.nextQuery ∧
      exec (Terminal.criteria.run call t') m = exec (Terminal.criteria.run call t) m) ∧
    (∃ t t', u.Chained [sorted name] t ∧
      u.Chained [.fluent (.orderByAttributes [.tuple 5 [name, .bool true]])] t' ∧
      exec (Terminal.criteria.run call t') m = exec (Terminal.criteria.run call t) m) ∧
    (∃ t t', u.Chained [sorted name] t ∧ u.Chained [.fluent (.orderByListed listing)] t' ∧
      t.SameBuilds call .criteria m t') ∧
    ∃ t n, u.Chained [.fluent (.filter (.text 0 "nope"))] t ∧
      exec (Terminal.criteria.run call t) m = (.error (.noAttribute "<class Product>" "nope"), n) := by
  intro product u m call name reading listing sorted
  obtain ⟨spelled, -, paired, listed, refused⟩ := equivalent_spellings u .criteria m 8
  let builder : Machine := { m with next := 10 }
  let o : Opening := ⟨.criteriaBuilder 9, after (QueryType.createContext ⟨2, .search, product⟩) builder⟩
  have opened : Terminal.criteria.opening u m = .ok o := rfl
  have comes : ∃ n, u.Reaches call .criteria m o product n := ⟨_, opened, rfl⟩
  have only {o' x n} (reached : u.Reaches call .criteria m o' x n) : x = product := by
    obtain ⟨n', comes⟩ := comes
    obtain rfl := Except.ok.inj (opened.symm.trans reached.opened)
    exact (Except.ok.inj (Prod.mk.inj (comes.configured.symm.trans reached.configured)).1).symm
  let node (step : Step) : Stream :=
    { u with id := 7, configurer := .configurer ⟨6, .root product, [step]⟩ }
  let t := node (.sort (.keys [(.named name, .bool true)]))
  have chained {op : StreamOp} {step : Step} (operation : String)
      (h : op.apply u = do u.requireUnbounded operation; u.extend step) : u.Chained [op] (node step) :=
    Stream.chained_of_extend rfl rfl rfl h 6
  have first : u.Chained [sorted name] t := chained "sorting" (Stream.orderBy_apply rfl u _)
  have second : u.Chained [sorted reading] (node (.sort (.keys [(.function reading, .bool true)]))) :=
    chained "sorting" (Stream.orderBy_apply rfl u _)
  have third : u.Chained [.fluent (.orderByAttributes [.tuple 5 [name, .bool true]])] t :=
    chained "sorting" ((Stream.orderByAttributes_apply rfl _ 5).trans (Stream.orderBy_apply rfl u _))
  have fourth : u.Chained [.fluent (.orderByListed listing)] (node (.sort (.listed listing))) :=
    chained "sorting" rfl
  have fifth : u.Chained [.fluent (.filter (.text 0 "nope"))]
      (node (.filter u.queryType (.named (.text 0 "nope")))) := by
    refine chained "filter()" ?_
    change u.filter _ = _
    rw [Stream.filter, selector_eq rfl, pure_bind]
    rfl
  let a : Attribute := ⟨⟨.product, none⟩, .column .name⟩
  have has : (⟨.product, none⟩ : Mapped).attribute? "name" = some a := by decide
  refine ⟨⟨t, _, first, second, rfl, ?_⟩, ⟨t, _, first, third, ?_⟩, ⟨t, _, first, fourth, ?_⟩, ?_⟩
  · have same := spelled (.orderBy (.bool true)) a name reading
      (.name (.member rfl)) (.of_get 6 5 "p" []) fun o' x n reached => ⟨_, only reached, has⟩
    exact same.run [] t _ first second
  · exact (paired name (.bool true) 5 rfl).run [] t t first third
  · let W : Moment := ⟨m.extent, fun n => if n = 7 then some t else none⟩
    let F : Footprint := ⟨fun _ => True, fun _ _ => True⟩
    have given {n : Nat} (h : n < 9) : W.Given n := h
    have whole : product.Known W := fun _ _ => rfl
    have type : QueryType.Known W ⟨2, .search, product⟩ := ⟨given (by decide), whole⟩
    have known : t.Known W := by
      refine ⟨⟨given (by decide), rfl⟩, given (by decide), type,
        ⟨given (by decide), whole, ?_, trivial⟩, trivial, trivial⟩
      exact ⟨⟨fun _ _ => rfl, trivial⟩, trivial⟩
    have machine : m.Known W :=
      ⟨⟨known_nil, known_nil, known_nil, known_nil, known_nil, known_nil⟩, rfl, by decide⟩
    have reads : t.Within F := by simp [t, F, node, u, product, name]
    have closed : m.Revisited F m := {
      settings := rfl
      depth := rfl
      extent := .refl _
      within := by rintro _ _ _ ⟨⟩
      globals := fun _ _ => rfl
      refs := .nil fun _ => trivial
      contexts := .nil fun _ => trivial
      queries := .nil fun _ => trivial
      mappings := .nil fun _ => trivial }
    obtain ⟨-, -, same⟩ := listed (.sort true) name listing rfl rfl fun o' x n reached => by
      obtain rfl := only reached
      exact KeyListing.gathers_of_get (a := a) has 4 5 (.name (.member rfl))
    exact same W F [] t _ machine known reads closed first fourth
  · obtain ⟨n, reached⟩ := comes
    obtain ⟨-, fails⟩ := refused .filter "nope" (.text 0 "nope") (.text 0) (by rintro ⟨⟩)
    have lacks : product.Lacks "nope" := Mapped.lacks (by decide) (by decide) (by decide)
    obtain ⟨text, shown, -, stops⟩ := (fails o product n reached lacks).1 (by rintro ⟨⟩) [] n rfl
    obtain rfl : text = "<class Product>" := Option.some.inj (shown.symm.trans rfl)
    exact ⟨_, _, fifth, stops [] _ fifth⟩

/-- A subquery over the reviews, sorted by an attribute they do not have, is refused for being sorted, not
for the attribute. -/
theorem sorted_subquery_refused_before_its_name :
    let review : Value := .mapped ⟨.review, none⟩
    let u : Stream := ⟨6, .of .search, .session ⟨1, ⟨some [], none, none⟩⟩,
      .queryType ⟨4, .search, review⟩, .configurer ⟨5, .root review, []⟩, .unset, .unset, [], []⟩
    let m : Machine := { Machine.start ⟨false, false, false⟩ with
      next := 10, contexts := [.query], stack := [⟨3, .criteriaBuilder 2, .context ⟨0⟩⟩] }
    let call := callAny (eval 8)
    ∃ o x n t, u.Reaches call .existence m o x n ∧ x.Lacks "nope" ∧ u.IsSearch ∧
      u.Chained [.fluent (.orderBy (.text 0 "nope") (.bool true))] t ∧
      ¬∃ e n', e.errorClass = .invalidArgument ∧
        exec (Terminal.existence.run call t) m = (.error e, n') := by
  intro review u m call
  let o : Opening := ⟨.criteriaBuilder 2, after (ContextId.new (.subquery (.context ⟨0⟩))) m⟩
  obtain ⟨n, reached⟩ : ∃ n, u.Reaches call .existence m o (.mapped ⟨.review, some 11⟩) n :=
    ⟨_, rfl, rfl⟩
  have chain := Stream.chained_of_extend rfl rfl rfl
    (Stream.orderBy_apply (v := .text 0 "nope") rfl u (.bool true)) 8
  refine ⟨o, _, n, _, reached, Mapped.lacks (by decide) (by decide) (by decide), ⟨_, rfl, rfl⟩,
    chain, ?_⟩
  rintro ⟨e, n', invalid, run⟩
  have stops : u.StopsAt call .existence m o (Place.op (.text 0 "nope") (.orderBy (.bool true))) n
      (.arrangedSubquery .sort) :=
    reached.stopsAt_of_arranging (callAny_eval_keeps 8) rfl rfl rfl
  obtain rfl := Except.error.inj (Prod.mk.inj ((stops [] _ chain).symm.trans run)).1
  cases invalid

end FluentQuery
