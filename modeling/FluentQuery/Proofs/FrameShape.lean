import FluentQuery.Proofs.Evaluators
import FluentQuery.Proofs.SameWhere

/-! The shape of the construction stack. A build of a subquery puts a subquery of the query on top of
the stack there; any other build puts a query there that is no subquery, wherever it begins. So the
stack consists of chains of subqueries, each on a query that is none, and it is a single chain as long
as no query of its own is built inside another build. -/

namespace FluentQuery

variable {α β : Type}

/-! ### Shapes -/

/-- The parent of a subquery. -/
def Context.parent? (x : Context) : Option Value :=
  match x.kind with
  | .subquery _ parent _ _ => some parent
  | _ => none

theorem Context.parent?_created (x : Context) : x.created.parent? = x.parent? := by
  obtain ⟨restriction, kind⟩ := x
  cases kind <;> rfl

/-- The frame holds a query context: that of a subquery of this query, or of no subquery. -/
def Machine.Holds (m : Machine) (f : Frame) (parent? : Option Value) : Prop :=
  ∃ c x, f.query = .context c ∧ m.context? c = some x ∧ x.parent? = parent?

/-- Each frame holds a subquery of the query in the frame below it, or a query that is no subquery.
Only where queries may begin `anew` can the latter stand above other frames. -/
inductive Machine.Shaped (anew : Bool) (m : Machine) : List Frame → Prop
  | empty : Shaped anew m []
  | outermost {f fs} (holds : m.Holds f none) (place : fs = [] ∨ anew) (below : Shaped anew m fs) :
      Shaped anew m (f :: fs)
  | nested {f g fs} (holds : m.Holds f (some g.query)) (below : Shaped anew m (g :: fs)) :
      Shaped anew m (f :: g :: fs)

/-- The stack is a single chain: a query that is no subquery at its bottom, and above it subqueries,
each of the query below it. -/
abbrev Machine.Documented (m : Machine) : Prop := m.Shaped false m.stack

/-- The stack is a pile of such chains. -/
abbrev Machine.Piled (m : Machine) : Prop := m.Shaped true m.stack

namespace Machine

variable {m m' : Machine} {anew : Bool} {f : Frame} {fs : List Frame}

theorem Holds.lasts {parent? : Option Value} (h : m.Holds f parent?) (lasts : Lasting m m') :
    m'.Holds f parent? := by
  obtain ⟨c, x, hf, hx, hp⟩ := h
  have before : m.created? c = some x.created := by rw [created?, hx, Option.map_some]
  obtain ⟨y, hy, same⟩ := Option.map_eq_some_iff.mp (lasts c _ before)
  exact ⟨c, y, hf, hy, by rw [← y.parent?_created, same, x.parent?_created, hp]⟩

theorem Holds.unique {p q : Option Value} (hp : m.Holds f p) (hq : m.Holds f q) : p = q := by
  obtain ⟨c, x, hf, hx, rfl⟩ := hp
  obtain ⟨d, y, hf', hy, rfl⟩ := hq
  obtain rfl := Value.context.inj (hf.symm.trans hf')
  rw [Option.some.inj (hx.symm.trans hy)]

namespace Shaped

/-- Query contexts keep their parents, so a stack keeps its shape. -/
theorem lasts (h : m.Shaped anew fs) (lasts : Lasting m m') : m'.Shaped anew fs := by
  induction h with
  | empty => exact .empty
  | outermost holds place _ ih => exact .outermost (holds.lasts lasts) place ih
  | nested holds _ ih => exact .nested (holds.lasts lasts) ih

/-- A query that is no subquery stands at the bottom. -/
theorem holds_getLast? (h : m.Shaped anew fs) (hf : fs.getLast? = some f) : m.Holds f none := by
  induction h with
  | empty => cases hf
  | @outermost g fs holds _ below ih =>
    cases fs with
    | nil =>
      obtain rfl := Option.some.inj hf
      exact holds
    | cons => exact ih (by simpa using hf)
  | nested _ _ ih => exact ih (by simpa using hf)

end Shaped

end Machine

/-! ### What a build puts on the stack -/

namespace Terminal

variable {T : Terminal} {s : Stream} {m : Machine} {o : Opening} {anew : Bool}

/-- The query context of a build is a subquery of the query on top of the stack, or no subquery. -/
theorem opening_holds (ho : T.opening s m = .ok o) :
    o.machine.stack = m.stack ∧ ∃ x, o.machine.context? m.nextContext = some x ∧
      if T.nests then ∃ f fs, m.stack = f :: fs ∧ x.parent? = some f.query else x.parent? = none := by
  have last (n : Machine) (x : Context) :
      (after (ContextId.new x) n).context? n.nextContext = some x :=
    List.getElem?_concat_length
  refine ⟨(opening_spec ho).2.1, ?_⟩
  cases hT : T.nests with
  | false =>
    obtain ⟨t, -, rfl⟩ := opening_of_not_nests hT ho
    refine ⟨_, last { m with next := m.next + 1 } _, ?_⟩
    cases t.purpose <;> rfl
  | true =>
    obtain ⟨f, rest, hstack, -, rfl⟩ := opening_of_nests hT ho
    exact ⟨_, last m _, f, rest, hstack, rfl⟩

/-- A build keeps the shape of the stack, unless it begins a query of its own inside another build. -/
theorem inside_shaped_iff (shaped : m.Shaped anew m.stack) (ho : T.opening s m = .ok o) :
    (o.inside m).Shaped anew (o.inside m).stack ↔ T.nests ∨ m.stack = [] ∨ anew := by
  obtain ⟨stack, x, hx, parent⟩ := opening_holds ho
  have lasts : Lasting m (o.inside m) := Inert.trans (opening_keeps ho) (o.inside_lasts m)
  have holds : (o.inside m).Holds ⟨o.machine.next, o.builder, m.nextQuery⟩ x.parent? :=
    ⟨m.nextContext, x, rfl, (congrArg (·[_]?) (Machine.contexts_logged _ _)).trans hx, rfl⟩
  have below := shaped.lasts lasts
  rw [o.inside_stack, stack]
  by_cases nests : T.nests
  · obtain ⟨f, fs, hstack, hp⟩ := by simpa only [nests, ↓reduceIte] using parent
    rw [hp] at holds
    rw [hstack] at below ⊢
    simp only [nests, true_or, iff_true]
    exact .nested holds below
  · rw [if_neg nests] at parent
    rw [parent] at holds
    simp only [nests, Bool.false_eq_true, false_or]
    constructor
    · generalize m.stack = fs at *
      rintro (_ | ⟨-, place, -⟩ | ⟨subquery, -⟩)
      · exact place
      · cases holds.unique subquery
    · exact fun place => .outermost holds place below

end Terminal

/-! ### Looking on -/

/-- Whether calling a method of this value builds a query of its own. -/
def Value.beginsBy (method : String) : Value → Bool
  | .stream _ => method == "to_criteria_query" || method == "to_query"
  | _ => false

/-- One level of evaluation by `watch`. The body of a `with` block is left to `plain`, and so are the
functions that a query of its own calls which is built inside another build, unless queries may
begin `anew` there. -/
def watchedStep (anew : Bool) (watch plain : Eval) (scope : Scope) : Expr → Run Value
  | .within builder query name body => do
    let b ← watch scope builder
    let q ← watch scope query
    withFrame b q fun frame => plain ((name, .frame frame) :: scope) body
  | .call e method args => do
    let v ← watch scope e
    let a ← evalArguments watch scope args
    let outside := (← get).stack.isEmpty || anew || !v.beginsBy method
    invoke (callAny (if outside then watch else plain)) v method a
  | e => evalStep watch scope e

/-- Evaluation like `eval` that takes a look before every expression it evaluates. -/
def watched (anew : Bool) (look : Run Unit) : Nat → Eval
  | 0 => fun _ _ => fail .external
  | depth + 1 => fun scope e => do
    look
    watchedStep anew (watched anew look depth) (eval depth) scope e

/-- What a relation says between a machine and the one a computation leaves. -/
abbrev Retaining : Machine → Machine → Prop := Both SameStack Lasting

instance {R S : Machine → Machine → Prop} [Guarantee R] [Guarantee S] : Guarantee (Both R S) where
  newRef m := ⟨Creating.newRef m, Creating.newRef m⟩
  bind r v m := ⟨Creating.bind r v m, Creating.bind r v m⟩
  unbind r m := ⟨Creating.unbind r m, Creating.unbind r m⟩
  newContext h m := ⟨Creating.newContext h m, Creating.newContext h m⟩
  updateMapping i fields m := ⟨Creating.updateMapping i fields m, Creating.updateMapping i fields m⟩
  newQuery q m := ⟨Creating.newQuery q m, Creating.newQuery q m⟩
  writeQuery q x m := ⟨Creating.writeQuery q x m, Creating.writeQuery q x m⟩
  note d m := ⟨Creating.note d m, Creating.note d m⟩
  setGlobal name v m := ⟨Creating.setGlobal name v m, Creating.setGlobal name v m⟩
  onStack stack _ h m := ⟨Creating.onStack stack (fun m => (h m).left) m,
    Creating.onStack stack (fun m => (h m).right) m⟩
  change c _ h m := ⟨Guarantee.change c h m, Guarantee.change c h m⟩
  growRoot c entity m := ⟨Guarantee.growRoot c entity m, Guarantee.growRoot c entity m⟩
  growJoin c k o r v m := ⟨Guarantee.growJoin c k o r v m, Guarantee.growJoin c k o r v m⟩

/-- The stack has the shape. -/
def Machine.InShape (anew : Bool) (m : Machine) : Prop := m.Shaped anew m.stack

theorem Machine.Shaped.kept {anew : Bool} {m m' : Machine} (h : m.Shaped anew m.stack)
    (kept : Retaining m m') : m'.Shaped anew m'.stack := by
  rw [show m'.stack = m.stack from kept.left]
  exact h.lasts kept.right

instance (anew : Bool) : HandsOn Retaining (Machine.InShape anew) := ⟨fun kept h => h.kept kept⟩

/-- The two computations do the same on every machine whose stack has the shape. -/
abbrev SameOnShape (anew : Bool) (x y : Run α) : Prop := SameWhere (Machine.InShape anew) x y

theorem SameWhere.onStack_of_shaped {anew : Bool} {x y : Run α} (hx : SameOnShape anew x y)
    {m : Machine} {stack : List Frame} (shaped : m.Shaped anew stack) :
    exec (onStack stack x) m = exec (onStack stack y) m := by
  have inside : { m with stack }.Shaped anew stack := shaped.lasts (.of_contexts rfl)
  rw [exec_onStack, exec_onStack, hx _ inside]

section Calls

variable {anew : Bool} {call call' : Call} (keeps : ∀ f args, Keeps Retaining (call f args))
  (same : ∀ f args, SameOnShape anew (call' f args) (call f args))

include keeps same

/-- A build does the same if what it calls does the same once its frame is on the stack. -/
theorem Terminal.run_same_on_shape {T : Terminal} {s : Stream} {m : Machine}
    (shaped : m.Shaped anew m.stack) (place : T.nests ∨ m.stack = [] ∨ anew) :
    exec (T.run call' s) m = exec (T.run call s) m :=
  run_same_where keeps same fun _ ho => (inside_shaped_iff shaped ho).mpr place

theorem Stream.invokeSearch_same_on_shape (s : Stream) (method : String) (a : ArgList) :
    SameOnShape anew (s.invokeSearch call' method a) (s.invokeSearch call method a) := by
  have nested {T : Terminal} (h : T.nests) : SameOnShape anew (T.run call' s) (T.run call s) :=
    fun m shaped => Terminal.run_same_on_shape keeps same shaped (.inl h)
  unfold Stream.invokeSearch
  split <;> try with_reducible exact .refl _
  · exact .behind a.requireNone_keeps fun _ => nested (T := .subquery) rfl
  · exact .behind a.requireNone_keeps fun _ => nested (T := .existence) rfl

theorem Stream.invoke_same_on_shape (s : Stream) (method : String) (a : ArgList) {m : Machine}
    (shaped : m.Shaped anew m.stack)
    (place : m.stack = [] ∨ anew ∨ (Value.stream s).beginsBy method = false) :
    exec (s.invoke call' method a) m = exec (s.invoke call method a) m := by
  have outermost {T : Terminal} (h : m.stack = [] ∨ anew) :
      exec (do a.requireNone; T.run call' s) m = exec (do a.requireNone; T.run call s) m := by
    rcases hn : exec a.requireNone m with ⟨e | u, m'⟩
    · rw [exec_bind_of_error hn, exec_bind_of_error hn]
    · have kept : Retaining m m' := (Keeps.of_exec a.requireNone_keeps hn)
      rw [exec_bind_of_ok hn, exec_bind_of_ok hn]
      refine Terminal.run_same_on_shape keeps same (shaped.kept kept) (.inr ?_)
      rwa [show m'.stack = m.stack from kept.left]
  unfold Stream.invoke
  split <;> try with_reducible rfl
  · refine SameWhere.behind (P := Machine.InShape anew) (a.two_keeps _ _) (fun (b, q) => ?_) m shaped
    exact configure_same_where keeps same _ b q
  · exact outermost (T := .criteria) (by simpa [Value.beginsBy] using place)
  · exact outermost (T := .query) (by simpa [Value.beginsBy] using place)
  · exact s.invokeSearch_same_on_shape keeps same _ a m shaped

theorem invoke_same_on_shape (v : Value) (method : String) (a : ArgList) {m : Machine}
    (shaped : m.Shaped anew m.stack) (place : m.stack = [] ∨ anew ∨ v.beginsBy method = false) :
    exec (invoke call' v method a) m = exec (invoke call v method a) m := by
  unfold invoke
  rcases hp : exec (v.property? method) m with ⟨e | p, m'⟩
  · rw [exec_bind_of_error hp, exec_bind_of_error hp]
  · have kept : Retaining m m' := Keeps.of_exec (v.property?_keeps method) hp
    rw [exec_bind_of_ok hp, exec_bind_of_ok hp]
    cases p with
    | some f => exact SameWhere.behind a.rest_keeps (fun args => same f args) m' (shaped.kept kept)
    | none =>
      dsimp only
      unfold invokeMethod
      split <;> try with_reducible rfl
      refine Stream.invoke_same_on_shape keeps same _ method a (shaped.kept kept) ?_
      rwa [show m'.stack = m.stack from kept.left]

end Calls

section Evaluation

variable {anew : Bool} {watch plain : Eval} (keeps : ∀ scope e, Keeps Retaining (plain scope e))
  (same : ∀ scope e, SameOnShape anew (watch scope e) (plain scope e))

include keeps same

omit keeps same in
theorem watchedStep_of_stays (scope : Scope) {e : Expr} (stays : e.turns = false) :
    watchedStep anew watch plain scope e = evalStep watch scope e := by
  cases e with
  | call | within => cases stays
  | _ => rfl

/-- One level of watched evaluation does what a level of plain evaluation does. -/
theorem watchedStep_same_on_shape (scope : Scope) (e : Expr) :
    SameOnShape anew (watchedStep anew watch plain scope e) (evalStep plain scope e) := by
  rcases stays : e.turns with _ | _
  · rw [watchedStep_of_stays scope stays]
    exact evalStep_same_where keeps same scope stays
  cases e with
  | call e method args =>
    refine (same _ _).bind (keeps _ _) fun v =>
      (evalArguments_same_where keeps same scope args).bind (evalArguments_keeps keeps scope args)
        fun a => ?_
    intro m shaped
    rw [exec_bind_of_ok (exec_get m)]
    dsimp only
    split
    · rename_i outside
      refine invoke_same_on_shape (callAny_keeps keeps) (callAny_same_where keeps same) v method a
        shaped ?_
      simpa [or_assoc] using outside
    · rfl
  | within builder query name body =>
    exact (same _ _).bind (keeps _ _) fun b => (same _ _).before _
  | thread body => exact fun m _ => (same _ _).onStack_of_shaped .empty
  | task body =>
    intro m shaped
    change exec (get >>= _) m = exec (get >>= _) m
    rw [exec_bind_of_ok (exec_get m), exec_bind_of_ok (exec_get m)]
    exact (same _ _).onStack_of_shaped shaped
  | _ => cases stays

end Evaluation

/-! ### Programs -/

section Programs

variable {anew : Bool} {look : Run Unit}
  (quiet : ∀ m : Machine, m.Shaped anew m.stack → exec look m = (.ok (), m))

include quiet

theorem watched_same_on_shape (depth : Nat) (scope : Scope) (e : Expr) :
    SameOnShape anew (watched anew look depth scope e) (eval depth scope e) := by
  induction depth generalizing scope e with
  | zero => exact .refl _
  | succ depth ih =>
    intro m shaped
    unfold watched
    rw [exec_bind_of_ok (quiet m shaped)]
    exact watchedStep_same_on_shape (eval_keeps depth) ih scope e m shaped

/-- Between the steps of a program the stack is empty, so all of them can be looked at. -/
theorem runSteps_watched (steps : List ProgramStep) {m : Machine} (empty : m.stack = []) :
    Eval.runSteps (watched anew look nestingLimit) steps m = runSteps steps m := by
  induction steps generalizing m with
  | nil => rfl
  | cons step steps ih =>
    let started : Machine := { m with trace := [], log := [] }
    have none : started.stack = [] := empty
    have shaped : started.InShape anew := by
      rw [Machine.InShape, none]
      exact .empty
    have same : exec (Eval.runStep (watched anew look nestingLimit) step) started =
        exec step.run started :=
      (watched_same_on_shape quiet nestingLimit [] step.body).before _ _ shaped
    have left : (exec step.run started).2.stack = [] := (step.run_stack started).trans none
    unfold Eval.runSteps
    rw [same, runSteps_cons]
    dsimp only
    rw [ih left]

theorem runProgram_watched (settings : Diagnostics) (steps : List ProgramStep) :
    Eval.runProgram (watched anew look nestingLimit) settings steps = runProgram settings steps := by
  unfold Eval.runProgram
  rw [runSteps_watched quiet steps rfl]
  rfl

end Programs

/-- Frames that only builds push make a pile of chains, with a query that is no subquery at its
bottom: a build of a subquery makes the chain on top longer, and any other build begins a new chain.
The stack is a single chain exactly until a query of its own is built on a stack that is not empty.
So no look that does nothing on such stacks changes what a program does, whatever it does on any
other: not one taken before each expression outside of `with` blocks, if it does nothing on piles, nor
one taken before each that is also outside of queries built inside other builds, if it does nothing on
single chains. -/
theorem stack_is_pile_of_chains (anew : Bool) (look : Run Unit)
    (quiet : ∀ m : Machine, m.Shaped anew m.stack → exec look m = (.ok (), m)) :
    (∀ (T : Terminal) (s : Stream) (m : Machine) (o : Opening), m.Piled → T.opening s m = .ok o →
      (o.inside m).Piled ∧
        (m.Documented → ((o.inside m).Documented ↔ T.nests ∨ m.stack = []))) ∧
    (∀ (m : Machine) (f : Frame), m.Shaped anew m.stack → m.stack.getLast? = some f →
      m.Holds f none) ∧
    (∀ depth scope e (m : Machine), m.Shaped anew m.stack →
      exec (watched anew look depth scope e) m = exec (eval depth scope e) m) ∧
    ∀ settings steps,
      Eval.runProgram (watched anew look nestingLimit) settings steps =
        runProgram settings steps := by
  refine ⟨fun T s m o piled ho => ⟨?_, fun documented => ?_⟩, fun m f shaped hf => ?_, ?_, ?_⟩
  · exact (Terminal.inside_shaped_iff piled ho).mpr (.inr (.inr rfl))
  · simpa using Terminal.inside_shaped_iff documented ho
  · exact shaped.holds_getLast? hf
  · exact fun depth scope e => watched_same_on_shape quiet depth scope e
  · exact runProgram_watched quiet

/-- A query that is built inside the build of another one, and a look at the bottom of the stack. -/
theorem stack_is_pile_of_chains_anew :
    let product : Value := .mapped ⟨.product, none⟩
    let s : Stream := ⟨2, .of .search, .null, .queryType ⟨3, .search, product⟩,
      .configurer ⟨4, .root product, []⟩, .unset, .unset, [], []⟩
    let m : Machine := { Machine.start ⟨false, false, false⟩ with
      next := 6, contexts := [.query], stack := [⟨5, .criteriaBuilder 4, .context ⟨0⟩⟩] }
    let o : Opening := ⟨.criteriaBuilder 6, { m with next := 7, contexts := [.query, .query] }⟩
    let look : Run Unit := do
      if let some f := (← get).stack.getLast? then
        let c ← f.query.asContext
        if (← c.read).isSubquery then note .null
    let inner : Expr := .call (.call (.variable "qb") "stream" ⟨[.entity .review], []⟩)
      "to_criteria_query" ⟨[], []⟩
    let filter : Expr := .function ["p"] (.block [inner, .get (.variable "p") "active"])
    let steps : List ProgramStep := [⟨none, .call (.call (.call (.variable "qb") "stream"
      ⟨[.entity .product], []⟩) "filter" ⟨[filter], []⟩) "to_criteria_query" ⟨[], []⟩⟩]
    Terminal.criteria.opening s m = .ok o ∧ (o.inside m).Piled ∧ ¬(o.inside m).Documented ∧
      Eval.runProgram (watched true look nestingLimit) ⟨false, false, false⟩ steps =
        runProgram ⟨false, false, false⟩ steps := by
  intro product s m o look inner filter steps
  have documented : m.Documented := .outermost ⟨⟨0⟩, .query, rfl, rfl, rfl⟩ (.inl rfl) .empty
  have piled : m.Piled := .outermost ⟨⟨0⟩, .query, rfl, rfl, rfl⟩ (.inl rfl) .empty
  have quiet (n : Machine) (shaped : n.Piled) : exec look n = (.ok (), n) := by
    rw [exec_bind_of_ok (exec_get n)]
    rcases hf : n.stack.getLast? with _ | f
    · rfl
    · obtain ⟨c, x, hc, hx, hp⟩ := shaped.holds_getLast? hf
      have single : x.isSubquery = false := by
        obtain ⟨r, k⟩ := x
        cases k <;> first | rfl | cases hp
      dsimp only
      rw [hc, exec_bind_of_ok (exec_asContext c n), exec_bind_of_ok (exec_readContext_of_some hx),
        single]
      rfl
  have opening : Terminal.criteria.opening s m = .ok o := rfl
  obtain ⟨pushes, -, -, runs⟩ := stack_is_pile_of_chains true look quiet
  obtain ⟨inside, chain⟩ := pushes .criteria s m o piled opening
  refine ⟨opening, inside, fun h => ?_, runs _ steps⟩
  rcases (chain documented).mp h with h | h <;> cases h

end FluentQuery
