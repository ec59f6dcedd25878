import FluentQuery.Proofs.Chain
import FluentQuery.Proofs.Order.Terminals

/-! The order of a chain. A build runs the functions of the operations in the order they were
written, each once and with the selection that the operations before it left, up to the
first failure. -/

namespace FluentQuery

/-! ### Chains -/

/-- The operations that streams offer: those of searches, and the assignments of updates. -/
inductive StreamOp where
  | fluent (op : Fluent)
  | assign (key v : Value)

namespace StreamOp

def apply (s : Stream) : StreamOp → Run Stream
  | fluent op => op.apply s
  | assign key v => s.assign key v

/-- The step an operation adds to the configuration of a stream of this query type. -/
def step? (queryType : Value) : StreamOp → Option Step
  | fluent op => op.step? queryType
  | assign key v => some (.assign key v)

def steps (queryType : Value) (ops : List StreamOp) : List Step := ops.filterMap (step? queryType)

theorem apply_continues {op : StreamOp} {s t : Stream} {m m' : Machine}
    (h : exec (op.apply s) m = (.ok t, m')) :
    s.Continues (op.step? s.queryType).toList t := by
  cases op with
  | fluent op => exact Fluent.apply_continues h
  | assign key v => exact Stream.exec_extend_unbounded (exec_guarded_eq_ok.mp h).2

end StreamOp

namespace Stream

/-- `t` came from `s` by these operations. Between one and the next the machine may be any. -/
inductive Chained (s : Stream) : List StreamOp → Stream → Prop
  | nil : Chained s [] s
  | snoc {ops op t u m m'} : Chained s ops t → exec (op.apply t) m = (.ok u, m') →
      Chained s (ops ++ [op]) u

theorem Chained.continues {s t : Stream} {ops : List StreamOp} (h : s.Chained ops t) :
    s.Continues (StreamOp.steps s.queryType ops) t := by
  induction h with
  | nil => exact .refl s
  | snoc chain apply ih =>
    rename_i ops op t u m m'
    have last := StreamOp.apply_continues apply
    rw [ih.queryType] at last
    have single : StreamOp.steps s.queryType [op] = (op.step? s.queryType).toList := by
      unfold StreamOp.steps
      cases h : op.step? s.queryType <;> simp [h]
    rw [StreamOp.steps, List.filterMap_append, ← StreamOp.steps, ← StreamOp.steps, single]
    exact ih.trans last

end Stream

/-! ### Runs of steps -/

/-- A run of steps from a selection with its events, up to the first step that fails. Each step is
applied to the selection the one before it left, and makes its calls with that selection, in order
and once each; then it binds its Ref, if it has one. Only a step that selects replaces the
selection. A step that fails has made its calls up to the failure and bound nothing. -/
inductive Performs (L : Machine → Machine → Prop) (call : Call) (builder query : Value) :
    Value → List Step → Machine → List Event → Except Error Value → Machine → Prop
  | nil {selection m} : Performs L call builder query selection [] m [] (.ok selection) m
  | step {selection step steps m es bs selection' m₁ fs r m₂}
      (applied : Makes L call (fun k => step.apply k builder query selection) m (es ++ bs)
        (.ok selection') m₁)
      (calls : Asks (step.requests builder query selection) es none)
      (binds : bs.map (·.request) = (step.ref?.map .bind).toList)
      (leaves : step.selects = false → selection' = selection)
      (rest : Performs L call builder query selection' steps m₁ fs r m₂) :
      Performs L call builder query selection (step :: steps) m (es ++ bs ++ fs) r m₂
  | stop {selection step steps m es err m₁}
      (applied : Makes L call (fun k => step.apply k builder query selection) m es (.error err)
        m₁)
      (calls : Asks (step.requests builder query selection) es (some err)) :
      Performs L call builder query selection (step :: steps) m es (.error err) m₁

theorem called_of_binds {r? : Option RefId} {es : List Event}
    (h : es.map (·.request) = (r?.map .bind).toList) : called es = [] := by
  rw [called_eq, h]
  cases r? <;> rfl

namespace Performs

variable {L : Machine → Machine → Prop} {call : Call} {builder query selection : Value}
  {steps : List Step} {m m' : Machine} {es : List Event} {r : Except Error Value}

/-- However the functions behave, the steps run up to the end or to the first that fails. -/
theorem exists_run_of [Inert L] (tells : ∀ c, query = .context c → KeepsTold L c) (call : Call)
    (builder selection : Value) (steps : List Step) (m : Machine) :
    ∃ es r m', Performs L call builder query selection steps m es r m' := by
  induction steps generalizing selection m with
  | nil => exact ⟨[], _, m, .nil⟩
  | cons step steps ih =>
    rcases step.apply_makes tells call builder selection m with
      ⟨es, err, m₁, makes, asks⟩ | ⟨es, bs, v, m₁, makes, asks, binds⟩
    · exact ⟨es, _, m₁, .stop makes asks⟩
    · obtain ⟨fs, r, m₂, rest⟩ := ih v m₁
      refine ⟨_, r, m₂, .step makes asks binds (fun keeps => ?_) rest⟩
      exact Step.apply_yields keeps call builder query selection m v m₁ makes.exec_eq

theorem exists_run [Composing L] (call : Call) (builder query selection : Value)
    (steps : List Step) (m : Machine) :
    ∃ es r m', Performs L call builder query selection steps m es r m' :=
  exists_run_of (fun c _ => Composing.tells c) call builder selection steps m

theorem makes [Inert L] (h : Performs L call builder query selection steps m es r m') :
    Makes L call (fun k => Step.applyAll k builder query selection steps) m es r m' := by
  induction h with
  | nil => exact .of_exec (exec_pure _ _) (Inert.refl _)
  | step applied _ _ _ _ ih => exact .andThen applied ih
  | stop applied _ => exact .stop applied

/-- The functions that were called are those of the steps, in the order of the steps, up to the
step that failed. -/
theorem called_prefix (h : Performs L call builder query selection steps m es r m') :
    called es <+: steps.flatMap Step.functions := by
  induction h with
  | nil => exact List.prefix_rfl
  | step _ calls binds _ _ ih =>
    rw [called_append, called_append, calls.called_eq, called_of_binds binds,
      List.append_nil, List.flatMap_cons]
    exact (List.prefix_append_right_inj _).mpr ih
  | stop _ calls =>
    rw [List.flatMap_cons]
    exact calls.called_prefix.trans (List.prefix_append _ _)

theorem called_eq_of_ok {v : Value}
    (h : Performs L call builder query selection steps m es (.ok v) m') :
    called es = steps.flatMap Step.functions := by
  generalize hr : (.ok v : Except Error Value) = r at h
  induction h with
  | nil => rfl
  | step _ calls binds _ _ ih =>
    rw [called_append, called_append, calls.called_eq, called_of_binds binds,
      List.append_nil, List.flatMap_cons, ih hr]
  | stop => cases hr

end Performs

/-! ### Configurations -/

/-- Where a configurer begins: a function of the program is the beginning of itself. -/
def Value.origin : Value → Origin
  | .configurer c => c.origin
  | f => .function f

/-- The steps of a configurer. -/
def Value.configured : Value → List Step
  | .configurer c => c.steps
  | _ => []

theorem configure_eq (call : Call) (v builder query : Value) :
    configure call v builder query = (do
      let selection ← v.origin.select call builder query
      Step.applyAll call builder query selection v.configured) := by
  unfold configure
  split
  · rfl
  · rename_i notConfigurer
    unfold Value.origin Value.configured
    split
    · exact (notConfigurer _ rfl).elim
    · exact (bind_pure _).symm

namespace Origin

/-- The function a configuration begins with, if it does. -/
def functions : Origin → List Value
  | function f => [f]
  | root _ | correlated _ => []

/-- What the beginning of a configuration calls. -/
def requests (builder query : Value) (o : Origin) : List Request :=
  o.functions.map (.call · [builder, query])

theorem select_conducts {L : Machine → Machine → Prop} [Composing L] (builder query : Value)
    (o : Origin) : Conducts L (fun k => o.select k builder query) (o.requests builder query) := by
  cases o with
  | root entity => exact .quiet ((asContext_keeps _).bind fun c => c.addRoot_keeps _)
  | correlated outer =>
    exact .quiet (currentSubquery_keeps.bind fun c =>
      (Composing.change c (.correlate outer)).bind fun _ => .pure _)
  | function f => exact .calling f _

end Origin

/-- A run of a configuration with its events: it begins by calling its first function, if it has
one, and the steps run from the selection that gives. -/
inductive Configures (L : Machine → Machine → Prop) (call : Call) (builder query : Value)
    (origin : Origin) (steps : List Step) :
    Machine → List Event → Except Error Value → Machine → Prop
  | steps {m es selection m₁ fs r m₂}
      (begins : Makes L call (fun k => origin.select k builder query) m es (.ok selection) m₁)
      (calls : Asks (origin.requests builder query) es none)
      (rest : Performs L call builder query selection steps m₁ fs r m₂) :
      Configures L call builder query origin steps m (es ++ fs) r m₂
  | stop {m es err m₁}
      (begins : Makes L call (fun k => origin.select k builder query) m es (.error err) m₁)
      (calls : Asks (origin.requests builder query) es (some err)) :
      Configures L call builder query origin steps m es (.error err) m₁

namespace Configures

variable {L : Machine → Machine → Prop} {call : Call} {builder query : Value} {origin : Origin}
  {steps : List Step} {m m' : Machine} {es : List Event} {r : Except Error Value}

theorem exists_run [Composing L] (call : Call) (builder query : Value) (origin : Origin)
    (steps : List Step) (m : Machine) :
    ∃ es r m', Configures L call builder query origin steps m es r m' := by
  obtain ⟨es, r, m₁, makes, asks⟩ := origin.select_conducts (L := L) builder query call m
  rcases r with err | selection
  · exact ⟨es, _, m₁, .stop makes asks⟩
  · obtain ⟨fs, r, m₂, rest⟩ := Performs.exists_run (L := L) call builder query selection steps m₁
    exact ⟨_, r, m₂, .steps makes asks rest⟩

theorem makes [Inert L] (h : Configures L call builder query origin steps m es r m') :
    Makes L call (fun k => do
      let selection ← origin.select k builder query
      Step.applyAll k builder query selection steps) m es r m' := by
  cases h with
  | steps begins _ rest => exact .andThen begins rest.makes
  | stop begins _ => exact .stop begins

theorem called_prefix (h : Configures L call builder query origin steps m es r m') :
    called es <+: origin.functions ++ steps.flatMap Step.functions := by
  cases h with
  | steps _ calls rest =>
    rw [called_append, calls.called_eq]
    exact (List.prefix_append_right_inj _).mpr rest.called_prefix
  | stop _ calls =>
    exact calls.called_prefix.trans (List.prefix_append _ _)

theorem called_eq_of_ok {v : Value}
    (h : Configures L call builder query origin steps m es (.ok v) m') :
    called es = origin.functions ++ steps.flatMap Step.functions := by
  cases h with
  | steps _ calls rest =>
    rw [called_append, calls.called_eq, rest.called_eq_of_ok]

end Configures

theorem configure_makes {L : Machine → Machine → Prop} [Composing L] (call : Call)
    (v builder query : Value) (m : Machine) :
    ∃ es r m', Makes L call (fun k => configure k v builder query) m es r m' := by
  obtain ⟨es, r, m', run⟩ :=
    Configures.exists_run (L := L) call builder query v.origin v.configured m
  simp only [configure_eq]
  exact ⟨es, r, m', run.makes⟩

/-! ### Builds -/

/-- A build of a chain runs in the order in which the chain was written. If it can begin, it runs
the configuration of the stream the chain began with and then the steps of the operations: they
call their functions in order, each once and with the selection of the steps before. The first
failure, if there is one, is the result, and nothing later is called. Nothing but these calls and
the bindings of the steps that returned is traced, bound, unbound or assigned: between two of
them, before and behind all, the build is silent. -/
theorem chain_runs_in_order {s t : Stream} {ops : List StreamOp} (chain : s.Chained ops t)
    (T : Terminal) (call : Call) (m : Machine) :
    ∃ es r m', exec (T.run call t) m = (r, m') ∧ (∀ e ∈ es, e.Happens call) ∧
      Linked Silent m es m' ∧
      match T.opening t m with
      | .error e => es = [] ∧ r = .error e
      | .ok o => ∃ r₁ m₁,
          Configures Idle call o.builder m.nextQuery s.configurer.origin
            (s.configurer.configured ++ StreamOp.steps s.queryType ops) (o.inside m) es r₁ m₁ ∧
          called es <+: s.configurer.origin.functions ++
            (s.configurer.configured ++ StreamOp.steps s.queryType ops).flatMap Step.functions ∧
          Silent m₁ m' ∧
          match r₁ with
          | .error e => r = .error e
          | .ok _ => called es = s.configurer.origin.functions ++
              (s.configurer.configured ++ StreamOp.steps s.queryType ops).flatMap
                Step.functions := by
  rcases opening : T.opening t m with e | o
  · obtain ⟨m', makes⟩ := T.run_makes_of_error call opening
    exact ⟨[], .error e, m', makes.exec_eq, makes.happens, makes.linked, rfl, rfl⟩
  · obtain ⟨es, r₁, m₁, run⟩ := Configures.exists_run (L := Idle) call o.builder m.nextQuery
      s.configurer.origin (s.configurer.configured ++ StreamOp.steps s.queryType ops) (o.inside m)
    have inside : Makes Idle call (fun k => configure k t.configurer o.builder m.nextQuery)
        (o.inside m) es r₁ m₁ := by
      simp only [chain.continues.runs, configure_eq _ s.configurer, bind_assoc,
        ← Step.applyAll_append]
      exact run.makes
    obtain ⟨r, m', makes, fails, silent⟩ := T.run_leads opening inside
    refine ⟨es, r, m', makes.exec_eq, makes.happens, makes.linked, r₁, m₁, run, run.called_prefix,
      silent, ?_⟩
    cases r₁ with
    | error e => exact fails e rfl
    | ok v => exact run.called_eq_of_ok

/-- Two functions that trace: each is called once, in the order written. -/
theorem chain_runs_in_order_two_peeks :
    let f : Value := .closure ⟨1, ["p"], .literal .null, []⟩
    let g : Value := .closure ⟨2, ["p"], .literal .null, []⟩
    let s : Stream := ⟨3, .of .search, .null, .queryType ⟨4, .search, .mapped ⟨.product, none⟩⟩,
      .configurer ⟨5, .root (.mapped ⟨.product, none⟩), []⟩, .unset, .unset, [], []⟩
    let t : Stream := { s with
      id := 9, configurer := .configurer ⟨8, .root (.mapped ⟨.product, none⟩), [.peek f, .peek g]⟩ }
    let call : Call := fun _ _ => do note .null; return .null
    let m : Machine := { Machine.initial ⟨false, false, false⟩ with next := 6 }
    s.Chained [.fluent (.peek f), .fluent (.peek g)] t ∧
    ∃ es m', exec (t.toContext call) m = (.ok (.context ⟨0⟩), m') ∧ m'.trace = [.null, .null] ∧
      called es = [f, g] ∧ Linked Silent m es m' := by
  intro f g s t call m
  let once : Stream := { s with
    id := 7, configurer := .configurer ⟨6, .root (.mapped ⟨.product, none⟩), [.peek f]⟩ }
  let peeking (h : Value) : StreamOp := .fluent (.peek h)
  have first : exec ((peeking f).apply s) m = (.ok once, { m with next := 8 }) := rfl
  have second : exec ((peeking g).apply once) { m with next := 8 } =
      (.ok t, { m with next := 10 }) := rfl
  have chain : s.Chained [.fluent (.peek f), .fluent (.peek g)] t :=
    (Stream.Chained.nil.snoc first).snoc second
  obtain ⟨es, r, m', run, -, linked, r₁, m₁, -, -, -, all⟩ :=
    chain_runs_in_order chain .criteria call m
  change exec (t.toContext call) m = _ at run
  have returned : (exec (t.toContext call) m).1 = .ok (.context ⟨0⟩) := rfl
  have traced : (after (t.toContext call) m).trace = [.null, .null] := rfl
  obtain rfl : r = .ok (.context ⟨0⟩) := (congrArg Prod.fst run).symm.trans returned
  rw [after_eq run] at traced
  refine ⟨chain, es, m', run, traced, ?_, linked⟩
  cases r₁ with
  | error e => cases all
  | ok v => exact all

end FluentQuery
