import FluentQuery.Proofs.Evaluators
import FluentQuery.Proofs.Refs.History
import FluentQuery.Proofs.SameWhere

/-! Every moment of a run. What every elementary step preserves holds whenever an expression is
evaluated, however deep inside builds and calls: a look at the machine that does nothing where it
holds, taken before each of them, changes no program. -/

namespace FluentQuery

variable {α β : Type}

/-- What the one machine has the other has too. -/
def Preserves (P : Machine → Prop) (m m' : Machine) : Prop := P m → P m'

/-- A property of machines that every elementary step preserves, whatever the stack, the trace and the
log are. -/
class Invariant (P : Machine → Prop) : Prop extends Guarantee (Preserves P) where
  aside : ∀ (m : Machine) stack trace log, P m → P { m with stack, trace, log }

/-- What is handed on by a relation that every elementary step upholds. -/
theorem Invariant.of_guarantee {R : Machine → Machine → Prop} [Guarantee R] {P : Machine → Prop}
    (hand : ∀ {m m'}, R m m' → P m → P m')
    (aside : ∀ (m : Machine) stack trace log, P m → P { m with stack, trace, log }) :
    Invariant P where
  refl _ h := h
  trans h h' hp := h' (h hp)
  fresh m := hand (Inert.fresh m)
  newMapping fields m := hand (Inert.newMapping fields m)
  log line m := hand (Inert.log line m)
  handle v m := hand (Inert.handle v m)
  newRef m := hand (Creating.newRef m)
  bind r v m := hand (Creating.bind r v m)
  unbind r m := hand (Creating.unbind r m)
  newContext h m := hand (Creating.newContext h m)
  updateMapping i fields m := hand (Creating.updateMapping i fields m)
  newQuery q m := hand (Creating.newQuery q m)
  writeQuery q x m := hand (Creating.writeQuery q x m)
  note d m := hand (Creating.note d m)
  setGlobal name v m := hand (Creating.setGlobal name v m)
  onStack stack body hb m hp := by
    rw [after, exec_onStack]
    exact aside _ m.stack _ _ (hb _ (aside m stack m.trace m.log hp))
  change c _ h m := hand (Guarantee.change c h m)
  growRoot c entity m := hand (Guarantee.growRoot c entity m)
  growJoin c k o r v m := hand (Guarantee.growJoin c k o r v m)
  aside := aside

/-- Evaluation like `eval` that takes a look before every expression it evaluates. -/
def observed (look : Run Unit) : Nat → Eval
  | 0 => fun _ _ => fail .external
  | depth + 1 => fun scope e => do
    look
    evalStep (observed look depth) scope e

instance {P : Machine → Prop} [Invariant P] : HandsOn (Preserves P) P := ⟨fun kept => kept⟩

namespace Invariant

variable {P : Machine → Prop} [Invariant P] {m : Machine}

theorem restack (h : P m) (stack : List Frame) : P { m with stack } :=
  aside m stack m.trace m.log h

theorem logged (h : P m) (line : String) : P (m.logged line) := by
  unfold Machine.logged
  split
  · exact aside m m.stack m.trace _ h
  · exact h

theorem entered (h : P m) (builder query : Value) : P (m.entered builder query) := by
  unfold Machine.entered
  refine logged ?_ _
  exact restack (Inert.fresh (R := Preserves P) m h) _

/-- The frame of a build is entered on a machine with the property. -/
theorem inside {T : Terminal} {s : Stream} {o : Opening} (h : P m) (ho : T.opening s m = .ok o) :
    P (o.inside m) := by
  have opened : Preserves P m o.machine := Terminal.opening_keeps ho
  exact entered (opened h) _ _

end Invariant

namespace SameWhere

variable {P : Machine → Prop} [Invariant P] {x y : Run α}

theorem onStack (hx : SameWhere P x y) (stack : List Frame) :
    SameWhere P (onStack stack x) (FluentQuery.onStack stack y) := by
  intro m h
  rw [exec_onStack, exec_onStack, hx _ (Invariant.restack h stack)]

theorem withFrame {f g : Frame → Run α} (hf : ∀ frame, SameWhere P (f frame) (g frame))
    (builder query : Value) :
    SameWhere P (withFrame builder query f) (FluentQuery.withFrame builder query g) := by
  unfold FluentQuery.withFrame
  refine .behind (classNow_keeps query) fun name => ?_
  cases query with
  | context c =>
    refine .guarded (.behind Inert.fresh fun id => .behind .get fun m => .ensuring (.onStack ?_ _) _)
    exact .behind (logLine_keeps (R := Preserves P) (.pure _)) fun _ => hf _
  | _ => exact .fail_bind _ _ _

end SameWhere

/-! ### Methods -/

section Calls

variable {P : Machine → Prop} [Invariant P] {call call' : Call}
  (keeps : ∀ f args, Keeps (Preserves P) (call f args))
  (same : ∀ f args, SameWhere P (call' f args) (call f args))

include keeps same

theorem Stream.invoke_same_where (s : Stream) (method : String) (a : ArgList) :
    SameWhere P (s.invoke call' method a) (s.invoke call method a) := by
  have build (T : Terminal) : SameWhere P (do a.requireNone; T.run call' s)
      (do a.requireNone; T.run call s) :=
    .behind a.requireNone_keeps fun _ _ h =>
      Terminal.run_same_where keeps same fun _ ho => Invariant.inside h ho
  have search (method : String) :
      SameWhere P (s.invokeSearch call' method a) (s.invokeSearch call method a) := by
    unfold Stream.invokeSearch
    split <;> try with_reducible exact .refl _
    · exact build .subquery
    · exact build .existence
  unfold Stream.invoke
  split <;> try with_reducible exact .refl _
  · exact .behind (a.two_keeps _ _) fun (b, q) => configure_same_where keeps same _ b q
  · exact build .criteria
  · exact build .query
  · exact search _

theorem invoke_same_where (v : Value) (method : String) (a : ArgList) :
    SameWhere P (invoke call' v method a) (invoke call v method a) := by
  unfold invoke
  refine .behind (v.property?_keeps method) fun p => ?_
  cases p with
  | some f => exact .behind a.rest_keeps fun args => same f args
  | none =>
    dsimp only
    unfold invokeMethod
    split <;> try with_reducible exact .refl _
    exact Stream.invoke_same_where keeps same _ method a

end Calls

/-! ### Evaluation -/

section Evaluation

variable {P : Machine → Prop} [Invariant P] {watch plain : Eval}
  (keeps : ∀ scope e, Keeps (Preserves P) (plain scope e))
  (same : ∀ scope e, SameWhere P (watch scope e) (plain scope e))

include keeps same

/-- One level of evaluation does the same if what is nested does. -/
theorem evalStep_same_of_invariant (scope : Scope) (e : Expr) :
    SameWhere P (evalStep watch scope e) (evalStep plain scope e) := by
  have calls := callAny_same_where (P := P) keeps same
  cases e with
  | call e method args =>
    refine (same _ _).bind (keeps _ _) fun v =>
      (evalArguments_same_where keeps same scope args).bind (evalArguments_keeps keeps scope args)
        fun a => ?_
    exact invoke_same_where (callAny_keeps keeps) calls v method a
  | within builder query name body =>
    exact (same _ _).bind (keeps _ _) fun b => (same _ _).bind (keeps _ _) fun q =>
      .withFrame (fun _ => same _ _) b q
  | thread body => exact (same _ _).onStack []
  | task body => exact .behind .get fun m => (same _ _).onStack m.stack
  | _ => exact evalStep_same_where keeps same scope rfl

end Evaluation

/-! ### Programs -/

section Programs

variable {P : Machine → Prop} [Invariant P] {look : Run Unit}
  (quiet : ∀ m, P m → exec look m = (.ok (), m))

include quiet

theorem observed_same_where (depth : Nat) (scope : Scope) (e : Expr) :
    SameWhere P (observed look depth scope e) (eval depth scope e) := by
  induction depth generalizing scope e with
  | zero => exact .refl _
  | succ depth ih =>
    intro m h
    unfold observed
    rw [exec_bind_of_ok (quiet m h)]
    exact evalStep_same_of_invariant (eval_keeps depth) ih scope e m h

theorem runSteps_observed (steps : List ProgramStep) {m : Machine} (h : P m) :
    Eval.runSteps (observed look nestingLimit) steps m = runSteps steps m := by
  induction steps generalizing m with
  | nil => rfl
  | cons step steps ih =>
    have started : P { m with trace := [], log := [] } := Invariant.aside m m.stack [] [] h
    have same : exec (Eval.runStep (observed look nestingLimit) step) { m with trace := [], log := [] } =
        exec step.run { m with trace := [], log := [] } :=
      (observed_same_where quiet nestingLimit [] step.body).before _ _ started
    have left : P (exec step.run { m with trace := [], log := [] }).2 :=
      step.run_keeps (R := Preserves P) _ started
    unfold Eval.runSteps
    rw [same, runSteps_cons]
    dsimp only
    rw [ih left]

/-- A look that does nothing where an invariant holds can be taken at every moment of a program. -/
theorem runProgram_observed (settings : Diagnostics) (start : P (.start settings))
    (steps : List ProgramStep) :
    Eval.runProgram (observed look nestingLimit) settings steps = runProgram settings steps := by
  unfold Eval.runProgram
  rw [runSteps_observed quiet steps start]
  rfl

end Programs

end FluentQuery
