import FluentQuery.Proofs.Guarantee.Programs

/-! The construction stack is balanced: whatever an expression does on its way, and
whether it returns or fails, the stack is afterwards what it was before. -/

namespace FluentQuery

/-- The stack is what it was. -/
def SameStack (m m' : Machine) : Prop := m'.stack = m.stack

namespace SameStack

theorem onStack {α : Type} (stack : List Frame) (body : Run α) :
    Keeps SameStack (onStack stack body) := by
  intro m
  rw [after, exec_onStack]
  rfl

instance : Inert SameStack where
  refl _ := rfl
  trans hab hbc := hbc.trans hab
  fresh _ := rfl
  newMapping _ _ := rfl
  log _ _ := rfl
  handle _ _ := rfl

theorem blind (m : Machine) (contexts : List Context) : SameStack m { m with contexts } := rfl

instance : Creating SameStack where
  newRef _ := rfl
  bind r v m := by
    rw [after, exec_bindRef]
    split <;> rfl
  unbind _ _ := rfl
  newContext _ _ := rfl
  updateMapping _ _ _ := rfl
  newQuery _ _ := rfl
  writeQuery _ _ _ := rfl
  note _ _ := rfl
  setGlobal _ _ _ := rfl
  onStack stack body _ := onStack stack body

instance : Guarantee SameStack := .of_blind blind

end SameStack

/-! ### Programs -/

theorem exec_thread (depth : Nat) (scope : Scope) (body : Expr) (m : Machine) :
    exec (eval (depth + 1) scope (.thread body)) m =
      let (result, last) := exec (eval depth scope body) { m with stack := [] }
      (result, { last with stack := m.stack }) :=
  exec_onStack [] _ m

theorem ProgramStep.run_stack (step : ProgramStep) (m : Machine) :
    (after step.run m).stack = m.stack := by
  have keeps : Keeps SameStack step.run := by
    unfold ProgramStep.run
    refine (eval_keeps _ _ _).bind fun v => ?_
    split <;> grind
  exact keeps m

theorem runSteps_cons (step : ProgramStep) (steps : List ProgramStep) (m : Machine) :
    runSteps (step :: steps) m =
      let (outcome, m₁) := exec step.run { m with trace := [], log := [] }
      (⟨outcome, m₁.trace, m₁.log⟩ :: (runSteps steps m₁).1, (runSteps steps m₁).2) := rfl

theorem runSteps_append (xs ys : List ProgramStep) (m : Machine) :
    runSteps (xs ++ ys) m =
      ((runSteps xs m).1 ++ (runSteps ys (runSteps xs m).2).1, (runSteps ys (runSteps xs m).2).2) := by
  induction xs generalizing m with
  | nil => rfl
  | cons x xs ih =>
    simp only [List.cons_append, runSteps_cons, ih]

theorem runSteps_stack (steps : List ProgramStep) (m : Machine) :
    (runSteps steps m).2.stack = m.stack := by
  induction steps generalizing m with
  | nil => rfl
  | cons step steps ih =>
    rw [runSteps_cons]
    exact (ih _).trans (step.run_stack { m with trace := [], log := [] })

/-- However it ends, an expression leaves the stack it found. A thread's body starts from the empty
stack and a task's body from the caller's, which both get back. So after any number of steps of any
program the stack is empty. -/
theorem eval_stack_balanced :
    (∀ depth scope e m, (after (eval depth scope e) m).stack = m.stack) ∧
    (∀ depth scope body m, exec (eval (depth + 1) scope (.thread body)) m =
      let (result, last) := exec (eval depth scope body) { m with stack := [] }
      (result, { last with stack := m.stack })) ∧
    (∀ depth scope body m, exec (eval (depth + 1) scope (.task body)) m =
      let (result, last) := exec (eval depth scope body) { m with stack := m.stack }
      (result, { last with stack := m.stack })) ∧
    (∀ settings done rest,
      let m := (runSteps done (.start settings)).2
      (runSteps (done ++ rest) (.start settings)).2 = (runSteps rest m).2 ∧
      m.stack = [] ∧ exec (eval nestingLimit [] .depth) m = (.ok (.int 0 0), m)) ∧
    ∀ settings steps, (runProgram settings steps).depth = 0 := by
  refine ⟨?_, exec_thread, fun depth scope body m => exec_onStack m.stack _ m, ?_, ?_⟩
  · exact fun depth scope e m => eval_keeps (R := SameStack) depth scope e m
  · intro settings done rest m
    have empty : m.stack = [] := runSteps_stack done (.start settings)
    refine ⟨?_, empty, ?_⟩
    · rw [runSteps_append]
    · have depth : exec (eval nestingLimit [] .depth) m = (.ok (.int 0 m.stack.length), m) := rfl
      rw [depth, empty]
      rfl
  · intro settings steps
    have empty : (runSteps steps (.start settings)).2.stack = [] :=
      runSteps_stack steps (.start settings)
    exact congrArg List.length empty

end FluentQuery
