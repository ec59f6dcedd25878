import FluentQuery.Proofs.Balance

/-! Programs run by an evaluator. The one that programs are run by is `eval nestingLimit`; another may
look on, check more or refuse something, and is then compared with it. -/

namespace FluentQuery

namespace Eval

/-- Runs one step of a program. -/
def runStep (eval : Eval) (step : ProgramStep) : Run Description := do
  let v ← eval [] step.body
  if let some name := step.name? then setGlobal name v
  describeNow v

/-- Runs the steps in order; a failing one does not keep the next from running. -/
def runSteps (eval : Eval) : List ProgramStep → Machine → List StepAnswer × Machine
  | [], m => ([], m)
  | step :: steps, m =>
    let (outcome, m) := exec (runStep eval step) { m with trace := [], log := [] }
    let (answers, last) := runSteps eval steps m
    (⟨outcome, m.trace, m.log⟩ :: answers, last)

/-- Runs a program. -/
def runProgram (eval : Eval) (settings : Diagnostics) (steps : List ProgramStep) : ProgramAnswer :=
  let (answers, m) := runSteps eval steps (.start settings)
  ⟨answers, m.stack.length⟩

theorem runSteps_eval (steps : List ProgramStep) (m : Machine) :
    runSteps (eval nestingLimit) steps m = FluentQuery.runSteps steps m := by
  induction steps generalizing m with
  | nil => rfl
  | cons step steps ih =>
    unfold runSteps
    simp only [ih]
    rfl

theorem runProgram_eval (settings : Diagnostics) (steps : List ProgramStep) :
    runProgram (eval nestingLimit) settings steps = FluentQuery.runProgram settings steps := by
  unfold runProgram
  rw [runSteps_eval]
  rfl

end Eval

end FluentQuery
