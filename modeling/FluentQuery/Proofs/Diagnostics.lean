import FluentQuery.Proofs.Evaluators
import FluentQuery.Proofs.Lockstep.Programs

/-! Logging what was compiled. A program that runs with the log of compiled queries does what it does
without, but that every query handed out by `to_query` has to have a statement, and a text where
anyone reads the log. -/

namespace FluentQuery

open Sql

/-! ### Checking queries -/

namespace Stream

/-- Asks for the statement of a query, and for its text if anyone reads the log. -/
def compile (s : Stream) (q : QueryId) : Run Unit := do
  let m ← get
  let statement ← liftExcept ((← q.read).statement m m.next)
  if (← get).settings.logging then
    discard (shownNow (.stream s))
    discard (orExternal statement.render.toOption)

end Stream

/-- Compiles the query that a call of a method handed out, if the method was `to_query`. -/
def Value.compile (v : Value) (method : String) (w : Value) : Run Unit :=
  match v, w with
  | .stream s, .query q => if method == "to_query" then s.compile q else pure ()
  | _, _ => pure ()

theorem Value.compile_eq_pure {v : Value} {method : String} (h : v.compilesBy method = false)
    (w : Value) : v.compile method w = pure () := by
  unfold compile
  split
  · have other : (method == "to_query") = false := h
    rw [other]
    rfl
  · rfl

/-- One level of evaluation that compiles every query that `to_query` hands out. -/
def checkedStep (eval : Eval) (scope : Scope) : Expr → Run Value
  | .call e method args => do
    let v ← eval scope e
    let a ← evalArguments eval scope args
    let w ← invoke (callAny eval) v method a
    v.compile method w
    return w
  | e => evalStep eval scope e

/-- Evaluation like `eval` that compiles every query that `to_query` hands out. -/
def checked : Nat → Eval
  | 0 => fun _ _ => fail .external
  | depth + 1 => checkedStep (checked depth)

/-! ### Logging and checking -/

variable {k : Margin}

theorem discard_eq {α : Type} (x : Run α) : discard x = (do let _ ← x; return PUnit.unit) :=
  map_eq_pure_bind (fun _ => PUnit.unit) x

/-- A line in the log, beside a computation that fails where its text does. -/
theorem logLine_agrees_unlogged {text : Run String} {silent : Run Unit}
    (ht : Agrees k (discard text) silent) :
    Agrees k (logLine text) (do if (← get).settings.logging then silent) := by
  intro m m' h
  unfold logLine
  rw [after, after, exec_bind_of_ok (exec_get m), exec_bind_of_ok (exec_get m'), h.logging]
  split
  · obtain ⟨result, left⟩ := ht m m' h
    rw [after_discard] at left
    rw [discard_eq, exec_bind] at result
    rw [after, after] at left
    rw [exec_bind]
    rcases hm : exec text m with ⟨e | line, n⟩ <;> rw [hm] at result left
    · exact ⟨result, left⟩
    · exact ⟨result, left.logs _ _⟩
  · exact ⟨rfl, h⟩

namespace Stream

/-- Logging on the first machine is compiling on the second, which logs nothing. -/
theorem logCompiled_agrees (s : Stream) (q : QueryId) :
    Agrees .compiled (s.logCompiled q) (do s.logCompiled q; s.compile q) := by
  intro m m' h
  obtain ⟨on, off⟩ := h.settings
  have silent : exec (s.logCompiled q) m' = (.ok (), m') := by
    unfold logCompiled
    rw [exec_bind_of_ok (exec_get m'), off]
    rfl
  rw [after, after, exec_bind_of_ok silent]
  unfold logCompiled compile
  rw [exec_bind_of_ok (exec_get m), exec_bind_of_ok (exec_get m'), on]
  have same (x : Executable) : x.statement m' m'.next = x.statement m m.next := by
    rw [h.rest]
    exact m.statement_amid m' m.next x
  simp only [if_true, same]
  refine (Unswayed.agrees q.read_unswayed).bind (fun x => ?_) m m' h
  refine (Unswayed.agrees (liftExcept_unswayed _)).bind fun statement => ?_
  refine logLine_agrees_unlogged ?_
  simp only [discard_eq, bind_assoc, pure_bind]
  exact Unswayed.agrees (by grind)

/-- Building on the first machine is building and compiling on the second. -/
theorem toQuery_agrees_compiled {call call' : Call}
    (hc : ∀ f args, Agrees .compiled (call f args) (call' f args)) (s : Stream) :
    Agrees .compiled (s.toQuery call) (do
      let w ← s.toQuery call'
      (Value.stream s).compile "to_query" w
      return w) := by
  unfold toQuery
  split
  · rename_i t _
    simp only [bind_assoc, pure_bind]
    refine (s.toContext_agrees (k := .compiled) hc).bind fun v => ?_
    refine .behind (t.createQuery_unswayed _ _) fun q => .behind q.read_unswayed fun x => ?_
    refine .behind (MappingId.update_unswayed _ _) fun _ => ?_
    refine .behind (MappingId.update_unswayed _ _) fun _ => ?_
    refine .behind (q.write_unswayed _) fun _ => ?_
    simp only [← bind_assoc]
    exact (s.logCompiled_agrees q).before fun _ => .pure _
  · exact fun _ _ h => ⟨rfl, h⟩

end Stream

/-! ### Programs -/

/-- A call of `to_query`: a build that the first machine logs and the second checks. -/
theorem invoke_agrees_compiled {call call' : Call}
    (hc : ∀ f args, Agrees .compiled (call f args) (call' f args)) (s : Stream) (a : ArgList) :
    Agrees .compiled (invoke call (.stream s) "to_query" a) (do
      let w ← invoke call' (.stream s) "to_query" a
      (Value.stream s).compile "to_query" w
      return w) := by
  have method (call : Call) : invoke call (.stream s) "to_query" a = s.invoke call "to_query" a := rfl
  rw [method, method]
  unfold Stream.invoke
  cases s.kind with
  | base => exact fun _ _ h => ⟨rfl, h⟩
  | common | of =>
    simp only [bind_assoc]
    exact .behind a.requireNone_unswayed fun _ => s.toQuery_agrees_compiled hc

section Evaluation

variable {eval eval' : Eval} (he : ∀ scope e, Agrees .compiled (eval scope e) (eval' scope e))

include he

/-- One level of evaluation with the log is one level of checked evaluation without it. -/
theorem evalStep_agrees_checkedStep (scope : Scope) (e : Expr) :
    Agrees .compiled (evalStep eval scope e) (checkedStep eval' scope e) := by
  cases e with
  | depth =>
    intro m m' h
    have same : m'.stack = m.stack := h.frames
    change (exec (get >>= _) m').1 = (exec (get >>= _) m).1 ∧ Abreast .compiled m m'
    rw [exec_bind_of_ok (exec_get m), exec_bind_of_ok (exec_get m'), same]
    exact ⟨rfl, h⟩
  | call e method args =>
    refine (he _ _).bind fun v => (evalArguments_agrees (k := .compiled) he _ _).bind fun a => ?_
    by_cases compiles : v.compilesBy method = true
    · obtain ⟨s, rfl, rfl⟩ : ∃ s, v = .stream s ∧ method = "to_query" := by
        cases v with
        | stream s => exact ⟨s, rfl, by simpa [Value.compilesBy] using compiles⟩
        | _ => cases compiles
      exact invoke_agrees_compiled (callAny_agrees (k := .compiled) he) s a
    · have quiet : v.compilesBy method = false := by simpa using compiles
      simp only [Value.compile_eq_pure quiet, pure_bind, bind_pure]
      exact invoke_agrees (k := .compiled) (callAny_agrees (k := .compiled) he) v (.inr quiet) a
  | _ => exact evalStep_agrees_of (k := .compiled) he scope (by simp) (by simp)

end Evaluation

/-- Evaluation with the log is checked evaluation without it. -/
theorem eval_agrees_checked (depth : Nat) (scope : Scope) (e : Expr) :
    Agrees .compiled (eval depth scope e) (checked depth scope e) := by
  induction depth generalizing scope e with
  | zero => exact .fail _
  | succ depth ih => exact evalStep_agrees_checkedStep ih scope e

/-- What a step shows beside its log. -/
def StepAnswer.shown (a : StepAnswer) : Except Error Description × List Description :=
  (a.outcome, a.trace)

/-- The settings with or without the log of compiled queries. -/
def Diagnostics.compiling (d : Diagnostics) (b : Bool) : Diagnostics := { d with logCompiledSql := b }

theorem runStep_agrees_checked (step : ProgramStep) :
    Agrees .compiled step.run (Eval.runStep (checked nestingLimit) step) := by
  refine (eval_agrees_checked nestingLimit [] step.body).before fun v => ?_
  split <;> grind

theorem runSteps_checked (steps : List ProgramStep) {m m' : Machine} (h : Abreast .compiled m m') :
    (Eval.runSteps (checked nestingLimit) steps m').1.map StepAnswer.shown =
        (runSteps steps m).1.map StepAnswer.shown ∧
      Abreast .compiled (runSteps steps m).2
        (Eval.runSteps (checked nestingLimit) steps m').2 := by
  induction steps generalizing m m' with
  | nil => exact ⟨rfl, h⟩
  | cons step steps ih =>
    have started : Abreast .compiled { m with trace := [], log := [] }
        { m' with trace := [], log := [] } := by
      refine ⟨?_, h.frames, h.settings⟩
      rw [h.rest]
      rfl
    obtain ⟨outcome, left⟩ := runStep_agrees_checked step _ _ started
    obtain ⟨shown, last⟩ := ih left
    have trace : (after (Eval.runStep (checked nestingLimit) step)
        { m' with trace := [], log := [] }).trace =
          (after step.run { m with trace := [], log := [] }).trace := by
      rw [left.rest]
      rfl
    rw [runSteps_cons]
    refine ⟨?_, last⟩
    exact List.cons_eq_cons.mpr ⟨Prod.ext outcome trace, shown⟩

/-- What compiling a query comes to: it fails with the error of the statement, or where the log is read
and the stream or the statement has no text, and it changes nothing. -/
theorem Stream.exec_compile {s : Stream} {q : QueryId} {x : Executable} {m : Machine}
    (hx : m.query? q = some x) :
    exec (s.compile q) m = (match x.statement m m.next with
      | .error e => .error e
      | .ok statement =>
        if m.settings.logging ∧
            ¬(((Value.stream s).shown? m).isSome ∧ statement.render.toOption.isSome)
        then .error .external else .ok (), m) := by
  unfold compile
  rw [exec_bind_of_ok (exec_get m), exec_bind_of_ok (QueryId.exec_read_of_some hx)]
  rcases x.statement m m.next with e | statement
  · rfl
  · rw [exec_bind_of_ok (exec_liftExcept_ok statement m), exec_bind_of_ok (exec_get m)]
    by_cases logging : m.settings.logging
    · simp only [logging, if_true, discard_eq, exec_bind, exec_shownNow, exec_orExternal, true_and]
      cases (Value.stream s).shown? m with
      | none => rfl
      | some text => cases statement.render.toOption <;> rfl
    · simp [logging]

/-- Every step shows the same, and the stack ends equally deep. -/
def ProgramAnswer.ShowsAs (a b : ProgramAnswer) : Prop :=
  a.steps.map StepAnswer.shown = b.steps.map StepAnswer.shown ∧ a.depth = b.depth

/-- A program that runs with the log of compiled queries does what it does without when every query that
`to_query` hands out is compiled there: each expression gives the same value or error and leaves a
machine that differs in its log and in that setting alone, so each step shows the same. Without the log
nothing is compiled, so the setting shows exactly where compiling fails: where a query handed out
has no statement, or where the log is read and there is no text for it. -/
theorem compiled_log_demands_statements (settings : Diagnostics) (steps : List ProgramStep) :
    let loud := runProgram (settings.compiling true) steps
    let quiet := runProgram (settings.compiling false) steps
    let compiled := Eval.runProgram (checked nestingLimit) (settings.compiling false) steps
    loud.ShowsAs compiled ∧ (loud.ShowsAs quiet ↔ compiled.ShowsAs quiet) ∧
    (∀ depth scope e, Agrees .compiled (eval depth scope e) (checked depth scope e)) ∧
    ∀ (s : Stream) (q : QueryId) (x : Executable) (m : Machine), m.query? q = some x →
      exec (s.compile q) m = (match x.statement m m.next with
        | .error e => .error e
        | .ok statement =>
          if m.settings.logging ∧
            ¬(((Value.stream s).shown? m).isSome ∧ statement.render.toOption.isSome)
          then .error .external else .ok (), m) := by
  intro loud quiet compiled
  have started : Abreast .compiled (.start (settings.compiling true))
      (.start (settings.compiling false)) := ⟨rfl, rfl, rfl, rfl⟩
  obtain ⟨shown, last⟩ := runSteps_checked steps started
  have same : loud.ShowsAs compiled := ⟨shown.symm, congrArg List.length last.frames.symm⟩
  refine ⟨same, ?_, eval_agrees_checked, fun s q x m hx => Stream.exec_compile hx⟩
  unfold ProgramAnswer.ShowsAs
  rw [same.1, same.2]

/-- An update that sets nothing is handed out without the log and has no statement. -/
theorem compiled_log_demands_statements_unset :
    let product : Value := .mapped ⟨.product, none⟩
    let s : Stream := ⟨2, .of .update, .null, .queryType ⟨3, .update, product⟩,
      .configurer ⟨4, .root product, []⟩, .unset, .unset, [], []⟩
    let m : Machine := { Machine.start ⟨false, false, false⟩ with
      contexts := [.ofKind (.update product [])]
      queries := [⟨.bulk, .null, .context ⟨0⟩, ⟨0⟩, ⟨1⟩, .unset, .unset⟩], mappings := [[], []] }
    exec (s.compile ⟨0⟩) m = (.error .noAssignments, m) := by
  intro product s m
  rw [(compiled_log_demands_statements ⟨false, false, false⟩ []).2.2.2 s ⟨0⟩
    ⟨.bulk, .null, .context ⟨0⟩, ⟨0⟩, ⟨1⟩, .unset, .unset⟩ m rfl]
  rfl

end FluentQuery
