import FluentQuery.Interface
import FluentQuery.Operation

/-!
Evaluating programs. Expressions and function calls nest down to a limit; what
goes deeper is a misuse.
-/

namespace FluentQuery

open Sql

/-- The parameters in scope, innermost first. -/
abbrev Scope := List (String × Value)

/-- How an expression is evaluated. -/
abbrev Eval := Scope → Expr → Run Value

/-- Calls a function of a program; of two parameters of one name the last counts. -/
def callClosure (eval : Eval) : Call := fun f args =>
  match f with
  | .closure c =>
    if c.params.length == args.length then eval ((c.params.zip args).reverse ++ c.scope) c.body
    else fail .external
  | _ => fail .external

/-- Calls anything a program can call. -/
def callAny (eval : Eval) : Call := fun f args =>
  match f, args with
  | .configurer c, [builder, query] => c.run (callClosure eval) builder query
  | f, args => callClosure eval f args

def readVariable (scope : Scope) (name : String) : Run Value := do
  match scope.lookup name with
  | some v => return v
  | none =>
    match (← get).globals.lookup name with
    | some v => return v
    | none => fail (.undefinedVariable name)

def setGlobal (name : String) (v : Value) : Run Unit :=
  modify fun m => { m with globals := assoc name v m.globals }

def evalAll (eval : Eval) (scope : Scope) : List Expr → Run (List Value)
  | [] => return []
  | e :: es => do
    let v ← eval scope e
    return v :: (← evalAll eval scope es)

def evalFields (eval : Eval) (scope : Scope) : List (String × Expr) → Run (List (String × Value))
  | [] => return []
  | (k, e) :: es => do
    let v ← eval scope e
    return (k, v) :: (← evalFields eval scope es)

def evalArguments (eval : Eval) (scope : Scope) (a : Arguments) : Run ArgList := do
  let positional ← evalAll eval scope a.positional
  return ⟨positional, ← evalFields eval scope a.keyword⟩

/-- One level of evaluation; `eval` evaluates what is nested. -/
def evalStep (eval : Eval) (scope : Scope) : Expr → Run Value
  | .literal d => Value.written d
  | .list es => do newList (← evalAll eval scope es)
  | .tuple es => do newTuple (← evalAll eval scope es)
  | .variable name => readVariable scope name
  | .assign name e => do
    let v ← eval scope e
    setGlobal name v
    return v
  | .block es => return (← evalAll eval scope es).getLastD .null
  | .function params body => return .closure ⟨← fresh, params, body, scope⟩
  | .apply f args => do
    let g ← eval scope f
    callAny eval g (← evalAll eval scope args)
  | .trace e => do
    let v ← eval scope e
    note (← describeNow v)
    return v
  | .attempt e =>
    try eval scope e
    catch err => do
      note (.failure err)
      return .null
  | .fail e => fail e
  | .identical a b => do
    let v ← eval scope a
    return .bool (v.same (← eval scope b))
  | .equal a b => do
    let v ← eval scope a
    return .bool (← Operation.equal v (← eval scope b))
  | .sameHash a b => do
    let v ← eval scope a
    return .bool (← Operation.sameHash v (← eval scope b))
  | .isInstance e className => do
    let v ← eval scope e
    return .bool ((v.classes (← get)).contains className)
  | .entity e => return .mapped ⟨e, none⟩
  | .session spec => return .session ⟨← fresh, spec⟩
  | .construct className args => do construct className (← evalArguments eval scope args)
  | .get e name => do
    let v ← eval scope e
    orExternal (← v.property? name)
  | .set e name x => do
    let v ← eval scope e
    setProperty v name (← eval scope x)
    return .null
  | .call e method args => do
    let v ← eval scope e
    invoke (callAny eval) v method (← evalArguments eval scope args)
  | .shown e => do newText (← shownNow (← eval scope e))
  | .compose args => do
    extendConfigurer "modifier" .modify (← evalArguments eval scope args)
  | .transform args => do
    extendConfigurer "transformer" .transform (← evalArguments eval scope args)
  | .resolveAttribute args => do resolve (← evalArguments eval scope args)
  | .currentFrame => return .frame (← currentFrame)
  | .currentSubquery => return .context (← currentSubquery)
  | .depth => return .int 0 (← get).stack.length
  | .within builder query name body => do
    let b ← eval scope builder
    let q ← eval scope query
    withFrame b q fun frame => eval ((name, .frame frame) :: scope) body
  | .thread body => onStack [] (eval scope body)
  | .task body => do onStack (← get).stack (eval scope body)
  | .arithmetic op a b => do
    let v ← eval scope a
    Operation.arithmetic op v (← eval scope b)
  | .compare op a b => do
    let v ← eval scope a
    Operation.compare op v (← eval scope b)
  | .connect op es => do Expression.connect op (← evalAll eval scope es)
  | .not e => do Expression.not (← eval scope e)
  | .among e values => do Expression.among (← eval scope e) values
  | .like e pattern => do
    let v ← eval scope e
    Expression.like v (← eval scope pattern)
  | .sqlFunction name args => do Expression.call name (← evalAll eval scope args)
  | .parameter name => Expression.parameter name
  | .sorted d e => do Expression.sorted d (← eval scope e)

/-- Evaluation of what is nested at most `depth` levels deep. -/
def eval : Nat → Eval
  | 0 => fun _ _ => fail .external
  | depth + 1 => evalStep (eval depth)

/-- How deep programs may nest. -/
def nestingLimit : Nat := 3000

/-! ### Programs -/

/-- What one step of a program shows. -/
structure StepAnswer where
  outcome : Except Error Description
  trace : List Description
  log : List String

/-- What a whole program shows. -/
structure ProgramAnswer where
  steps : List StepAnswer
  depth : Nat

/-- Runs one step: its value goes into its variable and is described. -/
def ProgramStep.run (step : ProgramStep) : Run Description := do
  let v ← eval nestingLimit [] step.body
  if let some name := step.name? then setGlobal name v
  describeNow v

/-- Runs the steps in order; a failing one does not keep the next from running. -/
def runSteps : List ProgramStep → Machine → List StepAnswer × Machine
  | [], m => ([], m)
  | step :: steps, m =>
    let (outcome, m) := step.run.run { m with trace := [], log := [] }
    let (answers, last) := runSteps steps m
    (⟨outcome, m.trace, m.log⟩ :: answers, last)

/-- The machine a program starts on: `qb` builds queries over a session without rows. -/
def Machine.start (settings : Diagnostics) : Machine :=
  let m := Machine.initial settings
  { m with
    next := 2
    globals := [("qb", .queryBuilder 0 (.session ⟨1, ⟨some [], none, none⟩⟩))] }

/-- Runs a program. -/
def runProgram (settings : Diagnostics) (steps : List ProgramStep) : ProgramAnswer :=
  let (answers, m) := runSteps steps (.start settings)
  ⟨answers, m.stack.length⟩

end FluentQuery
