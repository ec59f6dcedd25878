import FluentQuery.Proofs.Order.Events

/-! What each step of a configuration asks for: its functions are called with the selection,
in order and once each, and a Ref is bound last. -/

namespace FluentQuery

/-! ### Quiet computations -/

/-- Nothing was traced, no Ref was bound or unbound, no variable assigned, and the stack and the
settings are as they were. -/
structure Idle (m m' : Machine) : Prop where
  trace : m'.trace = m.trace
  refs : m'.refs = m.refs
  globals : m'.globals = m.globals
  settings : m'.settings = m.settings
  stack : m'.stack = m.stack

namespace Idle

instance : Inert Idle where
  refl _ := ⟨rfl, rfl, rfl, rfl, rfl⟩
  trans h h' := ⟨h'.trace.trans h.trace, h'.refs.trans h.refs, h'.globals.trans h.globals,
    h'.settings.trans h.settings, h'.stack.trans h.stack⟩
  fresh _ := ⟨rfl, rfl, rfl, rfl, rfl⟩
  newMapping _ _ := ⟨rfl, rfl, rfl, rfl, rfl⟩
  log _ _ := ⟨rfl, rfl, rfl, rfl, rfl⟩
  handle _ _ := ⟨rfl, rfl, rfl, rfl, rfl⟩

theorem blind (m : Machine) (contexts : List Context) : Idle m { m with contexts } :=
  ⟨rfl, rfl, rfl, rfl, rfl⟩

instance : Composing Idle := .of_blind blind

end Idle

/-! ### Requests -/

/-- Whether a value is assigned by calling it with the selection. -/
def Value.isAssigner (v : Value) : Bool := !v.isExpression && v.isCallable

/-- The function that reads off a selection, if one does. -/
def Projection.functions : Projection → List Value
  | function f => [f]
  | whole | named _ | held _ => []

namespace Step

/-- The functions a step calls, in order. -/
def functions : Step → List Value
  | filter _ p | having p | map p | group (.key p) | bind _ p => p.functions
  | peek f | sort (.listed f) | group (.listed f) | modify f | transform f => [f]
  | sort (.keys keys) => keys.flatMap (·.1.functions)
  | assign _ v => if v.isAssigner then [v] else []
  | distinct | addRoot .. | join .. | count | bounded _ => []

/-- What the functions of a step are called with: the selection, after builder and query if they are
functions of those too. -/
def arguments (builder query selection : Value) : Step → List Value
  | modify _ | transform _ => [builder, query, selection]
  | _ => [selection]

/-- What a step calls, in order, when it is applied to a selection. -/
def requests (builder query selection : Value) (step : Step) : List Request :=
  step.functions.map (.call · (step.arguments builder query selection))

end Step

/-- The Ref a step binds behind all else it does. -/
def Step.ref? : Step → Option RefId
  | bind r _ | addRoot r _ => some r
  | _ => none

/-- What a step does before it binds its Ref, if it has one. -/
def Step.work (call : Call) (builder query selection : Value) : Step → Run Value
  | bind _ p => p.read call selection
  | addRoot _ entity => do (← query.asContext).addRoot entity
  | step => step.apply call builder query selection

/-- Binds the Ref of a step, which then leaves the selection; other steps are done. -/
def Step.finish (selection v : Value) (step : Step) : Run Value :=
  match step.ref? with
  | some r => do
    r.bind v
    return selection
  | none => return v

theorem Step.apply_eq (call : Call) (builder query selection : Value) (step : Step) :
    step.apply call builder query selection =
      step.work call builder query selection >>= fun v => step.finish selection v := by
  cases step with
  | bind r p => rfl
  | addRoot r entity => simp only [apply, work, finish, ref?, bind_assoc]
  | _ => exact (bind_pure _).symm

/-- Whether a step replaces the selection. -/
def Step.selects : Step → Bool
  | join .. | map _ | count | transform _ => true
  | _ => false

section Steps

variable {L : Machine → Machine → Prop} [Inert L]

theorem Projection.read_conducts (selection : Value) (p : Projection) :
    Conducts L (fun k => p.read k selection) (p.functions.map (.call · [selection])) := by
  cases p with
  | whole => exact .quiet (.pure _)
  | named key => exact .quiet (resolveAttribute_keeps _ _)
  | function f => exact .calling f _
  | held r => exact .quiet r.read_keeps

theorem Ordering.ordered_conducts (builder selection : Value) (keys : List (Projection × Value)) :
    Conducts L (fun k => Ordering.clauses.ordered k builder selection keys)
      ((keys.flatMap (·.1.functions)).map (.call · [selection])) := by
  induction keys with
  | nil => exact .quiet (.pure [])
  | cons key keys ih =>
    obtain ⟨p, ascending⟩ := key
    rw [List.flatMap_cons, List.map_append]
    refine .behind (requireBuilder_keeps _) fun _ => ?_
    refine .andThen (p.read_conducts selection) fun v => ?_
    refine .behind (truth_keeps _) fun _ => .behind (Expression.sorted_keeps _ _) fun w => ?_
    exact ih.before fun _ => .pure _

theorem Ordering.clauses_conducts (builder selection : Value) (o : Ordering) :
    Conducts L (fun k => o.clauses k builder selection)
      ((Step.sort o).requests builder .null selection) := by
  cases o with
  | keys keys => exact ordered_conducts builder selection keys
  | listed f => exact (Conducts.calling f _).before fun v => itemsOf_keeps v

theorem assignedValue_conducts (selection v : Value) :
    Conducts L (fun k => assignedValue k selection v)
      ((if v.isAssigner then [v] else []).map (.call · [selection])) := by
  unfold assignedValue Value.isAssigner
  split
  · exact .calling v _
  · exact .quiet (.pure v)

/-- What is done with the query context a value is makes the calls that it makes there. -/
theorem Conducts.onContext {α : Type} {query : Value} {f : Call → ContextId → Run α}
    {rs : List Request} (h : ∀ c, query = .context c → Conducts L (fun k => f k c) rs) :
    Conducts L (fun k => query.asContext >>= f k) rs := by
  cases query with
  | context c =>
    simp only [show (Value.context c).asContext = pure c from rfl, pure_bind]
    exact h c rfl
  | _ => exact .refuse _ f

/-- So does what is done with it if it is that of a whole search. -/
theorem Conducts.onOutermost {α : Type} {query : Value} {a : Arranging}
    {f : Call → ContextId → Run α} {rs : List Request}
    (h : ∀ c, query = .context c → Conducts L (fun k => f k c) rs) :
    Conducts L (fun k => requireOutermost query a >>= f k) rs := by
  unfold requireOutermost
  cases query with
  | context c =>
    simp only [bind_assoc]
    refine .behind c.read_keeps fun x => ?_
    split
    · simp only [pure_bind]
      exact h c rfl
    · exact .refuse _ f
  | _ => exact .refuse _ f

/-- A step makes its calls, and all else it does is quiet if operations on its query context are. -/
theorem Step.work_conducts {query : Value} (tells : ∀ c, query = .context c → KeepsTold L c)
    (builder selection : Value) (step : Step) :
    Conducts L (fun k => step.work k builder query selection)
      (step.requests builder query selection) := by
  cases step with
  | filter queryType p =>
    refine (p.read_conducts selection).before fun v => (asContext_keeps _).bind fun c => ?_
    refine (conjoin_keeps _ _ _).bind fun r => ?_
    cases queryType with
    | queryType t => exact (QueryType.restrict_keeps_of tells _).bind fun _ => .pure _
    | _ => exact .fail_bind _ _
  | peek f =>
    refine .before (f := fun _ => pure selection) ?_ fun _ => .pure _
    exact (Conducts.calling f _).map _
  | bind r p => exact p.read_conducts selection
  | distinct =>
    exact .quiet (.onContext fun c hq => ((tells c hq).change (.distinct _)).bind fun _ => .pure _)
  | sort o =>
    have clauses := o.clauses_conducts (L := L) builder selection
    refine .onOutermost fun c hq => ?_
    have told (items : List Value) :
        Keeps L (do c.update (·.orderBy items); return selection) :=
      ((tells c hq).change (.orderBy items)).bind fun _ => .pure _
    cases o <;> exact clauses.before told
  | group g =>
    refine .onOutermost fun c hq => ?_
    have told (items : List Value) :
        Keeps L (do c.update (·.groupBy items); return selection) :=
      ((tells c hq).change (.groupBy items)).bind fun _ => .pure _
    cases g with
    | key p => exact ((p.read_conducts selection).before fun v => .pure _).before told
    | listed f => exact ((Conducts.calling f _).before fun v => itemsOf_keeps v).before told
  | having p =>
    refine .onContext fun c hq => .behind c.read_keeps fun x => .guarded ?_
    exact (p.read_conducts selection).before fun v =>
      ((tells c hq).change (.having _)).bind fun _ => .pure _
  | addRoot r entity => exact .quiet (.onContext fun c hq => (tells c hq).addRoot_keeps _)
  | join key outer => exact .quiet (.onContext fun c hq => (tells c hq).join_keeps _ _ _)
  | map p => exact p.read_conducts selection
  | count => exact .quiet (.onContext fun c hq => countSelection_keeps_of _ (tells c hq) _)
  | assign key v =>
    refine .onContext fun c hq => .behind c.read_keeps fun x => .guarded ?_
    exact (assignedValue_conducts selection v).before fun w =>
      ((tells c hq).assign_keeps _ _).bind fun _ => .pure _
  | bounded b =>
    refine .quiet ?_
    cases query with
    | context c =>
      refine c.read_keeps.bind fun x => ?_
      split
      · exact .fail_bind _ _
      · exact .pure _
    | _ => exact .pure _
  | modify f =>
    refine .before (f := fun _ => pure selection) ?_ fun _ => .pure _
    exact (Conducts.calling f _).map _
  | transform f => exact .calling f _

end Steps

/-! ### The selection -/

/-- Nothing but `a` is returned. -/
def Yields {α : Type} (a : α) (x : Run α) : Prop := ∀ m b m', exec x m = (.ok b, m') → b = a

namespace Yields

variable {α β : Type} {a : β}

theorem pure (a : β) : Yields a (Pure.pure a) := by
  intro m b m' h
  exact (exec_pure_eq_ok.mp h).1.symm

theorem fail (e : Error) : Yields a (FluentQuery.fail e) := by
  intro m b m' h
  cases h

theorem fail_bind (e : Error) (f : α → Run β) : Yields a (FluentQuery.fail e >>= f) := by
  intro m b m' h
  cases h

theorem bind {x : Run α} {f : α → Run β} (h : ∀ b, Yields a (f b)) : Yields a (x >>= f) := by
  intro m b m' hb
  obtain ⟨c, m₁, -, hc⟩ := exec_bind_eq_ok.mp hb
  exact h c m₁ b m' hc

end Yields

/-- A step that does not select leaves the selection. -/
theorem Step.apply_yields {step : Step} (h : step.selects = false) (call : Call)
    (builder query selection : Value) :
    Yields selection (step.apply call builder query selection) := by
  cases step with
  | filter queryType p =>
    refine .bind fun v => .bind fun c => .bind fun r => ?_
    cases queryType with
    | queryType t => exact .bind fun _ => .pure _
    | _ => exact .fail_bind _ _
  | peek f => exact .bind fun _ => .pure _
  | bind r p => exact .bind fun _ => .bind fun _ => .pure _
  | distinct => exact .bind fun _ => .bind fun _ => .pure _
  | sort o => exact .bind fun _ => .bind fun _ => .bind fun _ => .pure _
  | group g => exact .bind fun _ => .bind fun _ => .bind fun _ => .pure _
  | having p =>
    refine .bind fun c => .bind fun x => ?_
    split
    · exact .fail_bind _ _
    · exact .bind fun _ => .bind fun _ => .pure _
  | addRoot r entity => exact .bind fun _ => .bind fun _ => .bind fun _ => .pure _
  | assign key v =>
    refine .bind fun c => .bind fun x => ?_
    split
    · exact .fail_bind _ _
    · exact .bind fun _ => .bind fun _ => .pure _
  | bounded b =>
    cases query with
    | context c =>
      refine .bind fun x => ?_
      split
      · exact .fail_bind _ _
      · exact .pure _
    | _ => exact .pure _
  | modify f => exact .bind fun _ => .pure _
  | join | map | count | transform => cases h

/-! ### Steps -/

/-- How a step ends whose calls are known: it fails, having made them up to the failure and bound
nothing, or it returns, having made all of them and bound its Ref. -/
theorem Step.apply_makes_of {L : Machine → Machine → Prop} [Inert L] {builder query selection : Value}
    {rs : List Request} {step : Step}
    (work : Conducts L (fun k => step.work k builder query selection) rs) (call : Call) (m : Machine) :
    (∃ es err m', Makes L call (fun k => step.apply k builder query selection) m es
        (.error err) m' ∧ Asks rs es (some err)) ∨
      ∃ es bs v m', Makes L call (fun k => step.apply k builder query selection) m (es ++ bs)
        (.ok v) m' ∧ Asks rs es none ∧ bs.map (·.request) = (step.ref?.map .bind).toList := by
  simp only [Step.apply_eq]
  obtain ⟨es, r, m₁, makes, asks⟩ := work call m
  rcases r with err | v
  · exact .inl ⟨es, err, m₁, .stop makes, asks⟩
  unfold finish
  rcases step.ref? with _ | r
  · refine .inr ⟨es, [], v, m₁, .andThen makes ?_, asks, rfl⟩
    exact .quiet (x := pure v) (Inert.refl m₁)
  · rcases Makes.of_bind (L := L) call r v m₁ with ⟨err, refused⟩ | ⟨m₂, bound⟩
    · refine .inl ⟨es ++ [], err, m₁, .andThen makes (.stop refused), ?_⟩
      have refuses : Asks [] [] (some err) := .refused
      simpa using asks.append refuses
    · refine .inr ⟨es, [⟨.bind r, .ok v, m₁, m₂⟩] ++ [], selection, m₂, ?_, asks, rfl⟩
      exact .andThen makes (.andThen bound (.quiet (x := pure selection) (Inert.refl m₂)))

/-- How a step ends if operations on its query context are quiet. -/
theorem Step.apply_makes {L : Machine → Machine → Prop} [Inert L] {query : Value}
    (tells : ∀ c, query = .context c → KeepsTold L c) (call : Call) (builder selection : Value)
    (step : Step) (m : Machine) :
    (∃ es err m', Makes L call (fun k => step.apply k builder query selection) m es
        (.error err) m' ∧ Asks (step.requests builder query selection) es (some err)) ∨
      ∃ es bs v m', Makes L call (fun k => step.apply k builder query selection) m (es ++ bs)
        (.ok v) m' ∧ Asks (step.requests builder query selection) es none ∧
        bs.map (·.request) = (step.ref?.map .bind).toList :=
  apply_makes_of (step.work_conducts tells builder selection) call m

end FluentQuery
