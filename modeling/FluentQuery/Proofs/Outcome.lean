import FluentQuery.Evaluation

/-! What a computation gives on a machine: its result and the machine it leaves, which
keeps the changes made up to a failure. One law per way of composing computations and
one per elementary step. -/

namespace FluentQuery

variable {α β : Type}

/-- The result of a computation, and the machine it leaves. -/
def exec (x : Run α) (m : Machine) : Except Error α × Machine := x.run.run m

@[simp] theorem exec_pure (a : α) (m : Machine) : exec (pure a) m = (.ok a, m) := rfl

theorem exec_pure_eq_ok {a b : α} {m m' : Machine} :
    exec (pure a) m = (.ok b, m') ↔ a = b ∧ m = m' := by
  simp

@[simp] theorem exec_fail (e : Error) (m : Machine) : exec (fail (α := α) e) m = (.error e, m) :=
  rfl

@[simp] theorem exec_get (m : Machine) : exec get m = (.ok m, m) := rfl

@[simp] theorem exec_modify (f : Machine → Machine) (m : Machine) :
    exec (modify f) m = (.ok (), f m) := rfl

@[simp] theorem exec_modifyGet (f : Machine → α × Machine) (m : Machine) :
    exec (modifyGet f) m = (.ok (f m).1, (f m).2) := rfl

theorem exec_bind (x : Run α) (f : α → Run β) (m : Machine) :
    exec (x >>= f) m = match exec x m with
      | (.ok a, m') => exec (f a) m'
      | (.error e, m') => (.error e, m') := by
  simp only [exec, ExceptT.run_bind, StateT.run_bind]
  rcases (ExceptT.run x).run m with ⟨_ | _, _⟩ <;> rfl

theorem exec_bind_of_ok {x : Run α} {m m' : Machine} {a : α} (h : exec x m = (.ok a, m'))
    (f : α → Run β) : exec (x >>= f) m = exec (f a) m' := by
  rw [exec_bind, h]

theorem exec_bind_of_error {x : Run α} {m m' : Machine} {e : Error}
    (h : exec x m = (.error e, m')) (f : α → Run β) : exec (x >>= f) m = (.error e, m') := by
  rw [exec_bind, h]

/-- A sequence returns exactly if both of its parts do, one after the other. -/
theorem exec_bind_eq_ok {x : Run α} {f : α → Run β} {m m₂ : Machine} {b : β} :
    exec (x >>= f) m = (.ok b, m₂) ↔
      ∃ a m₁, exec x m = (.ok a, m₁) ∧ exec (f a) m₁ = (.ok b, m₂) := by
  constructor
  · intro h
    rcases hx : exec x m with ⟨e | a, m₁⟩
    · rw [exec_bind_of_error hx] at h
      simp at h
    · rw [exec_bind_of_ok hx] at h
      exact ⟨a, m₁, rfl, h⟩
  · rintro ⟨a, m₁, hx, hf⟩
    rw [exec_bind_of_ok hx, hf]

theorem exec_fail_bind (e : Error) (f : α → Run β) (m : Machine) :
    exec (fail e >>= f) m = (.error e, m) := rfl

/-- A run of a closed program that can be evaluated. -/
theorem exec_of_check {x : Run α} {m : Machine} (p : α → Machine → Bool)
    (h : (match exec x m with
      | (.ok a, m') => p a m'
      | (.error _, _) => false) = true) : ∃ a m', exec x m = (.ok a, m') ∧ p a m' = true := by
  rcases hx : exec x m with ⟨e | a, m'⟩
  · rw [hx] at h
    cases h
  · rw [hx] at h
    exact ⟨a, m', rfl, h⟩

theorem Except.bind_eq_ok {ε α β : Type} {x : Except ε α} {f : α → Except ε β} {b : β} :
    x >>= f = .ok b ↔ ∃ a, x = .ok a ∧ f a = .ok b := by
  cases x <;> simp [bind, Except.bind]

theorem Except.map_eq_ok {ε α β : Type} {x : Except ε α} {f : α → β} {b : β} :
    x.map f = .ok b ↔ ∃ a, x = .ok a ∧ f a = b := by
  cases x <;> simp [Except.map]

theorem Except.toOption_any_eq_true {ε α : Type} {x : Except ε α} {p : α → Bool} :
    x.toOption.any p = true ↔ ∃ a, x = .ok a ∧ p a = true := by
  cases x <;> simp [Except.toOption]

/-- A check was passed if what it guards returned. -/
theorem exec_guarded_eq_ok {c : Prop} [Decidable c] {e : Error} {k : α → Run β} {x : Run β}
    {m m' : Machine} {b : β} :
    exec (if c then fail e >>= k else x) m = (.ok b, m') ↔ ¬c ∧ exec x m = (.ok b, m') := by
  by_cases hc : c
  · simp [hc, exec_fail_bind]
  · simp [hc]

theorem exec_else_eq_ok {c : Prop} [Decidable c] {e : Error} {x : Run α} {m m' : Machine}
    {a : α} : exec (if c then fail e else x) m = (.ok a, m') ↔ ¬c ∧ exec x m = (.ok a, m') := by
  by_cases hc : c <;> simp [hc]

theorem exec_tryCatch (x : Run α) (handle : Error → Run α) (m : Machine) :
    exec (tryCatch x handle) m = match exec x m with
      | (.ok a, m') => (.ok a, m')
      | (.error e, m') => exec (handle e) m' := by
  simp only [exec, tryCatch, tryCatchThe, MonadExceptOf.tryCatch, ExceptT.tryCatch, ExceptT.run,
    ExceptT.mk, StateT.run_bind]
  rcases StateT.run x m with ⟨_ | _, _⟩ <;> rfl

@[simp] theorem exec_liftExcept_ok (a : α) (m : Machine) :
    exec (liftExcept (.ok a)) m = (.ok a, m) := rfl

theorem exec_liftExcept_eq_ok {x : Except Error α} {m m' : Machine} {a : α} :
    exec (liftExcept x) m = (.ok a, m') ↔ x = .ok a ∧ m = m' := by
  cases x <;> simp [liftExcept]

@[simp] theorem exec_fresh (m : Machine) :
    exec fresh m = (.ok m.next, { m with next := m.next + 1 }) := rfl

/-! ### Elementary steps -/

theorem exec_orExternal (x : Option α) (m : Machine) :
    exec (orExternal x) m = match x with
      | some a => (.ok a, m)
      | none => (.error .external, m) := by
  cases x <;> rfl

theorem exec_shownNow (v : Value) (m : Machine) :
    exec (shownNow v) m = match v.shown? m with
      | some s => (.ok s, m)
      | none => (.error .external, m) := by
  unfold shownNow
  rw [exec_bind_of_ok (exec_get m)]
  cases v.shown? m <;> rfl

@[simp] theorem exec_isBound (r : RefId) (m : Machine) :
    exec r.isBound m = (.ok (m.ref? r).isSome, m) := rfl

theorem exec_bindRef (r : RefId) (v : Value) (m : Machine) :
    exec (r.bind v) m = if (m.ref? r).isSome then (.error .alreadyBound, m)
      else (.ok (), m.write r (some v)) := by
  unfold RefId.bind
  rw [exec_bind_of_ok (exec_isBound r m)]
  split <;> rfl

/-- Binding succeeds on a Ref that holds nothing. -/
theorem exec_bindRef_eq_ok {r : RefId} {v : Value} {m m' : Machine} {u : Unit} :
    exec (r.bind v) m = (.ok u, m') ↔
      m.ref? r = none ∧ m' = m.write r (some v) := by
  rw [exec_bindRef]
  cases h : m.ref? r <;> simp [eq_comm]

@[simp] theorem length_refs_write (m : Machine) (r : RefId) (v? : Option Value) :
    (m.write r v?).refs.length = m.refs.length :=
  List.length_set

theorem ref?_write {m : Machine} {r : RefId} (h : r.index < m.refs.length) (v? : Option Value) :
    (m.write r v?).ref? r = v? := by
  simp [Machine.ref?, Machine.write, h]

theorem ref?_write_of_ne {r r' : RefId} (h : r' ≠ r) (m : Machine) (v? : Option Value) :
    (m.write r v?).ref? r' = m.ref? r' := by
  have differ : r.index ≠ r'.index := fun same => h (by cases r; cases r'; simp_all)
  simp [Machine.ref?, Machine.write, List.getElem?_set_ne differ]

/-- What a Ref holds is not touched by binding one that holds nothing. -/
theorem ref?_write_of_bound {m : Machine} {r r' : RefId} {v' : Value} (hr : m.ref? r = none)
    (h : m.ref? r' = some v') (v? : Option Value) : (m.write r v?).ref? r' = some v' := by
  have differ : r' ≠ r := by
    rintro rfl
    simp [h] at hr
  rw [ref?_write_of_ne differ, h]

theorem exec_readContext (c : ContextId) (m : Machine) :
    exec c.read m = match m.context? c with
      | some x => (.ok x, m)
      | none => (.error .external, m) := by
  unfold ContextId.read
  rw [exec_bind_of_ok (exec_get m)]
  cases m.context? c <;> rfl

theorem exec_readContext_of_some {c : ContextId} {m : Machine} {x : Context}
    (h : m.context? c = some x) : exec c.read m = (.ok x, m) := by
  rw [exec_readContext, h]

theorem exec_readContext_eq_ok {c : ContextId} {m m' : Machine} {x : Context} :
    exec c.read m = (.ok x, m') ↔ m.context? c = some x ∧ m = m' := by
  rw [exec_readContext]
  cases m.context? c <;> simp

theorem QueryId.exec_read_of_some {q : QueryId} {m : Machine} {x : Executable}
    (h : m.query? q = some x) : exec q.read m = (.ok x, m) := by
  unfold read
  rw [exec_bind_of_ok (exec_get m), h]
  rfl

/-- An operation on a context that is refused changes nothing. -/
theorem exec_update (c : ContextId) (f : Context → Except Error Context) (m : Machine) :
    exec (c.update f) m = match m.context? c with
      | none => (.error .external, m)
      | some x => match f x with
        | .error e => (.error e, m)
        | .ok y => (.ok (), { m with contexts := m.contexts.set c.index y }) := by
  unfold ContextId.update
  rw [exec_bind, exec_readContext]
  rcases m.context? c with _ | x
  · rfl
  · simp only [exec_bind]
    rcases f x with _ | y <;> rfl

theorem exec_updateGet (c : ContextId) (f : Context → Except Error (Value × Context))
    (m : Machine) :
    exec (c.updateGet f) m = match m.context? c with
      | none => (.error .external, m)
      | some x => match f x with
        | .error e => (.error e, m)
        | .ok (v, y) => (.ok v, { m with contexts := m.contexts.set c.index y }) := by
  unfold ContextId.updateGet
  rw [exec_bind, exec_readContext]
  rcases m.context? c with _ | x
  · rfl
  · simp only [exec_bind]
    rcases f x with _ | ⟨v, y⟩ <;> rfl

/-- A successful operation replaces the context it was applied to. -/
theorem exec_update_eq_ok {c : ContextId} {f : Context → Except Error Context} {m m' : Machine}
    {u : Unit} : exec (c.update f) m = (.ok u, m') ↔
      ∃ x y, m.context? c = some x ∧ f x = .ok y ∧
        m' = { m with contexts := m.contexts.set c.index y } := by
  rw [exec_update]
  rcases m.context? c with _ | x
  · simp
  · rcases h : f x with _ | y <;> simp [h, eq_comm]

theorem exec_updateGet_eq_ok {c : ContextId} {f : Context → Except Error (Value × Context)}
    {m m' : Machine} {v : Value} : exec (c.updateGet f) m = (.ok v, m') ↔
      ∃ x y, m.context? c = some x ∧ f x = .ok (v, y) ∧
        m' = { m with contexts := m.contexts.set c.index y } := by
  rw [exec_updateGet]
  rcases m.context? c with _ | x
  · simp
  · rcases h : f x with _ | ⟨w, y⟩
    · simp [h]
    · simp only [Option.some.injEq, Prod.mk.injEq, Except.ok.injEq, h]
      constructor
      · rintro ⟨rfl, rfl⟩
        exact ⟨x, y, rfl, h, rfl⟩
      · rintro ⟨x', y', rfl, hx, rfl⟩
        simp_all

theorem context?_set {m : Machine} {c : ContextId} {x : Context} (h : m.context? c = some x)
    (y : Context) : { m with contexts := m.contexts.set c.index y }.context? c = some y := by
  obtain ⟨hc, _⟩ := List.getElem?_eq_some_iff.mp h
  exact List.getElem?_set_self hc

theorem context?_set_of_ne {c d : ContextId} (h : d ≠ c) (m : Machine) (y : Context) :
    { m with contexts := m.contexts.set c.index y }.context? d = m.context? d :=
  List.getElem?_set_ne (fun hi => h (by cases c; cases d; simp_all))

/-! ### Cleaning up -/

/-- Cleaning up that always succeeds keeps the result of the body. -/
theorem exec_ensuring {cleanup : Run Unit} {f : Machine → Machine}
    (hf : ∀ m, exec cleanup m = (.ok (), f m)) (body : Run α) (m : Machine) :
    exec (ensuring body cleanup) m = ((exec body m).1, f (exec body m).2) := by
  simp only [ensuring, exec_bind, exec_tryCatch]
  rcases exec body m with ⟨e | a, m₁⟩
  · simp only [hf]
    rfl
  · simp only [hf]
    rfl

/-- A body on another stack runs from that stack, and the present stack is put back. -/
theorem exec_onStack (stack : List Frame) (body : Run α) (m : Machine) :
    exec (onStack stack body) m =
      ((exec body { m with stack }).1, { (exec body { m with stack }).2 with stack := m.stack }) := by
  unfold onStack
  rw [exec_bind_of_ok (exec_get m), exec_bind_of_ok (exec_modify _ m)]
  exact exec_ensuring (exec_modify _) body _

/-! ### Frames -/

namespace Machine

/-- One more line in the log, if anyone reads it. -/
def logged (m : Machine) (line : String) : Machine :=
  if m.settings.logging then { m with log := m.log ++ [Text.collapse line] } else m

@[simp] theorem refs_logged (m : Machine) (line : String) : (m.logged line).refs = m.refs := by
  unfold logged
  split <;> rfl

@[simp] theorem contexts_logged (m : Machine) (line : String) :
    (m.logged line).contexts = m.contexts := by
  unfold logged
  split <;> rfl

@[simp] theorem next_logged (m : Machine) (line : String) : (m.logged line).next = m.next := by
  unfold logged
  split <;> rfl

/-- Inside a new frame for a query. -/
def entered (m : Machine) (builder query : Value) : Machine :=
  { m with next := m.next + 1, stack := ⟨m.next, builder, query⟩ :: m.stack }.logged
    ("Entered " ++ query.className m ++ " construction (depth " ++
      toString (m.stack.length + 1) ++ ")")

end Machine

theorem exec_logLine_pure (line : String) (m : Machine) :
    exec (logLine (pure line)) m = (.ok (), m.logged line) := by
  unfold logLine Machine.logged
  rw [exec_bind_of_ok (exec_get m)]
  split <;> rfl

/-- No frame is entered without a builder. -/
theorem withFrame_of_null {builder : Value} (null : builder.isNull) (c : ContextId)
    (body : Frame → Run α) : withFrame builder (.context c) body =
      (do let _ ← classNow (.context c); fail (.null "builder")) := by
  unfold withFrame
  simp only [null, ↓reduceIte]
  rfl

/-- A body in a frame of its own runs with that frame on top of the stack. -/
theorem exec_withFrame {builder : Value} (hb : builder.isNull = false) (c : ContextId)
    (body : Frame → Run α) (m : Machine) :
    exec (withFrame builder (.context c) body) m =
      let inside := exec (body ⟨m.next, builder, .context c⟩) (m.entered builder (.context c))
      (inside.1, { inside.2 with stack := m.stack }.logged
        ("Left " ++ (Value.context c).className m ++ " construction")) := by
  unfold withFrame
  rw [exec_bind_of_ok (show exec (classNow (.context c)) m = (.ok _, m) from rfl)]
  simp only [hb, Bool.false_eq_true, ↓reduceIte]
  rw [exec_bind_of_ok (exec_fresh m), exec_bind_of_ok (exec_get _),
    exec_ensuring (exec_logLine_pure _), exec_onStack]
  rw [exec_bind_of_ok (exec_logLine_pure _ _)]
  rfl

/-- The machine a computation leaves, whether it returns or fails. -/
def after (x : Run α) (m : Machine) : Machine := (exec x m).2

theorem after_eq {x : Run α} {m m' : Machine} {r : Except Error α} (h : exec x m = (r, m')) :
    after x m = m' := by
  rw [after, h]

theorem after_discard (x : Run α) (m : Machine) : after (discard x) m = after x m := by
  have mapped : discard x = (fun _ => PUnit.unit) <$> x := rfl
  rw [mapped, map_eq_pure_bind, after, after, exec_bind]
  rcases exec x m with ⟨_ | _, _⟩ <;> rfl

end FluentQuery
