import FluentQuery.Proofs.Guarantee.Building

/-! What happens during a run that calls functions of the program: its calls and the bindings
of Refs, in their order. Everything between two events is quiet. -/

namespace FluentQuery

variable {α β : Type}

/-! ### Events -/

/-- Something a run asks for: a call of a function of the program, or the binding of a Ref. -/
inductive Request where
  | call (f : Value) (args : List Value)
  | bind (r : RefId)

/-- The function a request calls. -/
def Request.function? : Request → Option Value
  | call f _ => some f
  | bind _ => none

theorem Request.filterMap_function? (fs args : List Value) :
    (fs.map (.call · args)).filterMap Request.function? = fs := by
  simp [List.filterMap_map, Function.comp_def, Request.function?]

/-- A request that was carried out: what came of it, and the machine before and after it. The
result of a binding is the value that was bound. -/
structure Event where
  request : Request
  result : Except Error Value
  before : Machine
  after : Machine

/-- The event is what carrying out its request comes to, if functions are called by `call`. -/
def Event.Happens (call : Call) (e : Event) : Prop :=
  match e.request with
  | .call f args => exec (call f args) e.before = (e.result, e.after)
  | .bind r => ∃ v, e.result = .ok v ∧ exec (r.bind v) e.before = (.ok (), e.after)

/-- The machine behind a frame that was entered from `outer`. -/
def Machine.left (m outer : Machine) (c : ContextId) : Machine :=
  { m with stack := outer.stack }.logged
    ("Left " ++ (Value.context c).className outer ++ " construction")

/-- A run of `x` from `m` with its events, in order. A computation that cannot call anything has
none, and has to uphold `L`; a call and a binding are one event each. -/
inductive Makes (L : Machine → Machine → Prop) (call : Call) :
    {α : Type} → (Call → Run α) → Machine → List Event → Except Error α → Machine → Prop
  | quiet {α : Type} {x : Run α} {m} (h : L m (after x m)) :
      Makes L call (fun _ => x) m [] (exec x m).1 (after x m)
  | call {f args m r m'} (h : exec (call f args) m = (r, m')) :
      Makes L call (fun k => k f args) m [⟨.call f args, r, m, m'⟩] r m'
  | bind {r v m m'} (h : exec (RefId.bind r v) m = (.ok (), m')) :
      Makes L call (fun _ => RefId.bind r v) m [⟨.bind r, .ok v, m, m'⟩] (.ok ()) m'
  | andThen {α β : Type} {x : Call → Run α} {f : Call → α → Run β} {m es a m₁ fs r m₂} :
      Makes L call x m es (.ok a) m₁ → Makes L call (fun k => f k a) m₁ fs r m₂ →
      Makes L call (fun k => x k >>= f k) m (es ++ fs) r m₂
  | stop {α β : Type} {x : Call → Run α} {f : Call → α → Run β} {m es e m₁} :
      Makes L call x m es (.error e) m₁ → Makes L call (fun k => x k >>= f k) m es (.error e) m₁
  | inFrame {α : Type} {builder : Value} {c : ContextId} {body : Call → Frame → Run α}
      {m es r m₁} (hb : builder.isNull = false) (hin : L m (m.entered builder (.context c)))
      (inside : Makes L call (fun k => body k ⟨m.next, builder, .context c⟩)
        (m.entered builder (.context c)) es r m₁) (hout : L m₁ (m₁.left m c)) :
      Makes L call (fun k => withFrame builder (.context c) (body k)) m es r (m₁.left m c)

/-- The functions that were called, in order. -/
def called (es : List Event) : List Value := es.filterMap (·.request.function?)

theorem called_append (es fs : List Event) : called (es ++ fs) = called es ++ called fs :=
  List.filterMap_append

theorem called_eq (es : List Event) :
    called es = (es.map (·.request)).filterMap Request.function? := by
  rw [List.filterMap_map]
  rfl

/-- From one machine to another with these events, where `L` holds between any two of them. -/
inductive Linked (L : Machine → Machine → Prop) : Machine → List Event → Machine → Prop
  | nil {m m'} (h : L m m') : Linked L m [] m'
  | cons {m e es m'} (h : L m e.before) (rest : Linked L e.after es m') : Linked L m (e :: es) m'

namespace Linked

variable {L : Machine → Machine → Prop} [Inert L] {m m' m'' : Machine} {es fs : List Event}

theorem of_left (h : L m m') (hl : Linked L m' es m'') : Linked L m es m'' := by
  cases hl with
  | nil h' => exact .nil (Inert.trans h h')
  | cons h' rest => exact .cons (Inert.trans h h') rest

theorem of_right (hl : Linked L m es m') (h : L m' m'') : Linked L m es m'' := by
  induction hl with
  | nil h' => exact .nil (Inert.trans h' h)
  | cons h' _ ih => exact .cons h' (ih h)

theorem append (h : Linked L m es m') (h' : Linked L m' fs m'') :
    Linked L m (es ++ fs) m'' := by
  induction h with
  | nil hl => exact h'.of_left hl
  | cons hl _ ih => exact .cons hl (ih h')

/-- Nothing but its events changes what `L` looks at. -/
theorem single {e : Event} (h : e.before = m) (h' : e.after = m') : Linked L m [e] m' := by
  subst h h'
  exact .cons (Inert.refl _) (.nil (Inert.refl _))

end Linked

namespace Makes

variable {L : Machine → Machine → Prop} {call call' : Call} {x : Call → Run α} {m m' : Machine}
  {es : List Event} {r : Except Error α}

/-- A run with its events is a run. -/
theorem exec_eq (h : Makes L call x m es r m') : exec (x call) m = (r, m') := by
  induction h with
  | quiet _ => rfl
  | call h => exact h
  | bind h => exact h
  | andThen _ _ ihx ihf => rw [exec_bind_of_ok ihx, ihf]
  | stop _ ih => rw [exec_bind_of_error ih]
  | inFrame hb _ _ _ ih =>
    rw [exec_withFrame hb]
    simp only [ih]
    rfl

theorem happens (h : Makes L call x m es r m') : ∀ e ∈ es, e.Happens call := by
  induction h with
  | quiet _ => simp
  | call h => simpa [Event.Happens] using h
  | bind h => simpa [Event.Happens] using h
  | andThen _ _ ihx ihf => exact List.forall_mem_append.mpr ⟨ihx, ihf⟩
  | stop _ ih => exact ih
  | inFrame _ _ _ _ ih => exact ih

/-- The events are all that a run asks of `call`: with another one that gives the same in them it is
the same run. -/
theorem replay (h : Makes L call x m es r m') (same : ∀ e ∈ es, e.Happens call') :
    Makes L call' x m es r m' := by
  induction h with
  | quiet h => exact .quiet h
  | call h => exact .call (by simpa [Event.Happens] using same)
  | bind h => exact .bind h
  | andThen _ _ ihx ihf =>
    obtain ⟨hx, hf⟩ := List.forall_mem_append.mp same
    exact .andThen (ihx hx) (ihf hf)
  | stop _ ih => exact .stop (ih same)
  | inFrame hb hin _ hout ih => exact .inFrame hb hin (ih same) hout

theorem mono {L' : Machine → Machine → Prop} (h : Makes L call x m es r m')
    (le : ∀ a b, L a b → L' a b) : Makes L' call x m es r m' := by
  induction h with
  | quiet h => exact .quiet (le _ _ h)
  | call h => exact .call h
  | bind h => exact .bind h
  | andThen _ _ ihx ihf => exact .andThen ihx ihf
  | stop _ ih => exact .stop ih
  | inFrame hb hin _ hout ih => exact .inFrame hb (le _ _ hin) ih (le _ _ hout)

/-- A run that calls nothing. -/
theorem of_exec {x : Run α} (h : exec x m = (r, m')) (hl : L m m') :
    Makes L call (fun _ => x) m [] r m' := by
  have makes : L m (after x m) → Makes L call (fun _ => x) m [] (exec x m).1 (after x m) := .quiet
  rw [after_eq h, h] at makes
  exact makes hl

/-- Binding a Ref is an event, unless the Ref is bound already and refuses: then nothing happens. -/
theorem of_bind [Inert L] (call : Call) (r : RefId) (v : Value) (m : Machine) :
    (∃ err, Makes L call (fun _ => r.bind v) m [] (.error err) m) ∨
      ∃ m', Makes L call (fun _ => r.bind v) m [⟨.bind r, .ok v, m, m'⟩] (.ok ()) m' := by
  by_cases bound : (m.ref? r).isSome
  · have refuses : exec (r.bind v) m = (.error .alreadyBound, m) := by
      rw [exec_bindRef, if_pos bound]
    exact .inl ⟨_, of_exec refuses (Inert.refl m)⟩
  · exact .inr ⟨_, .bind (by rw [exec_bindRef, if_neg bound])⟩

theorem linked [Inert L] (h : Makes L call x m es r m') : Linked L m es m' := by
  induction h with
  | quiet h => exact .nil h
  | call h => exact .single rfl rfl
  | bind h => exact .single rfl rfl
  | andThen _ _ ihx ihf => exact ihx.append ihf
  | stop _ ih => exact ih
  | inFrame _ hin _ hout ih => exact (ih.of_left hin).of_right hout

end Makes

/-! ### Requests -/

/-- The error a run ended with, if it failed. -/
def failure? : Except Error α → Option Error
  | .ok _ => none
  | .error e => some e

/-- The events are these requests, in order and once each, up to an error: one request raises it, or
it is raised before the next request is made. -/
inductive Asks : List Request → List Event → Option Error → Prop
  | done : Asks [] [] none
  | answered {rs es stop e v} : e.result = .ok v → Asks rs es stop →
      Asks (e.request :: rs) (e :: es) stop
  | raised {rs e err} : e.result = .error err → Asks (e.request :: rs) [e] (some err)
  | refused {rs err} : Asks rs [] (some err)

namespace Asks

variable {rs rs' : List Request} {es es' : List Event} {stop : Option Error} {err : Error}

theorem append (h : Asks rs es none) (h' : Asks rs' es' stop) :
    Asks (rs ++ rs') (es ++ es') stop := by
  generalize hn : none = n at h
  induction h with
  | done => exact h'
  | answered hv _ ih => exact .answered hv (ih hn)
  | raised => cases hn
  | refused => cases hn

theorem append_stopped (h : Asks rs es (some err)) (rs' : List Request) :
    Asks (rs ++ rs') es (some err) := by
  generalize hn : some err = n at h
  induction h with
  | done => cases hn
  | answered hv _ ih => exact .answered hv (ih hn)
  | raised hv => exact .raised hv
  | refused => exact .refused

/-- Without an error every request was made, in order. -/
theorem map_request (h : Asks rs es none) : es.map (·.request) = rs := by
  generalize hn : none = n at h
  induction h with
  | done => rfl
  | answered _ _ ih => simp [ih hn]
  | raised => cases hn
  | refused => cases hn

theorem map_request_prefix (h : Asks rs es stop) : es.map (·.request) <+: rs := by
  induction h with
  | done => exact List.prefix_rfl
  | answered _ _ ih => exact (List.prefix_cons_inj _).mpr ih
  | raised => exact (List.prefix_cons_inj _).mpr (List.nil_prefix)
  | refused => exact List.nil_prefix

/-- Without an error every function was called. -/
theorem called_eq {fs args : List Value} (h : Asks (fs.map (.call · args)) es none) :
    called es = fs := by
  rw [FluentQuery.called_eq, h.map_request, Request.filterMap_function?]

theorem called_prefix {fs args : List Value} (h : Asks (fs.map (.call · args)) es stop) :
    called es <+: fs := by
  rw [FluentQuery.called_eq, ← Request.filterMap_function? fs args]
  exact h.map_request_prefix.filterMap _

end Asks

/-- Every run of `x` makes these requests. -/
def Conducts (L : Machine → Machine → Prop) (x : Call → Run α) (rs : List Request) : Prop :=
  ∀ call m, ∃ es r m', Makes L call x m es r m' ∧ Asks rs es (failure? r)

namespace Conducts

variable {L : Machine → Machine → Prop} {x : Call → Run α} {rs rs' : List Request}

theorem quiet {x : Run α} (h : Keeps L x) : Conducts L (fun _ => x) [] := by
  intro call m
  refine ⟨[], _, _, .quiet (h m), ?_⟩
  cases (exec x m).1 with
  | ok a => exact .done
  | error e => exact .refused

theorem calling (f : Value) (args : List Value) :
    Conducts L (fun k => k f args) [.call f args] := by
  intro call m
  rcases h : exec (call f args) m with ⟨err | v, m'⟩
  · exact ⟨_, _, _, .call h, .raised (e := ⟨.call f args, .error err, m, m'⟩) rfl⟩
  · exact ⟨_, _, _, .call h, .answered (e := ⟨.call f args, .ok v, m, m'⟩) rfl .done⟩

theorem andThen {f : Call → α → Run β} (hx : Conducts L x rs)
    (hf : ∀ a, Conducts L (fun k => f k a) rs') :
    Conducts L (fun k => x k >>= f k) (rs ++ rs') := by
  intro call m
  obtain ⟨es, r, m₁, makes, asks⟩ := hx call m
  rcases r with e | a
  · exact ⟨es, _, m₁, .stop makes, asks.append_stopped rs'⟩
  · obtain ⟨fs, r, m₂, makes', asks'⟩ := hf a call m₁
    exact ⟨es ++ fs, r, m₂, .andThen makes makes', asks.append asks'⟩

/-- A quiet computation before the rest. -/
theorem behind {y : Run α} {f : Call → α → Run β} (hy : Keeps L y)
    (hf : ∀ a, Conducts L (fun k => f k a) rs) : Conducts L (fun k => y >>= f k) rs :=
  andThen (x := fun _ => y) (quiet hy) hf

/-- A quiet computation behind the rest. -/
theorem before {f : α → Run β} (hx : Conducts L x rs) (hf : ∀ a, Keeps L (f a)) :
    Conducts L (fun k => x k >>= f) rs := by
  simpa using andThen (f := fun _ => f) hx fun a => quiet (hf a)

theorem map [Inert L] (hx : Conducts L x rs) (f : α → β) :
    Conducts L (fun k => f <$> x k) rs := by
  simp only [map_eq_pure_bind]
  exact hx.before fun a => .pure _

/-- What fails at once makes no call. -/
theorem refuse [Inert L] (e : Error) (f : Call → β → Run α) :
    Conducts L (fun k => fail e >>= f k) rs :=
  fun _ m => ⟨[], _, _, .quiet (Keeps.fail e m), .refused⟩

/-- A check that may refuse, before the rest. -/
theorem guarded [Inert L] {c : Prop} [Decidable c] {e : Error} {f : Call → Unit → Run α}
    (hx : Conducts L x rs) :
    Conducts L (fun k => if c then fail e >>= f k else x k) rs := by
  by_cases hc : c
  · simp only [hc, ↓reduceIte]
    exact .refuse e f
  · simpa only [hc, ↓reduceIte] using hx

end Conducts

end FluentQuery
