import FluentQuery.Proofs.CurrentFrame

/-! Nested construction is isolated. A build writes to the query contexts created since it began and to
no others, at whatever depth, unless a function of the program changes a query context by
itself. -/

namespace FluentQuery

/-! ### Programs that change no query context by themselves -/

/-- The methods that change a query context. -/
def ContextId.changingMethods : List String :=
  ["where", "from_", "set", "correlate", "order_by", "join", "group_by", "having", "distinct",
    "select"]

/-- Whether calling a method of this value changes a query context the caller has: a method of the
context that changes it, or one that is given a context to change. -/
def Value.changesBy (method : String) : Value → Bool
  | .context _ => ContextId.changingMethods.contains method
  | .queryType _ => method == "where" || method == "select"
  | .stream _ => method == "configure"
  | _ => false

/-- Calls functions of a program, but applies no configuration to a query context. -/
def restrainedCall (eval : Eval) : Call := fun f args =>
  match f with
  | .configurer _ => fail .external
  | f => callClosure eval f args

/-- One level of evaluation that refuses to change a query context on behalf of the program. Builds
still change those they create. -/
def restrainedStep (eval : Eval) (scope : Scope) : Expr → Run Value
  | .apply f args => do
    let g ← eval scope f
    restrainedCall eval g (← evalAll eval scope args)
  | .call e method args => do
    let v ← eval scope e
    let a ← evalArguments eval scope args
    if v.changesBy method then fail .external
    invoke (restrainedCall eval) v method a
  | e => evalStep eval scope e

/-- Evaluation like `eval` that refuses to change a query context on behalf of the program. -/
def restrained : Nat → Eval
  | 0 => fun _ _ => fail .external
  | depth + 1 => restrainedStep (restrained depth)

/-! ### Sparing query contexts -/

/-- The first `k` query contexts are as they were, if there were so many. -/
def Spares (k : Nat) (m m' : Machine) : Prop :=
  k ≤ m.contexts.length →
    k ≤ m'.contexts.length ∧ ∀ i < k, m'.contexts[i]? = m.contexts[i]?

namespace Spares

variable {k : Nat}

theorem of_contexts {m m' : Machine} (h : m'.contexts = m.contexts) : Spares k m m' :=
  fun hk => ⟨h ▸ hk, fun _ _ => by rw [h]⟩

theorem of_set {m m' : Machine} {i : Nat} {x : Context} (hi : k ≤ i)
    (h : m'.contexts = m.contexts.set i x) : Spares k m m' := by
  refine fun hk => ⟨by rwa [h, List.length_set], fun j hj => ?_⟩
  rw [h, List.getElem?_set_ne (Nat.ne_of_gt (Nat.lt_of_lt_of_le hj hi))]

theorem trans {a b c : Machine} (hab : Spares k a b) (hbc : Spares k b c) : Spares k a c := by
  intro hk
  obtain ⟨hb, first⟩ := hab hk
  obtain ⟨hc, rest⟩ := hbc hb
  exact ⟨hc, fun i hi => (rest i hi).trans (first i hi)⟩

instance : Inert (Spares k) := .of_contexts (fun _ => of_contexts) trans

theorem newContext (x : Context) : Keeps (Spares k) (ContextId.new x) := by
  refine fun m hk => ⟨?_, fun i hi => ?_⟩
  · exact Nat.le_trans hk (List.length_append ▸ Nat.le_add_right _ _)
  · exact List.getElem?_append_left (Nat.lt_of_lt_of_le hi hk)

instance : Creating (Spares k) := .of_contexts (fun _ => of_contexts) fun _ => newContext _

/-- Operations on a later context spare the first ones. -/
theorem update {c : ContextId} (hc : k ≤ c.index) (f : Context → Except Error Context) :
    Keeps (Spares k) (c.update f) :=
  .update fun _ _ => of_set hc rfl

theorem tells {c : ContextId} (hc : k ≤ c.index) : KeepsTold (Spares k) c := by
  have updateGet (f : Context → Except Error (Value × Context)) :
      Keeps (Spares k) (c.updateGet f) :=
    .updateGet fun _ _ => of_set hc rfl
  refine ⟨fun {f} _ => update hc f, fun entity => ?_, fun correlated owner r outer => ?_⟩
  · exact Keeps.bind Inert.fresh fun _ => updateGet _
  · exact Keeps.bind Inert.fresh fun _ => Keeps.bind .get fun _ => updateGet _

end Spares

/-! ### Builds -/

/-- The subquery under construction is the query of the innermost frame, if it is a subquery. -/
theorem exec_currentSubquery_bind {α : Type} {m : Machine} {f : Frame} {rest : List Frame}
    (hs : m.stack = f :: rest) {c : ContextId} (hf : f.query = .context c)
    (g : ContextId → Run α) :
    exec (currentSubquery >>= g) m =
      exec (do if (← c.read).isSubquery then g c else fail .notASubquery) m := by
  unfold currentSubquery
  rw [bind_assoc, exec_bind_of_ok (Stream.exec_currentFrame hs)]
  unfold Frame.subquery
  rw [hf]
  simp only [bind_assoc]
  rw [exec_bind, exec_bind]
  rcases exec c.read m with ⟨e | x, m'⟩
  · rfl
  · dsimp only
    split <;> rfl

section Builds

variable {k : Nat} {call : Call} (hc : ∀ f args, Keeps (Spares k) (call f args))

include hc

/-- A configuration writes to the query it configures, if that is the query of the innermost
frame. -/
theorem configure_spares {c : ContextId} (hk : k ≤ c.index) (configurer builder : Value)
    {m : Machine} {f : Frame} {rest : List Frame} (hs : m.stack = f :: rest)
    (hf : f.query = .context c) :
    Spares k m (after (configure call configurer builder (.context c)) m) := by
  have own (d : ContextId) (hd : Value.context c = .context d) : KeepsTold (Spares k) d :=
    Value.context.inj hd ▸ Spares.tells hk
  rw [configure_eq]
  refine Keeps.over_rest (fun v => Step.applyAll_keeps_of hc own _ _ _) ?_
  cases configurer.origin with
  | root entity => exact Keeps.onContext (fun d hd => (own d hd).addRoot_keeps entity) m
  | correlated root =>
    unfold Origin.select
    rw [after, exec_currentSubquery_bind hs hf]
    refine (c.read_keeps.bind fun x => .ite ?_ (.fail _)) m
    exact (Spares.update hk (·.correlate root)).bind fun _ => .pure _
  | function g => exact hc g _ m

/-- A build in a frame for a query created since writes to no query context there was before. -/
theorem withFrame_spares {α : Type} {c : ContextId} (hk : k ≤ c.index) (builder : Value)
    {configurer : Value} {g : Value → Run α} (hg : ∀ v, Keeps (Spares k) (g v)) (m : Machine) :
    Spares k m (after (withFrame builder (.context c) fun _ => do
      g (← configure call configurer builder (.context c))) m) := by
  by_cases hb : builder.isNull
  · unfold withFrame
    simp only [hb, ↓reduceIte]
    exact ((classNow_keeps _).bind fun _ => .fail_bind _ _) m
  · have given : builder.isNull = false := by simpa using hb
    rw [after, exec_withFrame given]
    have entered : Spares k m (m.entered builder (.context c)) :=
      .of_contexts (Machine.contexts_logged _ _)
    have top : (m.entered builder (.context c)).stack =
        ⟨m.next, builder, .context c⟩ :: m.stack := by
      unfold Machine.entered Machine.logged
      split <;> rfl
    refine Inert.trans entered (Inert.trans ?_ (.of_contexts (Machine.contexts_logged _ _)))
    refine Inert.trans (Keeps.over_rest hg (configure_spares hc hk configurer builder top rfl)) ?_
    exact .of_contexts rfl

namespace Stream

variable (s : Stream)

theorem toContext_spares : Keeps (Spares k) (s.toContext call) := by
  intro m hk
  unfold toContext
  split
  · rename_i t _
    rw [after_bind_of_ok (exec_fresh m), after_bind_of_ok (t.exec_createContext _)]
    have new : Spares k m (after t.createContext { m with next := m.next + 1 }) :=
      Spares.newContext _ { m with next := m.next + 1 }
    refine Inert.trans new (Keeps.over_rest (fun v => ?_) ?_) hk
    · refine (logLine_keeps ?_).bind fun _ => .pure _
      exact (shownNow_keeps _).bind fun _ => (shownNow_keeps _).bind fun _ => .pure _
    · refine withFrame_spares (g := t.select m.nextQuery) hc hk _ (fun v => ?_) _
      exact t.select_keeps_of (fun c hq => Value.context.inj hq ▸ Spares.tells hk) v
  · exact Spares.of_contexts rfl hk

theorem toQuery_spares : Keeps (Spares k) (s.toQuery call) := by
  unfold toQuery
  split
  · refine (s.toContext_spares hc).bind fun v => ?_
    grind
  · exact .fail _

theorem toSubquery_spares : Keeps (Spares k) (s.toSubquery call) := by
  intro m hk
  unfold toSubquery
  cases hs : m.stack with
  | nil =>
    rw [after, exec_bind_of_error (exec_currentFrame_of_nil hs)]
    exact Spares.of_contexts rfl hk
  | cons f rest =>
    rw [after_bind_of_ok (exec_currentFrame hs), after_bind_of_ok (ContextId.exec_new _ m)]
    refine Inert.trans (Spares.newContext (.subquery f.query) m) ?_ hk
    refine Keeps.over_rest (fun _ => .pure _) ?_
    refine withFrame_spares (g := fun v => m.nextContext.update (·.select v)) hc hk _ (fun v => ?_) _
    exact (Spares.tells hk).change (.select v)

end Stream

/-- A build, whichever it is and however it ends, spares the query contexts there were. -/
theorem Terminal.run_spares (T : Terminal) (s : Stream) : Keeps (Spares k) (T.run call s) := by
  cases T with
  | criteria => exact s.toContext_spares hc
  | query => exact s.toQuery_spares hc
  | subquery => exact (s.toSubquery_spares hc).bind fun c => c.scalar_keeps
  | existence => exact (s.toSubquery_spares hc).bind fun c => c.existence_keeps

end Builds

/-! ### Restrained evaluation -/

section Restrained

variable {k : Nat}

/-- Calls of methods that change no query context spare the first ones, if calls of functions and
builds do. -/
theorem ContextId.invoke_spares (c : ContextId) {method : String}
    (h : (Value.context c).changesBy method = false) (a : ArgList) :
    Keeps (Spares k) (c.invoke method a) := by
  unfold ContextId.invoke
  refine c.read_keeps.bind fun x => ?_
  split <;> try { simp [Value.changesBy, changingMethods] at h }
  · exact a.requireNone_keeps.bind fun _ => newContext_keeps (.subquery _)
  · exact a.requireNone_keeps.bind fun _ => c.scalar_keeps
  · exact a.requireNone_keeps.bind fun _ => c.existence_keeps
  · refine .guarded ?_
    split <;> try { simp [Value.changesBy, changingMethods] at h }
    exact .fail _

theorem QueryType.invoke_spares (t : QueryType) {method : String}
    (h : (Value.queryType t).changesBy method = false) (a : ArgList) :
    Keeps (Spares k) (t.invoke method a) := by
  unfold QueryType.invoke
  split <;> try { simp [Value.changesBy] at h }
  · refine (a.one_keeps _).bind fun v => .guarded ((requireBuilder_keeps _).bind fun _ => ?_)
    exact .bind (Spares.newContext _) fun _ => .pure _
  · grind
  · exact .fail _

section Methods

variable {call : Call} (hc : ∀ f args, Keeps (Spares k) (call f args))

include hc

theorem Stream.invoke_spares (s : Stream) {method : String}
    (h : (Value.stream s).changesBy method = false) (a : ArgList) :
    Keeps (Spares k) (s.invoke call method a) := by
  have context := s.toContext_spares hc
  have query := s.toQuery_spares hc
  have subquery : Keeps (Spares k) (s.asSubquery call) := Terminal.run_spares hc .subquery s
  have existence : Keeps (Spares k) (s.existence call) := Terminal.run_spares hc .existence s
  have search (method : String) : Keeps (Spares k) (s.invokeSearch call method a) := by
    unfold Stream.invokeSearch
    split <;> grind
  unfold Stream.invoke
  split <;> try { simp [Value.changesBy] at h }
  all_goals grind

theorem invokeMethod_spares (v : Value) {method : String} (h : v.changesBy method = false)
    (a : ArgList) : Keeps (Spares k) (invokeMethod call v method a) := by
  unfold invokeMethod
  split
  · exact RefId.invoke_keeps _ _ _
  · exact invokeBuilder_keeps _ _
  · exact ContextId.invoke_spares _ h _
  · exact Stream.invoke_spares hc _ h _
  · exact QueryType.invoke_spares _ h _
  · exact QueryId.invoke_keeps _ _ _
  · exact invokeQueryBuilder_keeps _ _ _
  · split <;> grind
  · exact .fail _

theorem invoke_spares (v : Value) {method : String} (h : v.changesBy method = false)
    (a : ArgList) : Keeps (Spares k) (invoke call v method a) := by
  unfold invoke
  refine (v.property?_keeps method).bind fun p => ?_
  split
  · exact a.rest_keeps.bind fun args => hc _ args
  · exact invokeMethod_spares hc v h a

end Methods

section Evaluation

variable {eval : Eval} (he : ∀ scope e, Keeps (Spares k) (eval scope e))

include he

theorem restrainedCall_spares (f : Value) (args : List Value) :
    Keeps (Spares k) (restrainedCall eval f args) := by
  unfold restrainedCall
  split
  · exact .fail _
  · exact callClosure_keeps he _ _

/-- One level of restrained evaluation spares the first contexts if what is nested does. -/
theorem restrainedStep_spares (scope : Scope) (e : Expr) :
    Keeps (Spares k) (restrainedStep eval scope e) := by
  have hc := restrainedCall_spares he
  cases e with
  | apply f args =>
    exact (he _ _).bind fun g => (evalAll_keeps he _ _).bind fun vs => hc g vs
  | call e method args =>
    refine (he _ _).bind fun v => (evalArguments_keeps he _ _).bind fun a => ?_
    by_cases h : v.changesBy method
    · simp only [h, ↓reduceIte]
      exact .fail_bind _ _
    · simp only [h, Bool.false_eq_true, ↓reduceIte]
      exact invoke_spares hc v (by simpa using h) a
  | _ => exact evalStep_keeps_of he scope (by simp) (by simp)

end Evaluation

theorem restrained_spares (depth : Nat) (scope : Scope) (e : Expr) :
    Keeps (Spares k) (restrained depth scope e) := by
  induction depth generalizing scope e with
  | zero => exact .fail _
  | succ depth ih => exact restrainedStep_spares ih scope e

end Restrained

/-! ### Nested builds -/

/-- If the functions of a program change no query context by themselves, so that a build is the same
when they may not, then the build leaves every query context there was exactly as it was: those of
all enclosing frames and any other, whatever was built inside it, failed or not. -/
theorem nested_build_spares_contexts (depth : Nat) (T : Terminal) (s : Stream) (m : Machine)
    (innocent : exec (T.run (callAny (eval depth)) s) m =
      exec (T.run (restrainedCall (restrained depth)) s) m) :
    ∀ c x, m.context? c = some x →
      (after (T.run (callAny (eval depth)) s) m).context? c = some x := by
  intro c x hx
  obtain ⟨there, -⟩ := List.getElem?_eq_some_iff.mp hx
  have spared := T.run_spares (restrainedCall_spares (restrained_spares depth)) s m
    (Nat.le_refl m.contexts.length)
  rw [after, innocent]
  exact (spared.2 c.index there).trans hx

/-- A subquery of the products of an enclosing query, whose filter builds another one. -/
theorem nested_build_spares_contexts_twice :
    let product : Value := .mapped ⟨.product, none⟩
    let t : Stream := ⟨7, .of .search, .null, .queryType ⟨3, .search, product⟩,
      .configurer ⟨4, .root product, []⟩, .unset, .unset, [], []⟩
    let f : Value := .closure ⟨5, ["p"], .call (.variable "t") "exists" ⟨[], []⟩, [("t", .stream t)]⟩
    let s : Stream := ⟨2, .of .search, .null, .queryType ⟨3, .search, product⟩,
      .configurer ⟨4, .correlated product, [.filter (.queryType ⟨3, .search, product⟩) (.function f)]⟩,
      .unset, .unset, [], []⟩
    let m : Machine := { Machine.start ⟨false, false, false⟩ with
      next := 6, contexts := [.query], stack := [⟨6, .criteriaBuilder 6, .context ⟨0⟩⟩] }
    (exec (Terminal.existence.run (callAny (eval 4)) s) m).1.toBool = true ∧
      (after (Terminal.existence.run (callAny (eval 4)) s) m).context? ⟨0⟩ = some .query := by
  intro product t f s m
  refine ⟨by decide +kernel, nested_build_spares_contexts 4 .existence s m ?_ ⟨0⟩ .query rfl⟩
  rfl

end FluentQuery
