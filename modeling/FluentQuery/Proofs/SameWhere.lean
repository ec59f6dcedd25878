import FluentQuery.Proofs.CurrentFrame

/-! Computations that do the same on every machine with some property. As long as the property is
handed on from step to step, what is composed of such computations does the same again. -/

namespace FluentQuery

variable {α β : Type}

/-- A relation that every elementary step upholds hands the property on. -/
class HandsOn (R : outParam (Machine → Machine → Prop)) (P : Machine → Prop) : Prop
    extends Guarantee R where
  hand : ∀ {m m'}, R m m' → P m → P m'

/-- The two computations do the same on every machine with the property. -/
def SameWhere (P : Machine → Prop) (x y : Run α) : Prop := ∀ m, P m → exec x m = exec y m

namespace SameWhere

variable {R : Machine → Machine → Prop} {P : Machine → Prop} {x y : Run α}

theorem refl (x : Run α) : SameWhere P x x := fun _ _ => rfl

/-- What is the same on both sides, behind the rest. -/
theorem before (hx : SameWhere P x y) (f : α → Run β) : SameWhere P (x >>= f) (y >>= f) := by
  intro m h
  rw [exec_bind, exec_bind, hx m h]

theorem tryCatch (hx : SameWhere P x y) (handle : Error → Run α) :
    SameWhere P (tryCatch x handle) (tryCatch y handle) := by
  intro m h
  rw [exec_tryCatch, exec_tryCatch, hx m h]

theorem ensuring (hx : SameWhere P x y) (cleanup : Run Unit) :
    SameWhere P (ensuring x cleanup) (FluentQuery.ensuring y cleanup) :=
  (hx.tryCatch _).before _

/-- What follows a failure is not run. -/
theorem fail_bind (e : Error) (f g : β → Run α) :
    SameWhere P (fail e >>= f) (fail e >>= g) := by
  intro m _
  rw [exec_fail_bind, exec_fail_bind]

/-- A check that may refuse, before the rest. -/
theorem guarded {c : Prop} [Decidable c] {e : Error} {f g : β → Run α} (hx : SameWhere P x y) :
    SameWhere P (if c then fail e >>= f else x) (if c then fail e >>= g else y) := by
  split
  · exact fail_bind e f g
  · exact hx

variable [HandsOn R P]

theorem bind {f g : α → Run β} (hx : SameWhere P x y) (keeps : Keeps R y)
    (hf : ∀ a, SameWhere P (f a) (g a)) : SameWhere P (x >>= f) (y >>= g) := by
  intro m h
  rw [exec_bind, exec_bind, hx m h]
  rcases hy : exec y m with ⟨e | a, m'⟩
  · rfl
  · exact hf a m' (HandsOn.hand (keeps.of_exec hy) h)

/-- What is the same on both sides, before the rest. -/
theorem behind {f g : α → Run β} (keeps : Keeps R x) (hf : ∀ a, SameWhere P (f a) (g a)) :
    SameWhere P (x >>= f) (x >>= g) :=
  bind (refl x) keeps hf

end SameWhere

/-! ### Calls -/

section Calls

variable {R : Machine → Machine → Prop} {P : Machine → Prop} [HandsOn R P] {call call' : Call}
  (keeps : ∀ f args, Keeps R (call f args)) (same : ∀ f args, SameWhere P (call' f args) (call f args))

include keeps same

/-- Calls that do the same one by one give a run the same events. -/
theorem Makes.happens_where {x : Call → Run α} {m m' : Machine} {es : List Event}
    {r : Except Error α} (makes : Makes (Both Idle R) call x m es r m') (h : P m) :
    ∀ e ∈ es, e.Happens call' := by
  intro e he
  have kept : R m e.before := makes.linked.to_before (fun _ _ both => both.right)
    (fun e he => (makes.happens e he).keeps keeps) e he
  have happens := makes.happens e he
  unfold Event.Happens at happens ⊢
  split at happens
  · rw [← happens]
    exact same _ _ _ (HandsOn.hand kept h)
  · exact happens

theorem configure_same_where (v builder query : Value) :
    SameWhere P (configure call' v builder query) (configure call v builder query) := by
  intro m h
  obtain ⟨es, r, m', makes⟩ := configure_makes (L := Both Idle R) call v builder query m
  rw [(makes.replay (makes.happens_where keeps same h)).exec_eq, makes.exec_eq]

/-- A build does the same if what it calls does the same once its frame is on the stack. -/
theorem Terminal.run_same_where {T : Terminal} {s : Stream} {m : Machine}
    (inside : ∀ o, T.opening s m = .ok o → P (o.inside m)) :
    exec (T.run call' s) m = exec (T.run call s) m := by
  rcases ho : T.opening s m with e | o
  · obtain ⟨m', makes⟩ := T.run_makes_of_error call ho
    have other : Makes Silent call' (fun k => T.run k s) m [] (.error e) m' :=
      makes.replay (by simp)
    rw [other.exec_eq, makes.exec_eq]
  · obtain ⟨es, r, m₁, within⟩ := configure_makes (L := Both Idle R) call s.configurer o.builder
      m.nextQuery (o.inside m)
    have happens := within.happens_where keeps same (inside o ho)
    obtain ⟨r', m', makes, -, -⟩ := T.run_leads ho (within.mono fun _ _ both => both.left)
    rw [(makes.replay happens).exec_eq, makes.exec_eq]

end Calls

/-! ### Evaluation -/

/-- The expression calls a method, pushes a frame or runs its body on another stack. -/
def Expr.turns : Expr → Bool
  | .call .. | .within .. | .thread _ | .task _ => true
  | _ => false

section Evaluation

variable {R : Machine → Machine → Prop} {P : Machine → Prop} [HandsOn R P] {watch plain : Eval}
  (keeps : ∀ scope e, Keeps R (plain scope e))
  (same : ∀ scope e, SameWhere P (watch scope e) (plain scope e))

include keeps same

theorem callAny_same_where (f : Value) (args : List Value) :
    SameWhere P (callAny watch f args) (callAny plain f args) := by
  have closures (f : Value) (args : List Value) :
      SameWhere P (callClosure watch f args) (callClosure plain f args) := by
    unfold callClosure
    split
    · split
      · exact same _ _
      · exact .refl _
    · exact .refl _
  unfold callAny
  split
  · rename_i c builder query
    exact configure_same_where (callClosure_keeps keeps) closures (.configurer c) builder query
  · exact closures _ _

theorem evalAll_same_where (scope : Scope) (es : List Expr) :
    SameWhere P (evalAll watch scope es) (evalAll plain scope es) := by
  induction es with
  | nil => exact .refl _
  | cons e es ih => exact (same _ _).bind (keeps _ _) fun v => ih.before _

theorem evalFields_same_where (scope : Scope) (es : List (String × Expr)) :
    SameWhere P (evalFields watch scope es) (evalFields plain scope es) := by
  induction es with
  | nil => exact .refl _
  | cons e es ih => exact (same _ _).bind (keeps _ _) fun v => ih.before _

theorem evalArguments_same_where (scope : Scope) (a : Arguments) :
    SameWhere P (evalArguments watch scope a) (evalArguments plain scope a) :=
  (evalAll_same_where keeps same _ _).bind (evalAll_keeps keeps _ _) fun _ =>
    (evalFields_same_where keeps same _ _).before _

/-- One level of evaluation does the same if what is nested does, but for expressions that turn to
other frames. -/
theorem evalStep_same_where (scope : Scope) {e : Expr} (stays : e.turns = false) :
    SameWhere P (evalStep watch scope e) (evalStep plain scope e) := by
  have all := evalAll_same_where keeps same scope
  have arguments := evalArguments_same_where keeps same scope
  have allKeeps := evalAll_keeps (R := R) keeps scope
  cases e with
  | call | within | thread | task => cases stays
  | apply f args =>
    exact (same _ _).bind (keeps _ _) fun g => (all _).bind (allKeeps _) fun vs =>
      callAny_same_where keeps same g vs
  | attempt e => exact (((same _ _).before _).tryCatch _).before _
  | identical a b | equal a b | sameHash a b | arithmetic op a b | compare op a b | like a b
  | set a name b =>
    exact (same _ _).bind (keeps _ _) fun v => (same _ _).before _
  | list es | tuple es | block es | connect op es | sqlFunction name es =>
    exact (all _).before _
  | construct c args | compose args | transform args | resolveAttribute args =>
    exact (arguments _).before _
  | assign name e | trace e | isInstance e name | get e name | shown e | not e | among e vs
  | sorted d e => exact (same _ _).before _
  | _ => exact .refl _

end Evaluation

end FluentQuery
