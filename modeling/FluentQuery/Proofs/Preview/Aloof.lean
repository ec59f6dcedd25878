import FluentQuery.Proofs.Renaming.Evaluation
import FluentQuery.Proofs.Renaming.Nested

/-! Programs that keep aloof from query contexts. They compute expressions, and embed streams as
subqueries, but get hold of no query context and no construction frame; so they cannot tell which
query they are called for, and do the same for every one. -/

namespace FluentQuery

open Sql

/-! ### Evaluation -/

/-- The methods that build a stream as a subquery of the query under construction. -/
def Stream.nestingMethods : List String := ["as_subquery", "exists"]

/-- Whether calling a method of this value gives a program a query context, or lets it change one. A
stream that a function of the program configures hands that function its query. -/
def Value.uncovers (method : String) (v : Value) : Bool :=
  v.changesBy method || creatingMethods.contains method ||
    match v with
    | .stream s => Stream.buildingMethods.contains method &&
        !(Stream.nestingMethods.contains method && s.isPlain)
    | _ => false

/-- One level of evaluation that gives the program no query context. -/
def aloofStep (eval : Eval) (scope : Scope) : Expr → Run Value
  | .call e method args => do
    let v ← eval scope e
    let a ← evalArguments eval scope args
    if v.uncovers method then fail .external
    invoke (restrainedCall eval) v method a
  | .construct className args => do
    if contextClasses.contains className then fail .external
    evalStep eval scope (.construct className args)
  | .currentFrame | .currentSubquery => fail .external
  | e => restrainedStep eval scope e

/-- Evaluation like `eval` that gives the program no query context. -/
def aloof : Nat → Eval
  | 0 => fun _ _ => fail .external
  | depth + 1 => aloofStep (aloof depth)

/-! ### Query contexts and the stack -/

section Keeping

variable {R : Machine → Machine → Prop} [Creating R] {eval : Eval}
  (he : ∀ scope e, Keeps R (eval scope e))

include he

theorem aloofStep_keeps
    (invokes : ∀ v method a, v.uncovers method = false →
      Keeps R (invoke (restrainedCall eval) v method a)) (scope : Scope) (e : Expr) :
    Keeps R (aloofStep eval scope e) := by
  have hc (f : Value) (args : List Value) : Keeps R (restrainedCall eval f args) := by
    unfold restrainedCall
    split
    · exact .fail _
    · exact callClosure_keeps he _ _
  cases e with
  | apply f args =>
    exact (he _ _).bind fun g => (evalAll_keeps he _ _).bind fun vs => hc g vs
  | call e method args =>
    refine (he _ _).bind fun v => (evalArguments_keeps he _ _).bind fun a => ?_
    by_cases h : v.uncovers method
    · simp only [h, ↓reduceIte]
      exact .fail_bind _ _
    · simp only [h, Bool.false_eq_true, ↓reduceIte]
      exact invokes v method a (by simpa using h)
  | construct className args => exact .guarded (evalStep_keeps_of he scope (by simp) (by simp))
  | currentFrame | currentSubquery => exact .fail _
  | _ => exact evalStep_keeps_of he scope (by simp) (by simp)

end Keeping

theorem Value.changesBy_of_uncovers {v : Value} {method : String} (h : v.uncovers method = false) :
    v.changesBy method = false := by
  unfold uncovers at h
  simp_all

theorem aloof_spares {k : Nat} (depth : Nat) (scope : Scope) (e : Expr) :
    Keeps (Spares k) (aloof depth scope e) := by
  induction depth generalizing scope e with
  | zero => exact .fail _
  | succ depth ih =>
    refine aloofStep_keeps ih (fun v method a h => ?_) scope e
    exact invoke_spares (restrainedCall_spares ih) v (Value.changesBy_of_uncovers h) a

theorem restrainedCall_stack {eval : Eval} (he : ∀ scope e, Keeps SameStack (eval scope e)) (f : Value)
    (args : List Value) : Keeps SameStack (restrainedCall eval f args) := by
  unfold restrainedCall
  split
  · exact .fail _
  · exact callClosure_keeps he _ _

theorem aloof_stack (depth : Nat) (scope : Scope) (e : Expr) :
    Keeps SameStack (aloof depth scope e) := by
  induction depth generalizing scope e with
  | zero => exact .fail _
  | succ depth ih =>
    exact aloofStep_keeps ih (fun v method a _ => invoke_keeps (restrainedCall_stack ih) v method a)
      scope e

/-- Calls of functions of an aloof program. -/
def aloofCall (depth : Nat) : Call := restrainedCall (aloof depth)

theorem aloofCall_discreet (depth : Nat) : Discreet (aloofCall depth) where
  spares _ := restrainedCall_spares (aloof_spares depth)
  stack := restrainedCall_stack (aloof_stack depth)

/-! ### Doing the same for every query -/

variable {ρ : Renaming} {F : Footprint}

theorem Value.uncovers_rename (v : Value) (method : String) :
    (v.rename ρ).uncovers method = v.uncovers method := by
  cases v with
  | stream s =>
    unfold uncovers
    simp only [Value.rename, s.isPlain_rename]
    rfl
  | _ => rfl

section Mirroring

variable (apart : ¬F.Contextual) {eval : Eval}
  (he : ∀ {s : Scope} {e : Expr}, (∀ x ∈ s, x.2.Within F) → e.Confined (F.Visible s) →
    Mirror ρ F (eval s e) (eval (Value.renameEntries ρ s) e))

include he

theorem restrainedCall_mirror {f : Value} (hf : f.Within F) {args : List Value}
    (ha : ∀ v ∈ args, v.Within F) :
    Mirror ρ F (restrainedCall eval f args)
      (restrainedCall eval (f.rename ρ) (args.map (Value.rename ρ))) := by
  cases f with
  | configurer k => exact .fail _
  | _ => exact callClosure_mirror he hf ha

include apart

/-- A call of a method that uncovers no query context mirrors itself. -/
theorem invoke_mirror_of_covered (discreet : Discreet (restrainedCall eval)) {v : Value}
    (hv : v.Within F) {a : ArgList} (ha : Renamable.Within F a) {method : String}
    (hm : method ∉ sendingMethods) (covered : v.uncovers method = false) :
    Mirror ρ F (invoke (restrainedCall eval) v method a)
      (invoke (restrainedCall eval) (v.rename ρ) method (Renamable.rename ρ a)) := by
  have call {f : Value} {args : List Value} (hf : f.Within F) (hw : ∀ v ∈ args, v.Within F) :=
    restrainedCall_mirror (ρ := ρ) he hf hw
  unfold Value.uncovers at covered
  simp only [Bool.or_eq_false_iff] at covered
  obtain ⟨⟨-, none⟩, streams⟩ := covered
  refine invoke_mirror_of call hv ha hm (fun new => ?_) fun s hs builds => ?_
  · simp [new] at none
  · subst hs
    simp only [List.contains_eq_mem, builds, decide_true, Bool.true_and, Bool.not_eq_false',
      Bool.and_eq_true, decide_eq_true_eq] at streams
    refine Stream.invoke_nested_mirror ha (by simpa [Stream.nestingMethods] using streams.1) ?_ ?_
    · exact Stream.asSubquery_tracked apart discreet call streams.2 hv
    · exact Stream.existence_tracked apart discreet call streams.2 hv

/-- One level of aloof evaluation mirrors itself if the evaluation of nested expressions does. -/
theorem aloofStep_mirror (discreet : Discreet (restrainedCall eval)) {scope : Scope}
    (hs : ∀ x ∈ scope, x.2.Within F) {e : Expr} (h : e.Confined (F.Visible scope)) :
    Mirror ρ F (aloofStep eval scope e) (aloofStep eval (Value.renameEntries ρ scope) e) := by
  have plain {e : Expr} (h : e.Confined (F.Visible scope)) (applies : ∀ f args, e ≠ .apply f args)
      (calls : ∀ v method args, e ≠ .call v method args)
      (frames : ¬(e = .currentFrame ∨ e = .currentSubquery))
      (covered : ∀ className args, e = .construct className args → className ∉ contextClasses) :
      Mirror ρ F (evalStep eval scope e) (evalStep eval (Value.renameEntries ρ scope) e) :=
    evalStep_mirror_of he hs h applies calls (fun f => absurd f frames)
      fun className args hc mem => absurd mem (covered className args hc)
  cases e with
  | apply f args =>
    exact (he hs h.1).bind fun g hg => (evalAll_mirror he hs h.2).bind fun vs hv =>
      restrainedCall_mirror he hg hv
  | call e method args =>
    obtain ⟨hm, hv, ha⟩ := h
    refine (he hs hv).bind fun v hv => (evalArguments_mirror he hs ha).bind fun a ha => ?_
    by_cases covered : v.uncovers method
    · simp only [renamable_value, v.uncovers_rename, covered, ↓reduceIte]
      exact .fail_bind _ _ _
    · simp only [renamable_value, v.uncovers_rename, covered, Bool.false_eq_true, ↓reduceIte]
      exact invoke_mirror_of_covered apart he discreet hv ha hm (by simpa using covered)
  | construct className args =>
    by_cases new : className ∈ contextClasses
    · unfold aloofStep
      simp only [List.contains_eq_mem, new, decide_true, ↓reduceIte]
      exact .fail_bind _ _ _
    · unfold aloofStep
      simp only [List.contains_eq_mem, new, decide_false, Bool.false_eq_true, ↓reduceIte]
      refine plain h (by simp) (by simp) (by simp) fun _ _ hc => ?_
      cases hc
      exact new
  | currentFrame | currentSubquery => exact .fail _
  | _ => exact plain h (by simp) (by simp) (by simp) (by simp)

end Mirroring

theorem aloof_mirror (apart : ¬F.Contextual) (depth : Nat) {scope : Scope} {e : Expr}
    (hs : ∀ x ∈ scope, x.2.Within F) (h : e.Confined (F.Visible scope)) :
    Mirror ρ F (aloof depth scope e) (aloof depth (Value.renameEntries ρ scope) e) := by
  induction depth generalizing scope e with
  | zero => exact .fail _
  | succ depth ih => exact aloofStep_mirror apart ih (aloofCall_discreet depth) hs h

/-- Where no value leads to a query context, a call of an aloof program mirrors itself, whichever
queries are under construction. -/
theorem aloofCall_mirror (apart : ¬F.Contextual) (depth : Nat) {f : Value} {args : List Value}
    (hf : f.Within F) (ha : ∀ v ∈ args, v.Within F) :
    Mirror ρ F (aloofCall depth f args) (aloofCall depth (f.rename ρ) (args.map (Value.rename ρ))) :=
  restrainedCall_mirror (aloof_mirror apart depth) hf ha

end FluentQuery
