import FluentQuery.Proofs.Balance
import FluentQuery.Proofs.Provenance.Interface
import FluentQuery.Proofs.Renaming.Evaluation

/-! Evaluation comes to known values, so that at every moment of a program whatever the machine
stores is known, and each number belongs to one stream for good. -/

namespace FluentQuery

open Sql

variable {w w' : Moment}

theorem readVariable_sound {scope : Scope} (hs : Known w scope) (name : String) :
    Sound w (readVariable scope name) := by
  unfold readVariable
  cases local? : scope.lookup name with
  | some v => exact .pure (known_of_lookup (fun x hx => (hs x hx).2) local?)
  | none =>
    refine .get fun m hm => ?_
    cases held : m.globals.lookup name with
    | none => exact .fail _
    | some v => exact .pure (known_of_lookup (fun x hx => (hm.globals x hx).2) held)

section Evaluation

variable {eval : Eval}
  (he : ∀ (w : Moment) (s : Scope) (e : Expr), Known w s → Sound w (eval s e))

include he

theorem callClosure_sound {f : Value} (hf : f.Known w) {args : List Value}
    (ha : ∀ v ∈ args, v.Known w) : Sound w (callClosure eval f args) := by
  cases f with
  | closure c =>
    obtain ⟨id, params, body, scope⟩ := c
    have hs := Value.fieldsKnown_iff.mp hf.2
    refine .ite (he _ _ _ fun x hx => ⟨trivial, ?_⟩) (.fail _)
    rcases List.mem_append.mp hx with hx | hx
    · exact ha x.2 (List.of_mem_zip (List.mem_reverse.mp hx)).2
    · exact hs x hx
  | _ => exact .fail _

theorem callAny_sound {f : Value} (hf : f.Known w) {args : List Value}
    (ha : ∀ v ∈ args, v.Known w) : Sound w (callAny eval f args) := by
  have closure {w : Moment} {g : Value} {vs : List Value} (hg : g.Known w)
      (hv : ∀ v ∈ vs, v.Known w) := callClosure_sound he hg hv
  cases f with
  | configurer c =>
    match args with
    | [] | [_] | _ :: _ :: _ :: _ => exact closure hf ha
    | [builder, query] =>
      exact Configurer.run_sound closure (ha builder (by simp)) (ha query (by simp)) hf
  | _ => exact closure hf ha

variable {scope : Scope} (hs : Known w scope)

include hs

theorem evalAll_sound (es : List Expr) : Sound w (evalAll eval scope es) := by
  induction es generalizing w with
  | nil => exact .pure known_nil
  | cons e es ih =>
    refine (he _ _ _ hs).bind fun _ le v hv => (ih (Knowable.mono le hs)).bind fun _ le vs hvs => .pure ?_
    exact List.forall_mem_cons.mpr ⟨Knowable.mono le hv, hvs⟩

theorem evalFields_sound (es : List (String × Expr)) : Sound w (evalFields eval scope es) := by
  induction es generalizing w with
  | nil => exact .pure known_nil
  | cons e es ih =>
    refine (he _ _ _ hs).bind fun _ le v hv => (ih (Knowable.mono le hs)).bind fun _ le vs hvs => .pure ?_
    exact List.forall_mem_cons.mpr ⟨⟨trivial, Knowable.mono le hv⟩, hvs⟩

theorem evalArguments_sound (a : Arguments) : Sound w (evalArguments eval scope a) := by
  refine (evalAll_sound he hs a.positional).bind fun _ le vs hvs => ?_
  refine (evalFields_sound he (Knowable.mono le hs) a.keyword).bind fun _ le fs hfs => ?_
  exact .pure (a := ArgList.mk vs fs) ⟨Knowable.mono le hvs, hfs⟩

/-- One level of evaluation comes to known values if the evaluation of nested expressions does. -/
theorem evalStep_sound (e : Expr) : Sound w (evalStep eval scope e) := by
  have call {w : Moment} {f : Value} {args : List Value} (hf : f.Known w)
      (ha : ∀ v ∈ args, v.Known w) := callAny_sound he hf ha
  have two {α : Type} [Knowable α] {a b : Expr} {k : Value → Value → Run α}
      (hk : ∀ w', w.Le w' → ∀ v u : Value, v.Known w' → u.Known w' → Sound w' (k v u)) :
      Sound w (do let v ← eval scope a; k v (← eval scope b)) :=
    (he _ _ _ hs).bind fun _ le₁ v hv => (he _ _ _ (Knowable.mono le₁ hs)).bind fun _ le₂ u hu =>
      hk _ (le₁.trans le₂) v u (Value.Known.mono le₂ hv) hu
  have arguments {w' : Moment} (le : w.Le w') (a : Arguments) :
      Sound w' (evalArguments eval scope a) := evalArguments_sound he (Knowable.mono le hs) a
  have truth {w' : Moment} {x : Run Bool} (h : Sound w' x) : Sound w' (do return Value.bool (← x)) :=
    h.bind fun _ _ b _ => .pure (a := Value.bool b) trivial
  cases e with
  | literal d => exact Value.written_sound d
  | list es => exact (evalAll_sound he hs es).bind fun _ _ vs hvs => newList_sound hvs
  | tuple es => exact (evalAll_sound he hs es).bind fun _ _ vs hvs => newTuple_sound hvs
  | «variable» name => exact readVariable_sound hs name
  | assign name e =>
    exact (he _ _ _ hs).bind fun _ _ v hv => (setGlobal_sound name hv).bind fun _ le _ _ =>
      .pure (Value.Known.mono le hv)
  | block es =>
    refine (evalAll_sound he hs es).bind fun w₁ _ vs hvs => .pure (a := vs.getLastD .null) ?_
    rw [List.getLastD_eq_getLast?]
    exact known_getD (o := vs.getLast?) (fun v hv => hvs v (List.mem_of_getLast? hv)) (d := .null) trivial
  | function params body =>
    refine fresh_sound.bind fun _ le id hid => .pure (a := Value.closure ⟨id, params, body, scope⟩) ?_
    exact ⟨hid, Value.fieldsKnown_iff.mpr fun x hx => ((hs x hx).2).mono le⟩
  | apply f args =>
    refine (he _ _ _ hs).bind fun _ le g hg => (evalAll_sound he (Knowable.mono le hs) args).bind ?_
    exact fun _ le vs hvs => call (Value.Known.mono le hg) hvs
  | trace e =>
    refine (he _ _ _ hs).bind fun _ _ v hv => .get fun m _ => .orExternal_bind _ fun d => ?_
    exact (note_sound d).bind fun _ le _ _ => .pure (Value.Known.mono le hv)
  | attempt e =>
    rw [evalStep_attempt]
    refine (he _ _ _ hs).tryCatch fun _ _ err => (note_sound _).bind fun _ _ _ _ => ?_
    exact .pure (a := Value.null) trivial
  | fail e => exact .fail e
  | identical a b => exact two fun _ _ v u _ _ => .pure (a := Value.bool (v.same u)) trivial
  | equal a b => exact two fun _ _ _ _ hv hu => truth (Operation.equal_sound hv hu)
  | sameHash a b => exact two fun _ _ v u _ _ => truth (Operation.sameHash_sound v u)
  | isInstance e className =>
    exact (he _ _ _ hs).bind fun _ _ v _ => .get fun m _ => .pure (a := Value.bool _) trivial
  | entity e => exact .pure (a := Value.mapped ⟨e, none⟩) fun _ _ => rfl
  | session spec => exact fresh_sound.bind fun _ _ id hid => .pure (a := Value.session ⟨id, spec⟩) hid
  | construct className args =>
    exact (arguments (.refl w) args).bind fun _ _ a ha => construct_sound ha className
  | get e name =>
    exact (he _ _ _ hs).bind fun _ _ v hv => (Value.property?_sound hv name).bind fun _ _ u hu =>
      orExternal_sound hu
  | set e name x =>
    exact two fun _ _ v u _ _ => (setProperty_sound v name u).bind fun _ _ _ _ =>
      .pure (a := Value.null) trivial
  | call e method args =>
    exact (he _ _ _ hs).bind fun _ le₁ v hv => (arguments le₁ args).bind fun _ le₂ a ha =>
      invoke_sound call (Value.Known.mono le₂ hv) ha method
  | shown e => exact (he _ _ _ hs).bind fun _ _ v _ => (shownNow_sound v).bind fun _ _ t _ => newText_sound t
  | compose args =>
    exact (arguments (.refl w) args).bind fun _ _ a ha =>
      extendConfigurer_sound ha "modifier" .modify fun h => h
  | transform args =>
    exact (arguments (.refl w) args).bind fun _ _ a ha =>
      extendConfigurer_sound ha "transformer" .transform fun h => h
  | resolveAttribute args => exact (arguments (.refl w) args).bind fun _ _ a ha => resolve_sound ha
  | currentFrame => exact currentFrame_sound.bind fun _ _ f hf => .pure (a := Value.frame f) hf
  | currentSubquery =>
    exact currentSubquery_sound.bind fun _ _ c hc => .pure (a := Value.context c) hc
  | depth =>
    refine .positive fun positive => .get fun m _ => ?_
    exact .pure (a := Value.int 0 m.stack.length) positive
  | within builder query name body =>
    refine two fun _ le _ _ hb hq => withFrame_sound hb hq fun _ le' f hf => he _ _ _ ?_
    exact List.forall_mem_cons.mpr ⟨⟨trivial, hf⟩, Knowable.mono (le.trans le') hs⟩
  | thread body => exact onStack_sound known_nil (he _ _ _ hs)
  | task body => exact .get fun m hm => onStack_sound hm.stack (he _ _ _ hs)
  | arithmetic op a b => exact two fun _ _ _ _ hv hu => Operation.arithmetic_sound op hv hu
  | compare op a b => exact two fun _ _ _ _ hv hu => Operation.compare_sound op hv hu
  | connect op es => exact (evalAll_sound he hs es).bind fun _ _ vs hvs => Expression.connect_sound op hvs
  | not e => exact (he _ _ _ hs).bind fun _ _ v hv => Expression.not_sound hv
  | among e values => exact (he _ _ _ hs).bind fun _ _ v hv => Expression.among_sound hv values
  | like e pattern => exact two fun _ _ _ _ hv hu => Expression.like_sound hv hu
  | sqlFunction name args =>
    exact (evalAll_sound he hs args).bind fun _ _ vs hvs => Expression.call_sound name hvs
  | parameter name => exact Expression.parameter_sound name
  | sorted d e => exact (he _ _ _ hs).bind fun _ _ v hv => Expression.sorted_sound d hv

end Evaluation

theorem eval_sound (depth : Nat) {scope : Scope} (hs : Known w scope) (e : Expr) :
    Sound w (eval depth scope e) := by
  induction depth generalizing w scope e with
  | zero => exact .fail _
  | succ depth ih => exact evalStep_sound (fun _ _ _ hs => ih hs _) hs e

theorem callAny_eval_sound (depth : Nat) {f : Value} {args : List Value} (hf : f.Known w)
    (ha : ∀ v ∈ args, v.Known w) : Sound w (callAny (eval depth) f args) :=
  callAny_sound (fun _ _ _ hs => eval_sound depth hs _) hf ha

/-! ### Programs -/

theorem ProgramStep.run_sound (step : ProgramStep) : Sound w step.run := by
  have described {w' : Moment} (v : Value) : Sound w' (describeNow v) :=
    .get fun _ _ => orExternal_sound fun _ _ => trivial
  refine (eval_sound nestingLimit known_nil step.body).bind fun _ _ v hv => ?_
  cases step.name? with
  | none => exact described v
  | some name => exact (setGlobal_sound name hv).bind fun _ _ _ _ => described v

/-- The moment a program starts: two numbers have been given away, and no stream has been made. -/
def Moment.start (settings : Diagnostics) : Moment := ⟨(Machine.start settings).extent, fun _ => none⟩

theorem Machine.start_known (settings : Diagnostics) :
    (Machine.start settings).Known (.start settings) where
  globals x hx := by
    obtain rfl := List.mem_singleton.mp hx
    exact ⟨trivial, show 0 < 2 by decide, show 1 < 2 by decide⟩
  refs := known_nil
  contexts := known_nil
  queries := known_nil
  mappings := known_nil
  stack := known_nil
  extent := rfl
  positive := show 0 < 2 by decide

theorem runSteps_known (steps : List ProgramStep) {m : Machine} (hm : m.Known w) :
    ∃ w', w.Le w' ∧ (runSteps steps m).2.Known w' := by
  induction steps generalizing w m with
  | nil => exact ⟨w, .refl w, hm⟩
  | cons step steps ih =>
    rw [runSteps_cons]
    have cleared : { m with trace := [], log := [] }.Known w := { hm with extent := hm.extent }
    obtain ⟨w₁, le₁, known₁, -⟩ := step.run_sound _ cleared
    obtain ⟨w₂, le₂, known₂⟩ := ih known₁
    exact ⟨w₂, le₁.trans le₂, known₂⟩

end FluentQuery
