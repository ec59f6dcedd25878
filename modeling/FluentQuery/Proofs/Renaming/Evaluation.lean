import FluentQuery.Evaluation
import FluentQuery.Proofs.Renaming.Interface
import FluentQuery.Proofs.Renaming.Operation

/-! Evaluating a confined expression mirrors itself. -/

namespace FluentQuery

open Sql

variable {ρ : Renaming} {F : Footprint}

/-! ### Plain data -/

mutual

theorem Value.ofDatum_mirror : ∀ d : Datum, Mirror ρ F (Value.ofDatum d) (Value.ofDatum d)
  | .null => .pure (a := Value.null) trivial
  | .bool b => .pure (a := Value.bool b) trivial
  | .int n => .pure_of (a := Value.int 0 n) trivial (congrArg (Value.int · n) ρ.number_zero.symm)
  | .float x => .pure_of (a := Value.float 0 x) trivial (congrArg (Value.float · x) ρ.number_zero.symm)
  | .text s => .pure_of (a := Value.text 0 s) trivial (congrArg (Value.text · s) ρ.number_zero.symm)
  | .list items => (ofData_mirror items).bind fun _ hv => newList_mirror hv
  | .mapping fields => (ofFields_mirror fields).bind fun _ hf => newMapping_mirror fun x hx => (hf x hx).2

theorem Value.ofData_mirror :
    ∀ ds : List Datum, Mirror ρ F (Value.ofDatum.ofData ds) (Value.ofDatum.ofData ds)
  | [] => .pure_of (fun _ h => by cases h) rfl
  | d :: ds => (Value.ofDatum_mirror d).bind fun _ hv => (Value.ofData_mirror ds).bind fun _ hvs =>
    .pure_of (List.forall_mem_cons.mpr ⟨hv, hvs⟩) rfl

theorem Value.ofFields_mirror :
    ∀ fields : List (String × Datum),
      Mirror ρ F (Value.ofDatum.ofFields fields) (Value.ofDatum.ofFields fields)
  | [] => .pure_of (fun _ h => by cases h) rfl
  | (_, d) :: rest => (Value.ofDatum_mirror d).bind fun _ hv =>
    (Value.ofFields_mirror rest).bind fun _ hf =>
      .pure_of (List.forall_mem_cons.mpr ⟨⟨trivial, hv⟩, hf⟩) rfl

end

theorem Value.written_mirror (d : Datum) : Mirror ρ F (Value.written d) (Value.written d) := by
  unfold Value.written
  split
  · exact newInt_mirror _
  · exact newFloat_mirror _
  · exact newText_mirror _
  · exact Value.ofDatum_mirror d

/-! ### Evaluation -/

/-- The names an expression may read in a scope. -/
def Footprint.Visible (F : Footprint) (scope : Scope) (name : String) : Prop :=
  name ∈ scope.map Prod.fst ∨ F.globals name

theorem readVariable_mirror {scope : Scope} (hs : ∀ x ∈ scope, x.2.Within F) {name : String}
    (hn : F.Visible scope name) :
    Mirror ρ F (readVariable scope name) (readVariable (Value.renameEntries ρ scope) name) := by
  unfold readVariable
  rw [show (Value.renameEntries ρ scope).lookup name = (scope.lookup name).map (Value.rename ρ) from
    lookup_map_values _ scope name]
  cases local? : scope.lookup name with
  | some v => exact .pure (Value.within_of_lookup hs local?)
  | none =>
    refine .get fun {m m'} hm => ?_
    have global : F.globals name := by
      refine hn.resolve_left fun h => ?_
      obtain ⟨x, hx, rfl⟩ := List.mem_map.mp h
      have := List.lookup_eq_none_iff.mp local? x hx
      simp at this
    obtain ⟨eq, within⟩ := hm.globals global
    rw [eq]
    cases held : m.globals.lookup name with
    | none => exact .fail _
    | some v => exact .pure (within v held)

theorem evalStep_attempt (eval : Eval) (scope : Scope) (e : Expr) :
    evalStep eval scope (.attempt e) =
      tryCatch (eval scope e) fun err => do note (.failure err); return .null := by
  funext m
  unfold evalStep
  change exec _ m = exec _ m
  rw [exec_bind, exec_tryCatch, exec_tryCatch, exec_bind]
  rcases exec (eval scope e) m with ⟨err | v, m'⟩ <;> rfl

section Evaluation

variable {eval : Eval}
  (he : ∀ {s : Scope} {e : Expr}, (∀ x ∈ s, x.2.Within F) → e.Confined (F.Visible s) →
    Mirror ρ F (eval s e) (eval (Value.renameEntries ρ s) e))

include he

theorem callClosure_mirror {f : Value} (hf : f.Within F) {args : List Value}
    (ha : ∀ v ∈ args, v.Within F) :
    Mirror ρ F (callClosure eval f args)
      (callClosure eval (f.rename ρ) (args.map (Value.rename ρ))) := by
  cases f with
  | closure c =>
    obtain ⟨id, params, body, scope⟩ := c
    obtain ⟨hb, hs⟩ := hf
    have hs := Value.fieldsWithin_iff.mp hs
    have inner : ∀ x ∈ (params.zip args).reverse ++ scope, x.2.Within F := by
      refine List.forall_mem_append.mpr ⟨fun x hx => ?_, hs⟩
      exact ha x.2 (List.of_mem_zip (List.mem_reverse.mp hx)).2
    have renamed : (params.zip (args.map (Value.rename ρ))).reverse ++ Value.renameEntries ρ scope =
        Value.renameEntries ρ ((params.zip args).reverse ++ scope) := by
      simp [Value.renameEntries, List.zip_map_right]
    have called (length : params.length = args.length) :
        Mirror ρ F (eval ((params.zip args).reverse ++ scope) body)
          (eval ((params.zip (args.map (Value.rename ρ))).reverse ++ Value.renameEntries ρ scope)
            body) := by
      rw [renamed]
      refine he inner ?_
      have visible : F.Visible ((params.zip args).reverse ++ scope) =
          fun x => x ∈ params ∨ x ∈ scope.map Prod.fst ∨ F.globals x := by
        funext x
        unfold Footprint.Visible
        rw [List.map_append, List.map_reverse, List.map_fst_zip (Nat.le_of_eq length), List.mem_append,
          List.mem_reverse, or_assoc]
      rw [visible]
      exact hb
    unfold callClosure
    simp only [Value.rename, Closure.rename, Value.renameFields_eq, List.length_map, beq_iff_eq]
    split
    · exact called ‹_›
    · exact .fail _
  | _ => exact .fail _

theorem callAny_mirror [F.Contextual] {f : Value} (hf : f.Within F) {args : List Value}
    (ha : ∀ v ∈ args, v.Within F) :
    Mirror ρ F (callAny eval f args) (callAny eval (f.rename ρ) (args.map (Value.rename ρ))) := by
  have closure {g : Value} {vs : List Value} (hg : g.Within F) (hv : ∀ v ∈ vs, v.Within F) :=
    callClosure_mirror (ρ := ρ) he hg hv
  cases f with
  | configurer c =>
    match args with
    | [] | [_] | _ :: _ :: _ :: _ => exact closure hf ha
    | [builder, query] =>
      exact Configurer.run_mirror closure (ha builder (by simp)) (ha query (by simp)) hf
  | _ => exact closure hf ha

variable {scope : Scope} (hs : ∀ x ∈ scope, x.2.Within F)

include hs

theorem evalAll_mirror {es : List Expr} (h : Expr.AllConfined (F.Visible scope) es) :
    Mirror ρ F (evalAll eval scope es) (evalAll eval (Value.renameEntries ρ scope) es) := by
  induction es with
  | nil => exact .pure_of (fun _ h => by cases h) rfl
  | cons e es ih =>
    refine (he hs h.1).bind fun v hv => (ih h.2).bind fun vs hvs => ?_
    exact .pure_of (List.forall_mem_cons.mpr ⟨hv, hvs⟩) rfl

theorem evalFields_mirror {es : List (String × Expr)}
    (h : Expr.FieldsConfined (F.Visible scope) es) :
    Mirror ρ F (evalFields eval scope es) (evalFields eval (Value.renameEntries ρ scope) es) := by
  induction es with
  | nil => exact .pure_of (fun _ h => by cases h) rfl
  | cons e es ih =>
    obtain ⟨k, e⟩ := e
    refine (he hs h.1).bind fun v hv => (ih h.2).bind fun vs hvs => ?_
    exact .pure_of (List.forall_mem_cons.mpr ⟨⟨trivial, hv⟩, hvs⟩) rfl

theorem evalArguments_mirror {a : Arguments} (h : a.Confined (F.Visible scope)) :
    Mirror ρ F (evalArguments eval scope a) (evalArguments eval (Value.renameEntries ρ scope) a) := by
  obtain ⟨positional, keyword⟩ := a
  refine (evalAll_mirror he hs h.1).bind fun vs hvs => (evalFields_mirror he hs h.2).bind fun fs hfs => ?_
  exact .pure (a := ArgList.mk vs fs) ⟨hvs, fun x hx => (hfs x hx).2⟩

/-- One level of evaluation of what calls no method and applies no function. What gives a query
context or a frame does so only where values may lead to query contexts. -/
theorem evalStep_mirror_of {e : Expr} (h : e.Confined (F.Visible scope))
    (applies : ∀ f args, e ≠ .apply f args) (calls : ∀ v method args, e ≠ .call v method args)
    (frames : e = .currentFrame ∨ e = .currentSubquery → F.Contextual)
    (new : ∀ className args, e = .construct className args → className ∈ contextClasses →
      F.Contextual) :
    Mirror ρ F (evalStep eval scope e) (evalStep eval (Value.renameEntries ρ scope) e) := by
  have two {α : Type} [Renamable α] {a b : Expr} {k l : Value → Value → Run α}
      (h : a.Confined (F.Visible scope) ∧ b.Confined (F.Visible scope))
      (hk : ∀ v w, v.Within F → w.Within F → Mirror ρ F (k v w) (l (v.rename ρ) (w.rename ρ))) :
      Mirror ρ F (do let v ← eval scope a; k v (← eval scope b))
        (do
          let v ← eval (Value.renameEntries ρ scope) a
          l v (← eval (Value.renameEntries ρ scope) b)) :=
    (he hs h.1).bind fun v hv => (he hs h.2).bind fun w hw => hk v w hv hw
  have truth {x y : Run Bool} (h : Mirror ρ F x y) :
      Mirror ρ F (do return Value.bool (← x)) (do return Value.bool (← y)) :=
    h.bind fun b _ => .pure (a := Value.bool b) trivial
  cases e with
  | literal d => exact Value.written_mirror d
  | list es => exact (evalAll_mirror he hs h).bind fun vs hvs => newList_mirror hvs
  | tuple es => exact (evalAll_mirror he hs h).bind fun vs hvs => newTuple_mirror hvs
  | «variable» name => exact readVariable_mirror hs h
  | assign name e =>
    exact (he (e := e) hs h).bind fun v hv => (setGlobal_mirror name hv).bind fun _ _ => .pure hv
  | block es =>
    refine (evalAll_mirror he hs h).bind fun vs hvs => .pure_of (a := vs.getLastD .null) ?_ ?_
    · rw [List.getLastD_eq_getLast?]
      exact getD_within (fun v hv => hvs v (List.mem_of_getLast? hv)) trivial
    · simp [Renamable.rename, List.getLastD_eq_getLast?, getD_rename]
  | function params body =>
    refine .fresh fun id => .pure_of (a := Value.closure ⟨id, params, body, scope⟩)
      ⟨h, Value.fieldsWithin_iff.mpr hs⟩ ?_
    simp [Renamable.rename]
  | apply f args => exact absurd rfl (applies f args)
  | trace e => exact h.elim
  | attempt e =>
    rw [evalStep_attempt, evalStep_attempt]
    refine .tryCatch (he (e := e) hs h) fun err => (note_mirror _ _).bind fun _ _ => ?_
    exact .pure (a := Value.null) trivial
  | fail e => exact .fail e
  | identical a b =>
    exact two h fun v w _ _ => .pure_of (a := Value.bool (v.same w)) trivial
      (congrArg Value.bool (Value.same_rename v w))
  | equal a b => exact two h fun v w hv hw => truth (Operation.equal_mirror hv hw)
  | sameHash a b => exact two h fun v w _ _ => truth (Operation.sameHash_mirror v w)
  | isInstance e className =>
    refine (he (e := e) hs h).bind fun v hv => .get fun hm => .pure_of trivial ?_
    exact congrArg (fun classes => Value.bool (classes.contains className))
      (Value.classes_alike hm.toStoresAlike hv)
  | entity e => exact .pure (a := Value.mapped ⟨e, none⟩) trivial
  | session spec => exact .fresh fun id => .pure (a := Value.session ⟨id, spec⟩) trivial
  | construct className args =>
    exact (evalArguments_mirror he hs h).bind fun a ha =>
      construct_mirror ha (new className args rfl)
  | get e name =>
    exact (he (e := e) hs h).bind fun v hv => (Value.property?_mirror hv name).bind fun w hw =>
      orExternal_mirror ⟨rfl, hw⟩
  | set e name x =>
    exact two h fun v w hv _ => (setProperty_mirror hv name w).bind fun _ _ =>
      .pure (a := Value.null) trivial
  | call e method args => exact absurd rfl (calls e method args)
  | shown e => exact (he (e := e) hs h).bind fun v hv => (shownNow_mirror hv).bind fun t _ => newText_mirror t
  | compose args =>
    exact (evalArguments_mirror he hs h).bind fun a ha =>
      extendConfigurer_mirror ha "modifier" (fun _ => rfl) fun h => h
  | transform args =>
    exact (evalArguments_mirror he hs h).bind fun a ha =>
      extendConfigurer_mirror ha "transformer" (fun _ => rfl) fun h => h
  | resolveAttribute args =>
    exact (evalArguments_mirror he hs h).bind fun a ha => resolve_mirror ha
  | currentFrame =>
    have := frames (.inl rfl)
    exact currentFrame_mirror.bind fun f hf => .pure (a := Value.frame f) hf
  | currentSubquery =>
    have := frames (.inr rfl)
    exact currentSubquery_mirror.bind fun c hc => .pure (a := Value.context c) hc
  | depth =>
    refine .get fun {m m'} hm => .pure_of (a := Value.int 0 m.stack.length) trivial ?_
    rw [hm.stack.depth]
    exact congrArg (Value.int · _) ρ.number_zero.symm
  | within builder query name body =>
    refine two ⟨h.1, h.2.1⟩ fun b q hb hq => withFrame_mirror hb hq fun f hf => ?_
    refine he (s := (name, .frame f) :: scope) (List.forall_mem_cons.mpr ⟨hf, hs⟩) ?_
    have visible : F.Visible ((name, .frame f) :: scope) = fun x => x = name ∨ F.Visible scope x := by
      funext x
      simp [Footprint.Visible, or_assoc]
    rw [visible]
    exact h.2.2
  | thread body => exact onStack_mirror .empty (he (e := body) hs h)
  | task body => exact .get fun hm => onStack_mirror hm.stack (he (e := body) hs h)
  | arithmetic op a b => exact two h fun v w hv hw => Operation.arithmetic_mirror op hv hw
  | compare op a b => exact two h fun v w hv hw => Operation.compare_mirror op hv hw
  | connect op es => exact (evalAll_mirror he hs h).bind fun vs _ => Expression.connect_mirror op vs
  | not e => exact (he (e := e) hs h).bind fun v _ => Expression.not_mirror v
  | among e values => exact (he (e := e) hs h).bind fun v _ => Expression.among_mirror v values
  | like e pattern => exact two h fun v w _ _ => Expression.like_mirror v w
  | sqlFunction name args =>
    exact (evalAll_mirror he hs h).bind fun vs hvs => Expression.call_mirror name _ hvs
  | parameter name => exact Expression.parameter_mirror name
  | sorted d e => exact (he (e := e) hs h).bind fun v _ => Expression.sorted_mirror d v

/-- One level of evaluation mirrors itself if the evaluation of nested expressions does. -/
theorem evalStep_mirror [inst : F.Contextual] {e : Expr} (h : e.Confined (F.Visible scope)) :
    Mirror ρ F (evalStep eval scope e) (evalStep eval (Value.renameEntries ρ scope) e) := by
  have call {f : Value} {args : List Value} (hf : f.Within F) (ha : ∀ v ∈ args, v.Within F) :=
    callAny_mirror (ρ := ρ) he hf ha
  cases e with
  | apply f args =>
    exact (he hs h.1).bind fun g hg => (evalAll_mirror he hs h.2).bind fun vs hvs => call hg hvs
  | call e method args =>
    exact (he hs h.2.1).bind fun v hv => (evalArguments_mirror he hs h.2.2).bind fun a ha =>
      invoke_mirror call hv ha h.1
  | _ => exact evalStep_mirror_of he hs h (by simp) (by simp) (fun _ => inst) fun _ _ _ _ => inst

end Evaluation

/-- The evaluation of a confined expression mirrors itself. -/
theorem eval_mirror [F.Contextual] (depth : Nat) {scope : Scope} {e : Expr} (hs : ∀ x ∈ scope, x.2.Within F)
    (h : e.Confined (F.Visible scope)) :
    Mirror ρ F (eval depth scope e) (eval depth (Value.renameEntries ρ scope) e) := by
  induction depth generalizing scope e with
  | zero => exact .fail _
  | succ depth ih => exact evalStep_mirror ih hs h

end FluentQuery
