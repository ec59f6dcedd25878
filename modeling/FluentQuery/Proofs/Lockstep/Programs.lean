import FluentQuery.Proofs.Lockstep.Building

/-! Programs in lockstep: sending queries, operations on values, calls of the library by name, and with
these one level of evaluation, if what is nested agrees. -/

namespace FluentQuery

open Sql

variable {k : Margin}

/-! ### Plain data -/

mutual

theorem Value.ofDatum_unswayed : ∀ d : Datum, Unswayed k (Value.ofDatum d)
  | .null | .bool _ | .int _ | .float _ | .text _ => .pure _
  | .list items => (ofData_unswayed items).bind fun vs => newList_unswayed vs
  | .mapping fields => (ofFields_unswayed fields).bind fun vs => newMapping_unswayed vs

theorem Value.ofData_unswayed : ∀ ds : List Datum, Unswayed k (Value.ofDatum.ofData ds)
  | [] => .pure []
  | d :: ds =>
    (Value.ofDatum_unswayed d).bind fun _ => (Value.ofData_unswayed ds).bind fun _ => .pure _

theorem Value.ofFields_unswayed :
    ∀ fields : List (String × Datum), Unswayed k (Value.ofDatum.ofFields fields)
  | [] => .pure []
  | (_, d) :: rest =>
    (Value.ofDatum_unswayed d).bind fun _ => (Value.ofFields_unswayed rest).bind fun _ => .pure _

end

attribute [grind ←] Value.ofDatum_unswayed

@[grind ←] theorem Value.written_unswayed (d : Datum) : Unswayed k (Value.written d) := by
  unfold Value.written
  split <;> grind

/-! ### Sending queries -/

@[grind ←] theorem requireSession_unswayed (v : Value) : Unswayed k (requireSession v) := by
  unfold requireSession
  split <;> grind

@[grind ←] theorem sendTo_unswayed (session : Session) (s : Statement) (options : MappingId) :
    Unswayed k (sendTo session s options) := by
  refine .reading (fun m o => ?_) fun m => ?_
  · rw [show Value.describe? (m.amid o) = Value.describe? m from funext (m.describe?_amid o)]
    rfl
  · refine (orExternal_unswayed _).bind fun d => (orExternal_unswayed _).bind fun fields => ?_
    refine (note_unswayed _).bind fun _ => ?_
    split <;> grind

@[grind ←] theorem isSingle_unswayed (s : Statement) : Unswayed k (isSingle s) := by
  unfold isSingle
  split <;> grind

@[grind ←] theorem element_unswayed (single : Bool) (row : List Datum) :
    Unswayed k (element single row) := by
  unfold element
  split <;> grind

namespace QueryId

@[grind ←] theorem found_unswayed (q : QueryId) (x : Executable) (s : Statement) :
    Unswayed k (q.found sendTo x s) := by
  unfold found
  refine (logLine_unswayed (by grind)).bind fun _ => (requireSession_unswayed _).bind fun session => ?_
  refine (sendTo_unswayed _ _ _).bind fun answer => (isSingle_unswayed s).bind fun single => ?_
  split <;> grind

@[grind ←] theorem typed_unswayed (q : QueryId) : Unswayed k q.typed := by
  unfold typed
  refine q.read_unswayed.bind fun x => ?_
  split <;> grind

@[grind ←] theorem currentStatement_unswayed (x : Executable) : Unswayed k (currentStatement x) := by
  refine .reading (fun m o => ?_) fun m => liftExcept_unswayed _
  rw [m.statement_amid o]
  rfl

@[grind ←] theorem fetch_unswayed (q : QueryId) : Unswayed k (q.fetch sendTo) := by
  unfold fetch
  refine q.typed_unswayed.bind fun x => (currentStatement_unswayed x).bind fun s => ?_
  refine (q.found_unswayed x s).bind fun (single, rows) => ?_
  grind

@[grind ←] theorem first_unswayed (q : QueryId) : Unswayed k (q.first sendTo) := by
  unfold first
  refine q.typed_unswayed.bind fun x => ?_
  split
  · exact .pure _
  · refine (currentStatement_unswayed x).bind fun s => ?_
    split
    · refine .reading (fun _ _ => rfl) fun m => (q.found_unswayed _ _).bind fun found => ?_
      split <;> grind
    · exact .fail _

@[grind ←] theorem one_unswayed (q : QueryId) : Unswayed k (q.one sendTo) := by
  unfold QueryId.one
  refine q.typed_unswayed.bind fun x => (currentStatement_unswayed x).bind fun s => ?_
  refine (q.found_unswayed x s).bind fun found => ?_
  split <;> grind

@[grind ←] theorem restriction_unswayed (x : Executable) : Unswayed k (restriction x) := by
  unfold restriction
  split <;> grind

@[grind ←] theorem execute_unswayed (q : QueryId) : Unswayed k q.execute := by
  unfold execute
  refine q.read_unswayed.bind fun x => ?_
  split
  · refine .guarded ((restriction_unswayed x).bind fun r => fun m m' h => ?_)
    rw [after, after, exec_bind_of_ok (exec_get m), exec_bind_of_ok (exec_get m'), h.settings.bulk]
    refine Unswayed.ite ((shownNow_unswayed _).bind fun t => .fail_bind _ _) ?_ m m' h
    refine (logLine_unswayed (by grind)).bind fun _ => (requireSession_unswayed _).bind fun s => ?_
    refine (currentStatement_unswayed x).bind fun t => (sendTo_unswayed _ _ _).bind fun answer => ?_
    split <;> grind
  · exact .fail _

@[grind ←] theorem setBound_unswayed (q : QueryId) (b : Bounding) (v : Value) :
    Unswayed k (q.setBound b v) := by
  unfold setBound
  exact q.read_unswayed.bind fun x => (requireBound_unswayed b v).bind fun y => q.write_unswayed _

@[grind ←] theorem ofParts_unswayed (kind : QueryKind) (session query params options : Value) :
    Unswayed k (ofParts kind session query params options) := by
  unfold ofParts
  refine .guarded (.guarded ?_)
  grind

end QueryId

/-! ### Operations -/

namespace Operation

@[grind ←] theorem repeatPlain_unswayed (n : Int) (v : Value) : Unswayed k (repeatPlain n v) := by
  unfold repeatPlain
  split <;> grind

@[grind ←] theorem joinPlain_unswayed (v w : Value) : Unswayed k (joinPlain v w) := by
  unfold joinPlain
  split <;> grind

@[grind ←] theorem plainArithmetic_unswayed (op : Arithmetic) (a b : Value) :
    Unswayed k (plainArithmetic op a b) := by
  unfold plainArithmetic
  split
  · grind
  · split
    · grind
    · split <;> grind

@[grind ←] theorem arithmetic_unswayed (op : Arithmetic) (a b : Value) :
    Unswayed k (arithmetic op a b) := by
  unfold arithmetic
  rcases h : Expression.arithmetic? op a b with _ | x
  · exact plainArithmetic_unswayed op a b
  · exact Expression.arithmetic?_unswayed op a b h

theorem agree_unswayed {equal : Value → Value → Run Bool} (he : ∀ v w, Unswayed k (equal v w))
    (xs ys : List Value) : Unswayed k (agree equal xs ys) := by
  fun_induction agree equal xs ys <;> grind

theorem fieldsAgree_unswayed {equal : Value → Value → Run Bool} (he : ∀ v w, Unswayed k (equal v w))
    (other fields : List (String × Value)) : Unswayed k (fieldsAgree equal other fields) := by
  fun_induction fieldsAgree equal other fields <;> grind

theorem equalTo_unswayed (depth : Nat) (a b : Value) : Unswayed k (equalTo depth a b) := by
  induction depth generalizing a b with
  | zero => exact .fail _
  | succ depth ih =>
    unfold equalTo
    rcases h : Expression.compare? .eq a b with _ | equation
    · dsimp only
      split
      · exact .pure _
      · exact agree_unswayed ih _ _
      · split
        · exact agree_unswayed ih _ _
        · refine (MappingId.read_unswayed _).bind fun fields => ?_
          refine (MappingId.read_unswayed _).bind fun others => ?_
          split
          · exact .pure _
          · exact fieldsAgree_unswayed ih _ _
        · exact .pure _
        · exact .pure _
        · exact agree_unswayed ih _ _
        · exact .pure _
    · exact (Expression.compare?_unswayed _ a b h).bind fun v => truth_unswayed v

@[grind ←] theorem equal_unswayed (a b : Value) : Unswayed k (equal a b) := equalTo_unswayed 1000 a b

theorem orderItems_unswayed (op : Comparison) {order : Value → Value → Run Bool}
    (ho : ∀ v w, Unswayed k (order v w)) (xs ys : List Value) :
    Unswayed k (orderItems op order xs ys) := by
  fun_induction orderItems op order xs ys <;> grind

theorem orderTo_unswayed (op : Comparison) (depth : Nat) (a b : Value) :
    Unswayed k (orderTo op depth a b) := by
  induction depth generalizing a b with
  | zero => exact .fail _
  | succ depth ih =>
    unfold orderTo
    split
    · exact .pure _
    · exact .pure _
    · exact orderItems_unswayed op ih _ _
    · split
      · exact .pure _
      · exact orderItems_unswayed op ih _ _
      · exact .fail _

@[grind ←] theorem compare_unswayed (op : Comparison) (a b : Value) :
    Unswayed k (Operation.compare op a b) := by
  have plain : Unswayed k (plainComparison op a b) := by
    have order := orderTo_unswayed (k := k) op 1000 a b
    unfold plainComparison
    split <;> grind
  unfold Operation.compare
  rcases h : Expression.compare? op a b with _ | x
  · exact plain
  · exact Expression.compare?_unswayed op a b h

@[grind ←] theorem sameHash_unswayed (a b : Value) : Unswayed k (sameHash a b) := by
  grind [sameHash]

end Operation

/-! ### Calls by name -/

namespace ArgList

@[grind ←] theorem bind_unswayed (a : ArgList) (s : Signature) : Unswayed k (a.bind s) := by
  grind [ArgList.bind]

@[grind ←] theorem exactly_unswayed (a : ArgList) (names : List String) :
    Unswayed k (a.exactly names) := by
  grind [exactly]

@[grind ←] theorem requireNone_unswayed (a : ArgList) : Unswayed k a.requireNone := by
  grind [requireNone]

@[grind ←] theorem one_unswayed (a : ArgList) (name : String) : Unswayed k (a.one name) := by
  unfold ArgList.one
  refine (a.exactly_unswayed _).bind fun vs => ?_
  split <;> grind

@[grind ←] theorem two_unswayed (a : ArgList) (first second : String) :
    Unswayed k (a.two first second) := by
  unfold two
  refine (a.exactly_unswayed _).bind fun vs => ?_
  split <;> grind

@[grind ←] theorem rest_unswayed (a : ArgList) : Unswayed k a.rest := by
  grind [rest]

@[grind ←] theorem fields_unswayed (a : ArgList) : Unswayed k a.fields := by
  grind [fields]

@[grind ←] theorem ownFields_unswayed (a : ArgList) : Unswayed k a.ownFields := by
  grind [ownFields]

end ArgList

@[grind ←] theorem RefId.invoke_unswayed (r : RefId) (method : String) (a : ArgList) :
    Unswayed k (r.invoke method a) := by
  unfold RefId.invoke
  split <;> grind

@[grind ←] theorem newContext_unswayed (kind : ContextKind) : Unswayed k (newContext kind) := by
  grind [newContext]

@[grind ←] theorem newBulk_unswayed (kind : Value → ContextKind) (entity : Value) :
    Unswayed k (newBulk kind entity) := by
  grind [newBulk]

@[grind ←] theorem invokeBuilder_unswayed (method : String) (a : ArgList) :
    Unswayed k (invokeBuilder method a) := by
  unfold invokeBuilder
  split <;> grind

@[grind ←] theorem QueryId.invoke_unswayed (q : QueryId) (method : String) (a : ArgList) :
    Unswayed k (q.invoke method a) := by
  unfold QueryId.invoke
  split <;> grind

@[grind ←] theorem invokeQueryBuilder_unswayed (session : Value) (method : String) (a : ArgList) :
    Unswayed k (invokeQueryBuilder session method a) := by
  unfold invokeQueryBuilder
  split <;> grind

@[grind ←] theorem MappingId.merge_unswayed (i : MappingId) (given : List Value)
    (keyword : List (String × Value)) : Unswayed k (i.merge given keyword) := by
  have add (x : String × Value) : Unswayed k (do register x.2; i.update [x]) :=
    (register_unswayed _).bind fun _ => i.update_unswayed _
  have rest : Unswayed k (keyword.forM fun x => do register x.2; i.update [x]) := .forM add _
  unfold merge
  dsimp only
  split
  · exact rest
  · exact (MappingId.read_unswayed _).bind fun fields => .bind (.forM add _) fun _ => rest
  · refine (itemsOf_unswayed _).bind fun items => .bind (.forM (fun item => ?_) _) fun _ => rest
    exact (fieldOf_unswayed item).bind add
  · exact .fail_bind _ _

/-! ### Constructors -/

@[grind ←] theorem newStream_unswayed (kind : StreamKind) (a : ArgList) :
    Unswayed k (newStream kind a) := by
  unfold newStream
  refine (a.bind_unswayed _).bind fun vs => ?_
  split <;> grind

@[grind ←] theorem newQuery_unswayed (kind : QueryKind) (a : ArgList) :
    Unswayed k (newQuery kind a) := by
  unfold newQuery
  refine (a.bind_unswayed _).bind fun vs => ?_
  split <;> grind

@[grind ←] theorem newQueryType_unswayed (purpose : Purpose) (a : ArgList) :
    Unswayed k (newQueryType purpose a) := by
  grind [newQueryType]

@[grind ←] theorem construct_unswayed (className : String) (a : ArgList) :
    Unswayed k (construct className a) := by
  unfold construct
  split <;> grind

@[grind ←] theorem extendConfigurer_unswayed (what : String) (step : Value → Step) (a : ArgList) :
    Unswayed k (extendConfigurer what step a) := by
  unfold extendConfigurer Configurer.extend
  refine (a.two_unswayed _ _).bind fun (prev, extra) => .guarded (.guarded ?_)
  refine fresh_unswayed.bind fun id => ?_
  split <;> grind

@[grind ←] theorem resolve_unswayed (a : ArgList) : Unswayed k (resolve a) := by
  grind [resolve]

@[grind ←] theorem setProperty_unswayed (v : Value) (name : String) (x : Value) :
    Unswayed k (setProperty v name x) := by
  unfold setProperty
  split <;> grind

/-! ### Methods -/

@[grind ←] theorem ContextId.invoke_unswayed (c : ContextId) (method : String) (a : ArgList) :
    Unswayed k (c.invoke method a) := by
  unfold ContextId.invoke
  refine c.read_unswayed.bind fun x => ?_
  split <;> grind

@[grind ←] theorem QueryType.invoke_unswayed (t : QueryType) (method : String) (a : ArgList) :
    Unswayed k (t.invoke method a) := by
  unfold QueryType.invoke
  split <;> grind

section Calls

variable {call call' : Call} (hc : ∀ f args, Agrees k.inner (call f args) (call' f args))

include hc

theorem Stream.invokeSearch_agrees (s : Stream) (method : String) (a : ArgList) :
    Agrees k.inner (s.invokeSearch call method a) (s.invokeSearch call' method a) := by
  have fluent {x : Run Value} (h : Unswayed k.inner x) : Agrees k.inner x x := h
  unfold Stream.invokeSearch
  split
  case h_12 => exact .behind a.requireNone_unswayed fun _ => s.asSubquery_agrees hc
  case h_13 => exact .behind a.requireNone_unswayed fun _ => s.existence_agrees hc
  all_goals refine fluent ?_
  all_goals grind

/-- Whether calling a method of this value may log what was compiled. -/
def Value.compilesBy (method : String) : Value → Bool
  | .stream _ => method == "to_query"
  | _ => false

theorem Stream.invoke_agrees (s : Stream) {method : String}
    (quiet : k ≠ .compiled ∨ (Value.stream s).compilesBy method = false) (a : ArgList) :
    Agrees k.inner (s.invoke call method a) (s.invoke call' method a) := by
  have fluent {x : Run Value} (h : Unswayed k.inner x) : Agrees k.inner x x := h
  have inner (f : Value) (args : List Value) :
      Agrees k.inner.inner (call f args) (call' f args) := by
    rw [k.inner_inner]
    exact hc f args
  unfold Stream.invoke
  split
  case h_1 => exact .behind (a.two_unswayed _ _) fun (b, q) => configure_agrees hc _ b q
  case h_3 => exact .behind a.requireNone_unswayed fun _ => s.toContext_agrees inner
  case h_4 =>
    refine .behind a.requireNone_unswayed fun _ => s.toQuery_agrees inner ?_
    exact Margin.inner_ne_compiled (by simpa [Value.compilesBy] using quiet)
  case h_12 => exact s.invokeSearch_agrees hc _ a
  all_goals refine fluent ?_
  all_goals grind

theorem invoke_agrees (v : Value) {method : String}
    (quiet : k ≠ .compiled ∨ v.compilesBy method = false) (a : ArgList) :
    Agrees k.inner (invoke call v method a) (invoke call' v method a) := by
  unfold invoke
  refine .behind (v.property?_unswayed method) fun p => ?_
  split
  · exact .behind a.rest_unswayed fun args => hc _ args
  · unfold invokeMethod
    split
    case h_4 s => exact s.invoke_agrees hc quiet a
    case h_8 =>
      refine Unswayed.agrees ?_
      split <;> grind
    all_goals exact Unswayed.agrees (by grind)

end Calls

/-! ### Evaluation -/

section Evaluation

variable {eval eval' : Eval} (he : ∀ scope e, Agrees k.inner (eval scope e) (eval' scope e))

include he

theorem callClosure_agrees (f : Value) (args : List Value) :
    Agrees k.inner (callClosure eval f args) (callClosure eval' f args) := by
  unfold callClosure
  split
  · split
    · exact he _ _
    · exact .fail _
  · exact .fail _

theorem callAny_agrees (f : Value) (args : List Value) :
    Agrees k.inner (callAny eval f args) (callAny eval' f args) := by
  unfold callAny
  split
  · exact Configurer.run_agrees (callClosure_agrees he) _ _ _
  · exact callClosure_agrees he _ _

theorem evalAll_agrees (scope : Scope) (es : List Expr) :
    Agrees k.inner (evalAll eval scope es) (evalAll eval' scope es) := by
  induction es with
  | nil => exact .pure _
  | cons e es ih => exact (he _ _).bind fun v => ih.before fun _ => .pure _

theorem evalFields_agrees (scope : Scope) (es : List (String × Expr)) :
    Agrees k.inner (evalFields eval scope es) (evalFields eval' scope es) := by
  induction es with
  | nil => exact .pure _
  | cons e es ih => exact (he _ _).bind fun v => ih.before fun _ => .pure _

theorem evalArguments_agrees (scope : Scope) (a : Arguments) :
    Agrees k.inner (evalArguments eval scope a) (evalArguments eval' scope a) :=
  (evalAll_agrees he _ _).bind fun _ => (evalFields_agrees he _ _).before fun _ => .pure _

/-- One level of evaluation of what neither asks for the depth of the stack nor calls a method. -/
theorem evalStep_agrees_of (scope : Scope) {e : Expr} (asks : e ≠ .depth)
    (calls : ∀ v method args, e ≠ .call v method args) :
    Agrees k.inner (evalStep eval scope e) (evalStep eval' scope e) := by
  have all := evalAll_agrees he scope
  have arguments := evalArguments_agrees he scope
  cases e with
  | depth => exact absurd rfl asks
  | call v method args => exact absurd rfl (calls v method args)
  | «variable» name =>
    refine Unswayed.agrees ?_
    unfold evalStep readVariable
    dsimp only
    split
    · exact .pure _
    · refine .reading (fun _ _ => rfl) fun m => ?_
      split <;> grind
  | apply f args => exact (he _ _).bind fun g => (all _).bind fun vs => callAny_agrees he g vs
  | attempt e =>
    refine .before (((he _ _).before fun v => .pure _).tryCatch fun err => ?_) fun r => ?_
    · exact (note_unswayed _).bind fun _ => .pure _
    · cases r <;> exact .pure _
  | isInstance e name =>
    exact (he _ _).before fun v => .reading (fun _ _ => rfl) fun m => .pure _
  | within builder query name body =>
    refine (he _ _).bind fun b => (he _ _).bind fun q => withFrame_agrees _ _ fun f => ?_
    rw [k.inner_inner]
    exact he _ _
  | thread body => exact onStack_agrees (he _ _) (Margin.stacks_nil _) fun c d => .rfl
  | task body =>
    intro m m' h
    change (exec (get >>= _) m').1 = (exec (get >>= _) m).1 ∧
      Abreast k.inner (after (get >>= _) m) (after (get >>= _) m')
    rw [after, after, exec_bind_of_ok (exec_get m), exec_bind_of_ok (exec_get m')]
    exact onStack_agrees (he _ _) h.frames (fun c d => .rfl) m m' h
  | assign name e | trace e | get e name | shown e | not e | among e vs | sorted d e =>
    exact (he _ _).before fun v => by grind
  | identical a b | equal a b | sameHash a b | arithmetic op a b | compare op a b | like a b
  | set a name b => exact (he _ _).bind fun v => (he _ _).before fun w => by grind
  | list es | tuple es | block es | connect op es | sqlFunction name es =>
    exact (all _).before fun vs => by grind
  | construct c args | compose args | transform args | resolveAttribute args =>
    exact (arguments _).before fun a => by grind
  | literal d => exact (Value.written_unswayed d).agrees
  | _ => exact Unswayed.agrees (by grind [evalStep])

end Evaluation

end FluentQuery
