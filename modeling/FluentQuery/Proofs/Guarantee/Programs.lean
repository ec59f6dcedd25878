import FluentQuery.Proofs.Guarantee.Building

/-! What programs guarantee: sending queries, operations on values, calls of the library
by name, and with these the evaluation of every expression. -/

namespace FluentQuery

open Sql

variable {R : Machine → Machine → Prop}

/-! ### Plain data -/

section PlainData

variable [Inert R]

mutual

theorem Value.ofDatum_keeps : ∀ d : Datum, Keeps R (Value.ofDatum d)
  | .null | .bool _ | .int _ | .float _ | .text _ => .pure _
  | .list items => (ofData_keeps items).bind fun vs => newList_keeps vs
  | .mapping fields => (ofFields_keeps fields).bind fun vs => newMapping_keeps vs

theorem Value.ofData_keeps : ∀ ds : List Datum, Keeps R (Value.ofDatum.ofData ds)
  | [] => .pure []
  | d :: ds => (Value.ofDatum_keeps d).bind fun _ => (Value.ofData_keeps ds).bind fun _ => .pure _

theorem Value.ofFields_keeps :
    ∀ fields : List (String × Datum), Keeps R (Value.ofDatum.ofFields fields)
  | [] => .pure []
  | (_, d) :: rest =>
    (Value.ofDatum_keeps d).bind fun _ => (Value.ofFields_keeps rest).bind fun _ => .pure _

end

attribute [grind ←] Value.ofDatum_keeps

@[grind ←] theorem Value.written_keeps (d : Datum) : Keeps R (Value.written d) := by
  unfold Value.written
  split <;> grind

end PlainData

/-! ### Sending queries -/

section Sending

variable [Creating R]

@[grind ←] theorem requireSession_keeps (v : Value) : Keeps R (requireSession v) := by
  unfold requireSession
  split <;> grind

@[grind ←] theorem sendTo_keeps (session : Session) (s : Statement) (options : MappingId) :
    Keeps R (sendTo session s options) := by
  unfold sendTo
  refine .bind .get fun m => (orExternal_keeps _).bind fun d => ?_
  refine (orExternal_keeps _).bind fun fields => (Creating.note _).bind fun _ => ?_
  split <;> grind

@[grind ←] theorem isSingle_keeps (s : Statement) : Keeps R (isSingle s) := by
  unfold isSingle
  split <;> grind

@[grind ←] theorem element_keeps (single : Bool) (row : List Datum) :
    Keeps R (element single row) := by
  unfold element
  split <;> grind

namespace QueryId

@[grind ←] theorem found_keeps (q : QueryId) (x : Executable) (s : Statement) :
    Keeps R (q.found sendTo x s) := by
  unfold found
  refine (logLine_keeps (by grind)).bind fun _ => (requireSession_keeps _).bind fun session => ?_
  refine (sendTo_keeps _ _ _).bind fun answer => (isSingle_keeps s).bind fun single => ?_
  split <;> grind

@[grind ←] theorem typed_keeps (q : QueryId) : Keeps R q.typed := by
  unfold typed
  refine q.read_keeps.bind fun x => ?_
  split <;> grind

@[grind ←] theorem currentStatement_keeps (x : Executable) : Keeps R (currentStatement x) := by
  grind [currentStatement]

@[grind ←] theorem fetch_keeps (q : QueryId) : Keeps R (q.fetch sendTo) := by
  unfold fetch
  refine q.typed_keeps.bind fun x => (currentStatement_keeps x).bind fun s => ?_
  refine (q.found_keeps x s).bind fun (single, rows) => ?_
  grind

@[grind ←] theorem first_keeps (q : QueryId) : Keeps R (q.first sendTo) := by
  unfold first
  refine q.typed_keeps.bind fun x => ?_
  split
  · exact .pure _
  · refine (currentStatement_keeps x).bind fun s => ?_
    split
    · refine .bind .get fun m => (q.found_keeps _ _).bind fun found => ?_
      split <;> grind
    · exact .fail _

@[grind ←] theorem one_keeps (q : QueryId) : Keeps R (q.one sendTo) := by
  unfold QueryId.one
  refine q.typed_keeps.bind fun x => (currentStatement_keeps x).bind fun s => ?_
  refine (q.found_keeps x s).bind fun found => ?_
  split <;> grind

@[grind ←] theorem restriction_keeps (x : Executable) : Keeps R (restriction x) := by
  unfold restriction
  split <;> grind

@[grind ←] theorem execute_keeps (q : QueryId) : Keeps R q.execute := by
  unfold execute
  refine q.read_keeps.bind fun x => ?_
  split
  · refine .guarded ((restriction_keeps x).bind fun r => .bind .get fun m => ?_)
    refine .ite ((shownNow_keeps _).bind fun t => .fail_bind _ _) ?_
    refine (logLine_keeps (by grind)).bind fun _ => (requireSession_keeps _).bind fun s => ?_
    refine (currentStatement_keeps x).bind fun t => (sendTo_keeps _ _ _).bind fun answer => ?_
    split <;> grind
  · exact .fail _

@[grind ←] theorem setBound_keeps (q : QueryId) (b : Bounding) (v : Value) :
    Keeps R (q.setBound b v) := by
  unfold setBound
  exact q.read_keeps.bind fun x => (requireBound_keeps b v).bind fun y => Creating.writeQuery q _

@[grind ←] theorem ofParts_keeps (kind : QueryKind) (session query params options : Value) :
    Keeps R (ofParts kind session query params options) := by
  unfold ofParts
  refine .guarded (.guarded ?_)
  grind

end QueryId

end Sending

/-! ### Operations -/

section Operations

variable [Inert R]

namespace Operation

@[grind ←] theorem repeatPlain_keeps (n : Int) (v : Value) : Keeps R (repeatPlain n v) := by
  unfold repeatPlain
  split <;> grind

@[grind ←] theorem joinPlain_keeps (v w : Value) : Keeps R (joinPlain v w) := by
  unfold joinPlain
  split <;> grind

@[grind ←] theorem plainArithmetic_keeps (op : Arithmetic) (a b : Value) :
    Keeps R (plainArithmetic op a b) := by
  unfold plainArithmetic
  split
  · grind
  · split
    · grind
    · split <;> grind

@[grind ←] theorem arithmetic_keeps (op : Arithmetic) (a b : Value) :
    Keeps R (arithmetic op a b) := by
  unfold arithmetic
  rcases h : Expression.arithmetic? op a b with _ | x
  · exact plainArithmetic_keeps op a b
  · exact Expression.arithmetic?_keeps op a b h

theorem agree_keeps {equal : Value → Value → Run Bool} (he : ∀ v w, Keeps R (equal v w))
    (xs ys : List Value) : Keeps R (agree equal xs ys) := by
  fun_induction agree equal xs ys <;> grind

theorem fieldsAgree_keeps {equal : Value → Value → Run Bool} (he : ∀ v w, Keeps R (equal v w))
    (other fields : List (String × Value)) : Keeps R (fieldsAgree equal other fields) := by
  fun_induction fieldsAgree equal other fields <;> grind

theorem equalTo_keeps (depth : Nat) (a b : Value) : Keeps R (equalTo depth a b) := by
  induction depth generalizing a b with
  | zero => exact .fail _
  | succ depth ih =>
    unfold equalTo
    rcases h : Expression.compare? .eq a b with _ | equation
    · dsimp only
      split
      · exact .pure _
      · exact agree_keeps ih _ _
      · split
        · exact agree_keeps ih _ _
        · refine (MappingId.read_keeps _).bind fun fields => (MappingId.read_keeps _).bind fun others => ?_
          split
          · exact .pure _
          · exact fieldsAgree_keeps ih _ _
        · exact .pure _
        · exact .pure _
        · exact agree_keeps ih _ _
        · exact .pure _
    · exact (Expression.compare?_keeps _ a b h).bind fun v => truth_keeps v

@[grind ←] theorem equal_keeps (a b : Value) : Keeps R (equal a b) := equalTo_keeps 1000 a b

theorem orderItems_keeps (op : Comparison) {order : Value → Value → Run Bool}
    (ho : ∀ v w, Keeps R (order v w)) (xs ys : List Value) :
    Keeps R (orderItems op order xs ys) := by
  fun_induction orderItems op order xs ys <;> grind

theorem orderTo_keeps (op : Comparison) (depth : Nat) (a b : Value) :
    Keeps R (orderTo op depth a b) := by
  induction depth generalizing a b with
  | zero => exact .fail _
  | succ depth ih =>
    unfold orderTo
    split
    · exact .pure _
    · exact .pure _
    · exact orderItems_keeps op ih _ _
    · split
      · exact .pure _
      · exact orderItems_keeps op ih _ _
      · exact .fail _

@[grind ←] theorem compare_keeps (op : Comparison) (a b : Value) :
    Keeps R (Operation.compare op a b) := by
  have plain : Keeps R (plainComparison op a b) := by
    have order := orderTo_keeps (R := R) op 1000 a b
    unfold plainComparison
    split <;> grind
  unfold Operation.compare
  rcases h : Expression.compare? op a b with _ | x
  · exact plain
  · exact Expression.compare?_keeps op a b h

@[grind ←] theorem sameHash_keeps (a b : Value) : Keeps R (sameHash a b) := by
  grind [sameHash]

end Operation

/-! ### Calls by name -/

namespace ArgList

@[grind ←] theorem bind_keeps (a : ArgList) (s : Signature) : Keeps R (a.bind s) := by
  grind [ArgList.bind]

@[grind ←] theorem exactly_keeps (a : ArgList) (names : List String) :
    Keeps R (a.exactly names) := by
  grind [exactly]

@[grind ←] theorem requireNone_keeps (a : ArgList) : Keeps R a.requireNone := by
  grind [requireNone]

@[grind ←] theorem one_keeps (a : ArgList) (name : String) : Keeps R (a.one name) := by
  unfold ArgList.one
  refine (a.exactly_keeps _).bind fun vs => ?_
  split <;> grind

@[grind ←] theorem two_keeps (a : ArgList) (first second : String) :
    Keeps R (a.two first second) := by
  unfold two
  refine (a.exactly_keeps _).bind fun vs => ?_
  split <;> grind

@[grind ←] theorem rest_keeps (a : ArgList) : Keeps R a.rest := by
  grind [rest]

@[grind ←] theorem fields_keeps (a : ArgList) : Keeps R a.fields := by
  grind [fields]

@[grind ←] theorem ownFields_keeps (a : ArgList) : Keeps R a.ownFields := by
  grind [ownFields]

end ArgList

end Operations

section Creating

variable [Creating R]

@[grind ←] theorem RefId.invoke_keeps (r : RefId) (method : String) (a : ArgList) :
    Keeps R (r.invoke method a) := by
  unfold RefId.invoke
  split <;> grind

theorem newContext_keeps {k : ContextKind} (hk : Context.Blank (.ofKind k)) :
    Keeps R (newContext k) :=
  (Creating.newContext hk).bind fun _ => .pure _

theorem newBulk_keeps {kind : Value → ContextKind} (hk : ∀ v, Context.Blank (.ofKind (kind v)))
    (entity : Value) : Keeps R (newBulk kind entity) := by
  unfold newBulk
  exact .guarded (newContext_keeps (hk entity))

@[grind ←] theorem invokeBuilder_keeps (method : String) (a : ArgList) :
    Keeps R (invokeBuilder method a) := by
  unfold invokeBuilder
  split <;> try grind
  · exact a.requireNone_keeps.bind fun _ => newContext_keeps .query
  · exact (a.one_keeps _).bind fun v => newBulk_keeps .delete v
  · exact (a.one_keeps _).bind fun v => newBulk_keeps .update v

@[grind ←] theorem QueryId.invoke_keeps (q : QueryId) (method : String) (a : ArgList) :
    Keeps R (q.invoke method a) := by
  unfold QueryId.invoke
  split <;> grind

@[grind ←] theorem invokeQueryBuilder_keeps (session : Value) (method : String) (a : ArgList) :
    Keeps R (invokeQueryBuilder session method a) := by
  unfold invokeQueryBuilder
  split <;> grind

@[grind ←] theorem MappingId.merge_keeps (i : MappingId) (given : List Value)
    (keyword : List (String × Value)) : Keeps R (i.merge given keyword) := by
  have add (x : String × Value) : Keeps R (do register x.2; i.update [x]) :=
    (register_keeps _).bind fun _ => Creating.updateMapping i _
  have rest : Keeps R (keyword.forM fun x => do register x.2; i.update [x]) := .forM add _
  unfold merge
  dsimp only
  split
  · exact rest
  · exact (MappingId.read_keeps _).bind fun fields => .bind (.forM add _) fun _ => rest
  · refine (itemsOf_keeps _).bind fun items => .bind (.forM (fun item => ?_) _) fun _ => rest
    exact (fieldOf_keeps item).bind add
  · exact .fail_bind _ _

/-! ### Constructors -/

@[grind ←] theorem newStream_keeps (kind : StreamKind) (a : ArgList) :
    Keeps R (newStream kind a) := by
  unfold newStream
  refine (a.bind_keeps _).bind fun vs => ?_
  split <;> grind

@[grind ←] theorem newQuery_keeps (kind : QueryKind) (a : ArgList) : Keeps R (newQuery kind a) := by
  unfold newQuery
  refine (a.bind_keeps _).bind fun vs => ?_
  split <;> grind

@[grind ←] theorem newQueryType_keeps (purpose : Purpose) (a : ArgList) :
    Keeps R (newQueryType purpose a) := by
  grind [newQueryType]

@[grind ←] theorem construct_keeps (className : String) (a : ArgList) :
    Keeps R (construct className a) := by
  unfold construct
  split <;> try grind
  · exact a.requireNone_keeps.bind fun _ => newContext_keeps .common
  · exact a.requireNone_keeps.bind fun _ => newContext_keeps .abstract
  · exact a.requireNone_keeps.bind fun _ => newContext_keeps .query
  · exact (a.one_keeps _).bind fun v => .guarded (newContext_keeps (.subquery v))
  · exact (a.one_keeps _).bind fun v => newBulk_keeps .delete v
  · exact (a.one_keeps _).bind fun v => newBulk_keeps .update v

@[grind ←] theorem extendConfigurer_keeps (what : String) (step : Value → Step) (a : ArgList) :
    Keeps R (extendConfigurer what step a) := by
  unfold extendConfigurer Configurer.extend
  refine (a.two_keeps _ _).bind fun (prev, extra) => .guarded (.guarded ?_)
  refine .bind Inert.fresh fun id => ?_
  split <;> grind

@[grind ←] theorem resolve_keeps (a : ArgList) : Keeps R (resolve a) := by
  grind [resolve]

@[grind ←] theorem setProperty_keeps (v : Value) (name : String) (x : Value) :
    Keeps R (setProperty v name x) := by
  unfold setProperty
  split <;> grind

end Creating

/-! ### Methods -/

variable [Guarantee R]

theorem ContextId.changed_keeps (c : ContextId) {f : Context → Except Error Context}
    (hf : Context.Change f) (v : Value) : Keeps R (do c.update f; return v) :=
  (Guarantee.change c hf).bind fun _ => .pure v

@[grind ←] theorem ContextId.invoke_keeps (c : ContextId) (method : String) (a : ArgList) :
    Keeps R (c.invoke method a) := by
  unfold ContextId.invoke
  refine c.read_keeps.bind fun x => ?_
  split
  · exact (a.one_keeps _).bind fun v => c.changed_keeps (.restrict v) _
  · exact a.requireNone_keeps.bind fun _ => newContext_keeps (.subquery _)
  · split
    · exact .fail_bind _ _
    · exact (a.one_keeps _).bind fun v => c.addRoot_keeps v
  · exact (a.two_keeps _ _).bind fun v => (c.assign_keeps _ _).bind fun _ => .pure _
  · exact (a.one_keeps _).bind fun root => c.changed_keeps (.correlate root) _
  · exact a.requireNone_keeps.bind fun _ => c.scalar_keeps
  · exact a.requireNone_keeps.bind fun _ => c.existence_keeps
  · refine .guarded ((a.one_keeps _).bind fun v => (itemsOf_keeps v).bind fun items => ?_)
    exact c.changed_keeps (.orderBy items) _
  · refine .guarded ?_
    split
    · refine (a.bind_keeps _).bind fun vs => ?_
      split
      · exact c.join_keeps _ _ _
      · exact .fail _
    · exact (a.one_keeps _).bind fun v => (itemsOf_keeps v).bind fun items =>
        c.changed_keeps (.groupBy items) _
    · exact (a.one_keeps _).bind fun v => c.changed_keeps (.having v) _
    · refine (a.bind_keeps _).bind fun vs => ?_
      split
      · exact c.changed_keeps (.distinct _) _
      · exact .fail _
    · exact (a.one_keeps _).bind fun v => c.changed_keeps (.select v) _
    · exact .fail _

@[grind ←] theorem QueryType.invoke_keeps (t : QueryType) (method : String) (a : ArgList) :
    Keeps R (t.invoke method a) := by
  unfold QueryType.invoke
  split <;> grind

section Methods

variable {call : Call} (hc : ∀ f args, Keeps R (call f args))

include hc

@[grind ←] theorem Stream.invokeSearch_keeps (s : Stream) (method : String) (a : ArgList) :
    Keeps R (s.invokeSearch call method a) := by
  unfold Stream.invokeSearch
  split <;> grind

@[grind ←] theorem Stream.invoke_keeps (s : Stream) (method : String) (a : ArgList) :
    Keeps R (s.invoke call method a) := by
  unfold Stream.invoke
  split <;> grind

@[grind ←] theorem invokeMethod_keeps (v : Value) (method : String) (a : ArgList) :
    Keeps R (invokeMethod call v method a) := by
  unfold invokeMethod
  split <;> grind

@[grind ←] theorem invoke_keeps (v : Value) (name : String) (a : ArgList) :
    Keeps R (invoke call v name a) := by
  unfold invoke
  refine (v.property?_keeps name).bind fun p => ?_
  split <;> grind

end Methods

/-! ### Evaluation -/

section Evaluation

variable {eval : Eval} (he : ∀ scope e, Keeps R (eval scope e))

include he

omit [Guarantee R] in
@[grind ←] theorem callClosure_keeps [Inert R] (f : Value) (args : List Value) :
    Keeps R (callClosure eval f args) := by
  unfold callClosure
  split <;> grind

@[grind ←] theorem callAny_keeps (f : Value) (args : List Value) :
    Keeps R (callAny eval f args) := by
  unfold callAny
  split
  · exact Configurer.run_keeps (callClosure_keeps he) _ _ _
  · exact callClosure_keeps he _ _

omit [Guarantee R] in
@[grind ←] theorem evalAll_keeps [Inert R] (scope : Scope) (es : List Expr) :
    Keeps R (evalAll eval scope es) := by
  induction es with
  | nil => exact .pure []
  | cons e es ih => exact (he _ _).bind fun _ => ih.bind fun _ => .pure _

omit [Guarantee R] in
@[grind ←] theorem evalFields_keeps [Inert R] (scope : Scope) (es : List (String × Expr)) :
    Keeps R (evalFields eval scope es) := by
  induction es with
  | nil => exact .pure []
  | cons e es ih => exact (he _ _).bind fun _ => ih.bind fun _ => .pure _

omit [Guarantee R] in
@[grind ←] theorem evalArguments_keeps [Inert R] (scope : Scope) (a : Arguments) :
    Keeps R (evalArguments eval scope a) :=
  (evalAll_keeps he _ _).bind fun _ => (evalFields_keeps he _ _).bind fun _ => .pure _

omit [Guarantee R] in
/-- One level of evaluation of what calls no method and applies no function. -/
theorem evalStep_keeps_of [Creating R] (scope : Scope) {e : Expr}
    (applies : ∀ f args, e ≠ .apply f args) (calls : ∀ v method args, e ≠ .call v method args) :
    Keeps R (evalStep eval scope e) := by
  cases e with
  | apply f args => exact absurd rfl (applies f args)
  | call v method args => exact absurd rfl (calls v method args)
  | «variable» name =>
    unfold evalStep readVariable
    dsimp only
    split
    · exact .pure _
    · refine .bind .get fun m => ?_
      split <;> grind
  | attempt e =>
    refine .bind (.tryCatch ((he _ _).bind fun v => .pure _) fun err => ?_) fun r => ?_
    · exact (Creating.note _).bind fun _ => .pure _
    · cases r <;> exact .pure _
  | within builder query name body =>
    exact (he _ _).bind fun b => (he _ _).bind fun q => withFrame_keeps _ _ fun f => he _ _
  | thread body => exact Creating.onStack _ (he _ _)
  | task body => exact .bind .get fun m => Creating.onStack _ (he _ _)
  | _ => grind [evalStep]

/-- One level of evaluation guarantees what the evaluation of nested expressions does. -/
theorem evalStep_keeps (scope : Scope) (e : Expr) : Keeps R (evalStep eval scope e) := by
  have hc := callAny_keeps (R := R) he
  cases e with
  | apply f args => exact (he _ _).bind fun g => (evalAll_keeps he _ _).bind fun vs => hc g vs
  | call v method args =>
    exact (he _ _).bind fun v => (evalArguments_keeps he _ _).bind fun a => invoke_keeps hc v _ a
  | _ => exact evalStep_keeps_of he scope (by simp) (by simp)

end Evaluation

/-- Whatever every elementary step guarantees, the evaluation of every expression does. -/
theorem eval_keeps (depth : Nat) (scope : Scope) (e : Expr) : Keeps R (eval depth scope e) := by
  induction depth generalizing scope e with
  | zero => exact .fail _
  | succ depth ih => exact evalStep_keeps ih scope e

/-- So does calling any function of a program. -/
theorem callAny_eval_keeps (depth : Nat) (f : Value) (args : List Value) :
    Keeps R (callAny (eval depth) f args) :=
  callAny_keeps (eval_keeps depth) f args

end FluentQuery
