import FluentQuery.Proofs.Lockstep.Steps

/-! The library in lockstep: reading values, building expressions and operations on query contexts are
swayed neither by the stack nor by the settings; what is done inside a frame of its own is swayed by
no more than its body is. -/

namespace FluentQuery

open Sql

variable {k : Margin}

/-! ### Texts and properties -/

namespace Machine

variable (m o : Machine)

theorem shownTo_amid (outer : List Value) (depth : Nat) (v : Value) :
    v.shownTo (m.amid o) outer depth = v.shownTo m outer depth := by
  induction depth generalizing outer v with
  | zero => rfl
  | succ depth ih =>
    have inner : Value.shownTo (m.amid o) (v :: outer) depth = Value.shownTo m (v :: outer) depth :=
      funext (ih _)
    unfold Value.shownTo
    rw [inner]
    rfl

theorem shown?_amid (v : Value) : v.shown? (m.amid o) = v.shown? m :=
  m.shownTo_amid o [] 1000 v

theorem statementTo_amid (next depth : Nat) (q : Executable) :
    q.statementTo (m.amid o) next depth = q.statementTo m next depth := by
  induction depth generalizing q with
  | zero => rfl
  | succ depth ih =>
    have inner : Executable.statementTo (m.amid o) next depth = Executable.statementTo m next depth :=
      funext ih
    unfold Executable.statementTo
    rw [inner]
    rfl

theorem statement_amid (next : Nat) (q : Executable) :
    q.statement (m.amid o) next = q.statement m next :=
  m.statementTo_amid o next 1000 q

theorem ofQuery_amid (describe : Value → Option Description) (shown : String) (q : Executable) :
    Description.ofQuery (m.amid o) describe shown q = Description.ofQuery m describe shown q := by
  unfold Description.ofQuery
  rw [show q.statement (m.amid o) (m.amid o).next = q.statement m m.next from
    m.statement_amid o m.next q]
  rfl

theorem describeTo_amid (depth : Nat) (v : Value) :
    v.describeTo (m.amid o) depth = v.describeTo m depth := by
  induction depth generalizing v with
  | zero => rfl
  | succ depth ih =>
    have inner : Value.describeTo (m.amid o) depth = Value.describeTo m depth := funext ih
    unfold Value.describeTo
    rw [inner]
    simp only [m.shown?_amid o, m.ofQuery_amid o]
    rfl

theorem describe?_amid (v : Value) : v.describe? (m.amid o) = v.describe? m :=
  m.describeTo_amid o 1000 v

end Machine

@[grind ←] theorem shownNow_unswayed (v : Value) : Unswayed k (shownNow v) :=
  .reading (fun m o => by rw [m.shown?_amid o]) fun _ => orExternal_unswayed _

@[grind ←] theorem plainNow_unswayed (v : Value) : Unswayed k v.plainNow :=
  .reading (fun m o => by simp only [m.shown?_amid o]) fun _ => .pure _

@[grind ←] theorem classNow_unswayed (v : Value) : Unswayed k (classNow v) :=
  .reading (fun _ _ => rfl) fun _ => .pure _

@[grind ←] theorem describeNow_unswayed (v : Value) : Unswayed k (describeNow v) :=
  .reading (fun m o => by rw [m.describe?_amid o]) fun _ => orExternal_unswayed _

namespace Frame

@[grind ←] theorem subquery_unswayed (f : Frame) : Unswayed k f.subquery := by
  unfold subquery
  split <;> grind

@[grind ←] theorem isSubquery_unswayed (f : Frame) : Unswayed k f.isSubquery := by
  unfold isSubquery
  split <;> grind

end Frame

@[grind ←] theorem currentSubquery_unswayed : Unswayed k.inner currentSubquery := by
  grind [currentSubquery]

@[grind ←] theorem Context.property?_unswayed (c : Context) (name : String) :
    Unswayed k (c.property? name) := by
  unfold Context.property?
  split <;> try grind
  exact .ite (.reading (fun _ _ => rfl) fun m => by grind) (.pure _)

@[grind ←] theorem Stream.property?_unswayed (s : Stream) (name : String) :
    Unswayed k (s.property? name) := by
  unfold Stream.property?
  split <;> grind

@[grind ←] theorem Executable.statementValue_unswayed (q : Executable) :
    Unswayed k q.statementValue := by
  refine fresh_unswayed.bind fun next => (discard_unswayed fresh_unswayed).bind fun _ => ?_
  exact .reading (fun m o => by rw [m.statement_amid o]) fun m => by grind

@[grind ←] theorem Executable.property?_unswayed (q : Executable) (name : String) :
    Unswayed k (q.property? name) := by
  unfold Executable.property?
  split <;> grind

@[grind ←] theorem Value.property?_unswayed (v : Value) (name : String) :
    Unswayed k (v.property? name) := by
  unfold Value.property?
  split <;> (try split) <;> grind

@[grind ←] theorem resolveAttribute_unswayed (selection key : Value) :
    Unswayed k (resolveAttribute selection key) := by
  unfold resolveAttribute
  refine .guarded ?_
  split
  · grind
  · refine (Value.property?_unswayed _ _).bind fun v => ?_
    split <;> grind

@[grind ←] theorem resolveRelationship_unswayed (owner key : Value) :
    Unswayed k (resolveRelationship owner key) := by
  unfold resolveRelationship
  refine (resolveAttribute_unswayed _ _).bind fun v => ?_
  split <;> grind

@[grind ←] theorem asContext_unswayed (v : Value) : Unswayed k v.asContext := by
  unfold Value.asContext
  split <;> grind

@[grind ←] theorem requireBuilder_unswayed (v : Value) : Unswayed k v.requireBuilder := by
  unfold Value.requireBuilder
  split <;> grind

/-! ### Expressions -/

@[grind ←] theorem literal_unswayed (v : Value) : Unswayed k v.literal := by
  grind [Value.literal]

@[grind ←] theorem operandBeside_unswayed (other : Term) (v : Value) :
    Unswayed k (v.operandBeside other) := by
  unfold Value.operandBeside
  split <;> grind

@[grind ←] theorem operandNamed_unswayed (base : String) (v : Value) :
    Unswayed k (v.operandNamed base) := by
  unfold Value.operandNamed
  split <;> grind

namespace Expression

theorem arithmetic?_unswayed (op : Arithmetic) (a b : Value) {x : Run Value}
    (h : arithmetic? op a b = some x) : Unswayed k x := by
  unfold arithmetic? at h
  split at h <;> grind

@[grind ←] theorem compareRelationship_unswayed (op : Comparison) (owner : Mapped) (r : Relationship)
    (b : Value) : Unswayed k (compareRelationship op owner r b) := by
  unfold compareRelationship
  split <;> grind

@[grind ←] theorem compareWith_unswayed (op : Comparison) (a : Value) (l : Term) (b : Value) :
    Unswayed k (compareWith op a l b) := by
  unfold compareWith
  split <;> grind

@[grind ←] theorem asCompared_unswayed (v : Value) : Unswayed k (asCompared v) := by
  unfold asCompared
  split <;> grind

theorem compare?_unswayed (op : Comparison) (a b : Value) {x : Run Value}
    (h : compare? op a b = some x) : Unswayed k x := by
  unfold compare? at h
  split at h <;> grind

@[grind ←] theorem connect_unswayed (op : Connective) (vs : List Value) :
    Unswayed k (connect op vs) := by
  grind [connect]

@[grind ←] theorem not_unswayed (v : Value) : Unswayed k (Expression.not v) := by
  grind [Expression.not]

@[grind ←] theorem sorted_unswayed (d : Direction) (v : Value) : Unswayed k (sorted d v) := by
  grind [sorted]

@[grind ←] theorem subject_unswayed (v : Value) : Unswayed k (subject v) := by
  grind [subject]

@[grind ←] theorem among_unswayed (v : Value) (values : List Datum) : Unswayed k (among v values) := by
  grind [among]

@[grind ←] theorem like_unswayed (v pattern : Value) : Unswayed k (like v pattern) := by
  grind [like]

@[grind ←] theorem operands_unswayed (base : String) (vs : List Value) :
    Unswayed k (operands base vs) := by
  induction vs with
  | nil => exact .pure []
  | cons v vs ih => grind [operands]

@[grind ←] theorem castType_unswayed (v : Value) : Unswayed k (castType v) := by
  unfold castType
  split <;> grind

@[grind ←] theorem cast_unswayed (v type : Value) : Unswayed k (cast v type) := by
  grind [cast]

@[grind ←] theorem extract_unswayed (field v : Value) : Unswayed k (extract field v) := by
  unfold extract
  refine (operandNamed_unswayed _ _).bind fun x => ?_
  split <;> grind

@[grind ←] theorem call_unswayed (asked : String) (args : List Value) :
    Unswayed k (call asked args) := by
  unfold call
  refine (orExternal_unswayed _).bind fun name => ?_
  split <;> grind

@[grind ←] theorem countDistinct_unswayed (v : Value) : Unswayed k (countDistinct v) := by
  grind [countDistinct]

@[grind ←] theorem parameter_unswayed (name : String) : Unswayed k (parameter name) := by
  grind [parameter]

end Expression

/-! ### Query contexts and frames -/

namespace ContextId

@[grind ←] theorem addRoot_unswayed (c : ContextId) (entity : Value) :
    Unswayed k (c.addRoot entity) := by
  unfold addRoot
  refine c.read_unswayed.bind fun x => ?_
  split <;> grind

theorem joinUnmapped_unswayed (c : ContextId) (r : Relationship) (outer : Value) :
    Unswayed k (c.joinUnmapped r outer) := by
  unfold joinUnmapped
  refine .reading (fun _ _ => rfl) fun m => ?_
  split
  · exact .fail _
  · exact .fail _
  · exact .fail _
  · exact (discard_unswayed (c.addRoot_unswayed _)).bind fun _ => .fail _

@[grind ←] theorem join_unswayed (c : ContextId) (owner key outer : Value) :
    Unswayed k (c.join owner key outer) := by
  unfold join
  refine c.read_unswayed.bind fun x => .guarded ?_
  refine (resolveRelationship_unswayed _ _).bind fun (m, r) => ?_
  refine .ite (c.joinUnmapped_unswayed r outer) (fresh_unswayed.bind fun id => ?_)
  exact .reading (fun _ _ => rfl) fun _ => updateGet_unswayed _ _

@[grind ←] theorem assign_unswayed (c : ContextId) (key v : Value) :
    Unswayed k (c.assign key v) := by
  unfold assign
  refine c.read_unswayed.bind fun x => ?_
  split
  · refine (resolveAttribute_unswayed _ _).bind fun a => ?_
    split <;> grind
  · exact .fail _

end ContextId

/-- Inside a frame the tops of the stacks are the same. -/
theorem withFrame_agrees {α : Type} (builder query : Value) {body body' : Frame → Run α}
    (hb : ∀ f, Agrees k.inner (body f) (body' f)) :
    Agrees k (withFrame builder query body) (withFrame builder query body') := by
  unfold withFrame
  refine .behind (classNow_unswayed _) fun name => ?_
  cases query with
  | context c =>
    refine .guarded (.behind fresh_unswayed fun id => ?_)
    intro m m' h
    rw [after, after, exec_bind_of_ok (exec_get m), exec_bind_of_ok (exec_get m')]
    refine ensuring_agrees ?_ (logLine_pure_agrees _ _) m m' h
    refine onStack_agrees (j := k.inner) ?_ (Margin.stacks_cons h.frames _) fun c d =>
      Margin.settings_inner.symm
    exact (logLine_pure_agrees _ _).bind fun _ => hb _
  | _ => exact .fail_bind _ _ _

end FluentQuery
