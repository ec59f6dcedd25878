import FluentQuery.Proofs.Guarantee.Steps

/-! What the library guarantees. Reading properties and building expressions upholds every
relation that making new values upholds; operations on query contexts and construction
frames uphold every relation that all elementary steps uphold. -/

namespace FluentQuery

open Sql

variable {R : Machine → Machine → Prop} [Inert R]

/-! ### Texts and properties -/

@[grind ←] theorem shownNow_keeps (v : Value) : Keeps R (shownNow v) := by
  grind [shownNow]

@[grind ←] theorem plainNow_keeps (v : Value) : Keeps R v.plainNow := by
  grind [Value.plainNow]

@[grind ←] theorem classNow_keeps (v : Value) : Keeps R (classNow v) := by
  grind [classNow]

@[grind ←] theorem describeNow_keeps (v : Value) : Keeps R (describeNow v) := by
  grind [describeNow]

namespace Frame

@[grind ←] theorem subquery_keeps (f : Frame) : Keeps R f.subquery := by
  unfold subquery
  split <;> grind

@[grind ←] theorem isSubquery_keeps (f : Frame) : Keeps R f.isSubquery := by
  unfold isSubquery
  split <;> grind

end Frame

@[grind ←] theorem currentSubquery_keeps : Keeps R currentSubquery := by
  grind [currentSubquery]

@[grind ←] theorem Context.property?_keeps (c : Context) (name : String) :
    Keeps R (c.property? name) := by
  unfold Context.property?
  split <;> grind

@[grind ←] theorem Stream.property?_keeps (s : Stream) (name : String) :
    Keeps R (s.property? name) := by
  unfold Stream.property?
  split <;> grind

@[grind ←] theorem Executable.statementValue_keeps (q : Executable) :
    Keeps R q.statementValue := by
  grind [statementValue]

@[grind ←] theorem Executable.property?_keeps (q : Executable) (name : String) :
    Keeps R (q.property? name) := by
  unfold Executable.property?
  split <;> grind

@[grind ←] theorem Value.property?_keeps (v : Value) (name : String) :
    Keeps R (v.property? name) := by
  unfold Value.property?
  split <;> (try split) <;> grind

@[grind ←] theorem resolveAttribute_keeps (selection key : Value) :
    Keeps R (resolveAttribute selection key) := by
  unfold resolveAttribute
  refine .guarded ?_
  split
  · grind
  · refine (Value.property?_keeps _ _).bind fun v => ?_
    split <;> grind

@[grind ←] theorem resolveRelationship_keeps (owner key : Value) :
    Keeps R (resolveRelationship owner key) := by
  unfold resolveRelationship
  refine (resolveAttribute_keeps _ _).bind fun v => ?_
  split <;> grind

@[grind ←] theorem asContext_keeps (v : Value) : Keeps R v.asContext := by
  unfold Value.asContext
  split <;> grind

@[grind ←] theorem requireBuilder_keeps (v : Value) : Keeps R v.requireBuilder := by
  unfold Value.requireBuilder
  split <;> grind

/-! ### Expressions -/

@[grind ←] theorem literal_keeps (v : Value) : Keeps R v.literal := by
  grind [Value.literal]

@[grind ←] theorem operandBeside_keeps (other : Term) (v : Value) :
    Keeps R (v.operandBeside other) := by
  unfold Value.operandBeside
  split <;> grind

@[grind ←] theorem operandNamed_keeps (base : String) (v : Value) :
    Keeps R (v.operandNamed base) := by
  unfold Value.operandNamed
  split <;> grind

namespace Expression

theorem arithmetic?_keeps (op : Arithmetic) (a b : Value) {x : Run Value}
    (h : arithmetic? op a b = some x) : Keeps R x := by
  unfold arithmetic? at h
  split at h <;> grind

@[grind ←] theorem compareRelationship_keeps (op : Comparison) (owner : Mapped) (r : Relationship)
    (b : Value) : Keeps R (compareRelationship op owner r b) := by
  unfold compareRelationship
  split <;> grind

@[grind ←] theorem compareWith_keeps (op : Comparison) (a : Value) (l : Term) (b : Value) :
    Keeps R (compareWith op a l b) := by
  unfold compareWith
  split <;> grind

@[grind ←] theorem asCompared_keeps (v : Value) : Keeps R (asCompared v) := by
  unfold asCompared
  split <;> grind

theorem compare?_keeps (op : Comparison) (a b : Value) {x : Run Value}
    (h : compare? op a b = some x) : Keeps R x := by
  unfold compare? at h
  split at h <;> grind

@[grind ←] theorem connect_keeps (op : Connective) (vs : List Value) :
    Keeps R (connect op vs) := by
  grind [connect]

@[grind ←] theorem not_keeps (v : Value) : Keeps R (Expression.not v) := by
  grind [Expression.not]

@[grind ←] theorem sorted_keeps (d : Direction) (v : Value) : Keeps R (sorted d v) := by
  grind [sorted]

@[grind ←] theorem subject_keeps (v : Value) : Keeps R (subject v) := by
  grind [subject]

@[grind ←] theorem among_keeps (v : Value) (values : List Datum) : Keeps R (among v values) := by
  grind [among]

@[grind ←] theorem like_keeps (v pattern : Value) : Keeps R (like v pattern) := by
  grind [like]

@[grind ←] theorem operands_keeps (base : String) (vs : List Value) :
    Keeps R (operands base vs) := by
  induction vs with
  | nil => exact .pure []
  | cons v vs ih => grind [operands]

@[grind ←] theorem castType_keeps (v : Value) : Keeps R (castType v) := by
  unfold castType
  split <;> grind

@[grind ←] theorem cast_keeps (v type : Value) : Keeps R (cast v type) := by
  grind [cast]

@[grind ←] theorem extract_keeps (field v : Value) : Keeps R (extract field v) := by
  unfold extract
  refine (operandNamed_keeps _ _).bind fun x => ?_
  split <;> grind

@[grind ←] theorem call_keeps (asked : String) (args : List Value) :
    Keeps R (call asked args) := by
  unfold call
  refine (orExternal_keeps _).bind fun name => ?_
  split <;> grind

@[grind ←] theorem countDistinct_keeps (v : Value) : Keeps R (countDistinct v) := by
  grind [countDistinct]

@[grind ←] theorem parameter_keeps (name : String) : Keeps R (parameter name) := by
  grind [parameter]

end Expression

/-! ### Query contexts and frames -/

namespace KeepsTold

variable {R : Machine → Machine → Prop} [Inert R] {c : ContextId} (h : KeepsTold R c)

include h

theorem addRoot_keeps (entity : Value) : Keeps R (c.addRoot entity) := by
  unfold ContextId.addRoot
  refine c.read_keeps.bind fun x => ?_
  split
  · grind
  · exact h.growRoot entity

theorem joinUnmapped_keeps (r : Relationship) (outer : Value) :
    Keeps R (c.joinUnmapped r outer) := by
  unfold ContextId.joinUnmapped
  refine Keeps.get.bind fun m => ?_
  split
  · exact .fail _
  · exact .fail _
  · exact .fail _
  · exact (discard_keeps (h.addRoot_keeps _)).bind fun _ => .fail _

theorem join_keeps (owner key outer : Value) : Keeps R (c.join owner key outer) := by
  unfold ContextId.join
  refine c.read_keeps.bind fun x => ?_
  refine .guarded ?_
  refine (resolveRelationship_keeps _ _).bind fun (m, r) => ?_
  exact .ite (h.joinUnmapped_keeps r outer) (h.growJoin _ _ _ _)

theorem assign_keeps (key v : Value) : Keeps R (c.assign key v) := by
  unfold ContextId.assign
  refine c.read_keeps.bind fun x => ?_
  split
  · refine (resolveAttribute_keeps _ _).bind fun a => ?_
    split
    · exact (register_keeps v).bind fun _ => h.change (.assign _ v)
    · exact .fail _
  · exact .fail _

end KeepsTold

section Composing

variable {R : Machine → Machine → Prop} [Composing R]

@[grind ←] theorem ContextId.addRoot_keeps (c : ContextId) (entity : Value) :
    Keeps R (c.addRoot entity) :=
  (Composing.tells c).addRoot_keeps entity

@[grind ←] theorem ContextId.join_keeps (c : ContextId) (owner key outer : Value) :
    Keeps R (c.join owner key outer) :=
  (Composing.tells c).join_keeps owner key outer

@[grind ←] theorem ContextId.assign_keeps (c : ContextId) (key v : Value) :
    Keeps R (c.assign key v) :=
  (Composing.tells c).assign_keeps key v

end Composing

/-! ### Attributes -/

section Attributes

variable {e own : Mapped} {key : Value} {a : Attribute} {name : String} {r : Relationship} {m m' : Machine}

theorem Mapped.attribute?_eq_some (h : e.attribute? name = some a) : a.owner = e ∧ a.key = name := by
  obtain ⟨x, hx, rfl⟩ := Option.map_eq_some_iff.mp h
  unfold Entity.member? at hx
  have same := List.find?_some hx
  exact ⟨rfl, eq_of_beq same⟩

/-- A name and a mapped attribute of that name stand for the same attribute. -/
theorem exec_resolveAttribute_member
    (h : exec (resolveAttribute (.mapped e) key) m = (.ok (.member a), m')) :
    m' = m ∧ key.attributeKey? = some a.key ∧ e.attribute? a.key = some a := by
  replace h := (exec_guarded_eq_ok.mp h).2
  cases named : key.attributeKey? with
  | none =>
    rw [named] at h
    obtain ⟨_, _, _, h⟩ := exec_bind_eq_ok.mp h
    cases h
  | some name =>
    rw [named] at h
    obtain ⟨found, m₁, read, found_is⟩ := exec_bind_eq_ok.mp h
    have known : m₁ = m ∧ (found = (e.attribute? name).map .member ∨ ∃ id s, found = some (.text id s)) := by
      unfold Value.property? at read
      dsimp only at read
      split at read
      · obtain ⟨rfl, rfl⟩ := exec_pure_eq_ok.mp read
        exact ⟨rfl, .inr ⟨_, _, rfl⟩⟩
      · obtain ⟨rfl, rfl⟩ := exec_pure_eq_ok.mp read
        exact ⟨rfl, .inr ⟨_, _, rfl⟩⟩
      · obtain ⟨rfl, rfl⟩ := exec_pure_eq_ok.mp read
        exact ⟨rfl, .inl rfl⟩
    obtain ⟨rfl, rfl | ⟨id, s, rfl⟩⟩ := known
    · cases hn : e.attribute? name with
      | none =>
        rw [hn] at found_is
        obtain ⟨_, _, _, failed⟩ := exec_bind_eq_ok.mp found_is
        cases failed
      | some b =>
        rw [hn] at found_is
        obtain ⟨same, rfl⟩ := exec_pure_eq_ok.mp found_is
        obtain rfl := Value.member.inj same
        rw [(Mapped.attribute?_eq_some hn).2]
        exact ⟨rfl, rfl, hn⟩
    · cases found_is

/-- What is a relationship of a mapped class or alias belongs to it. -/
theorem owner_of_resolveRelationship
    (h : exec (resolveRelationship (.mapped e) key) m = (.ok (own, r), m')) : own = e := by
  obtain ⟨found, m₁, resolved, h⟩ := exec_bind_eq_ok.mp h
  split at h
  · rename_i own' r'
    obtain ⟨same, -⟩ := exec_pure_eq_ok.mp h
    obtain ⟨rfl, rfl⟩ := Prod.mk.inj same
    obtain ⟨-, -, known⟩ := exec_resolveAttribute_member resolved
    exact (Mapped.attribute?_eq_some known).1
  · obtain ⟨_, _, _, failed⟩ := exec_bind_eq_ok.mp h
    cases failed

end Attributes

/-! ### Joins -/

namespace ContextId

variable {c : ContextId} {owner key outer v : Value} {r : Relationship} {m m' : Machine}

/-- Nothing is joined from a correlated root that is no mapped class or alias. -/
theorem exec_joinUnmapped_ne_ok : exec (c.joinUnmapped r outer) m ≠ (.ok v, m') := by
  intro h
  unfold joinUnmapped at h
  rw [exec_bind_of_ok (exec_get m)] at h
  split at h
  · cases h
  · cases h
  · cases h
  · obtain ⟨_, _, -, h⟩ := exec_bind_eq_ok.mp h
    cases h

/-- A join that succeeds resolves a relationship, and then nothing but the query context changes. A
root it is correlated from is a mapped class or an alias. -/
theorem exec_join_eq_ok (h : exec (c.join owner key outer) m = (.ok v, m')) :
    ∃ x own r m₁, m.context? c = some x ∧ x.isSelecting = true ∧
      exec (resolveRelationship owner key) m = (.ok (own, r), m₁) ∧
      (x.correlates owner = true → owner.source?.isSome = true) ∧
      exec (c.growJoin (x.correlates owner) own r outer) m₁ = (.ok v, m') := by
  unfold join at h
  obtain ⟨x, m₀, read, h⟩ := exec_bind_eq_ok.mp h
  obtain ⟨hx, rfl⟩ := exec_readContext_eq_ok.mp read
  obtain ⟨selecting, h⟩ := exec_guarded_eq_ok.mp h
  obtain ⟨⟨own, r⟩, m₁, resolved, h⟩ := exec_bind_eq_ok.mp h
  dsimp only at h
  split at h
  · exact absurd h exec_joinUnmapped_ne_ok
  · rename_i mapped
    refine ⟨x, own, r, m₁, hx, by simpa using selecting, resolved, fun correlated => ?_, h⟩
    simpa [correlated, Option.isSome_iff_ne_none] using mapped

end ContextId

@[grind ←] theorem withFrame_keeps {R : Machine → Machine → Prop} [Creating R] {α : Type}
    (builder query : Value) {body : Frame → Run α}
    (hb : ∀ f, Keeps R (body f)) : Keeps R (withFrame builder query body) := by
  unfold withFrame
  refine (classNow_keeps _).bind fun name => ?_
  cases query with
  | context c =>
    refine .guarded (.bind Inert.fresh fun id => .bind .get fun m => ?_)
    exact ensuring_keeps (Creating.onStack _ (.bind (logLine_keeps (.pure _)) fun _ => hb _))
      (logLine_keeps (.pure _))
  | _ => exact .fail_bind _ _

end FluentQuery
