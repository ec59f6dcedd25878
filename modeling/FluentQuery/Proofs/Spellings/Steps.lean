import FluentQuery.Proofs.Arranging
import FluentQuery.Proofs.Meaning.Steps

/-! Spellings: an attribute of the selection can be given by its name, by a mapped attribute of that
name, whosever it is, and by a function that reads it. What a step does with the selection is the same
for all of them, and a step that is given a name the selection does not have fails. -/

namespace FluentQuery

open Sql

/-! ### Names and functions -/

/-- A value that names an attribute: its key, or a mapped attribute with that key. -/
inductive Names (key : String) : Value → Prop
  | text (id : Nat) : Names key (.text id key)
  | member {a : Attribute} (h : a.key = key) : Names key (.member a)

/-- A value that stands for what a selection has under a key: a name of it, or a function that reads it
off the selection. -/
inductive Spells (call : Call) (key : String) : Value → Prop
  | name {v : Value} (h : Names key v) : Spells call key v
  | function {c : Closure} (reads : ∀ x, call (.closure c) [x] = do orExternal (← x.property? key)) :
      Spells call key (.closure c)

/-- Nothing is found under the key on this value, and the value can be shown. -/
structure Value.Lacks (x : Value) (key : String) : Prop where
  missing : ∀ m, exec (x.property? key) m = (.ok none, m)
  shown : ∀ m, (x.shown? m).isSome

section Reading

variable {call : Call} {key : String} {v x : Value} {m : Machine}

/-- A function written as `s -> s.key`. -/
theorem Spells.of_get (depth id : Nat) (p : String) (scope : Scope) :
    Spells (callAny (eval (depth + 2))) key (.closure ⟨id, [p], .get (.variable p) key, scope⟩) := by
  refine .function fun x => ?_
  unfold callAny callClosure
  simp [eval, evalStep, readVariable]

theorem Names.selected (h : Names key v) : Projection.selected v = .named v := by
  cases h <;> rfl

theorem Names.resolve (h : Names key v) : resolveAttribute x v = (do
    match ← x.property? key with
    | none | some .null => fail (.noAttribute (← shownNow x) key)
    | some w => return w) := by
  cases h with
  | text => rfl
  | member h => subst h; rfl

/-- No entity maps anything under the names that classes have for themselves. -/
theorem Mapped.property?_eq {e : Mapped} {a : Attribute} (h : e.attribute? key = some a) :
    Value.property? (.mapped e) key = pure (some (.member a)) := by
  have mapped : ∀ e : Entity, e.member? "__tablename__" = none ∧ e.member? "__name__" = none := by
    intro e
    cases e <;> decide
  unfold Value.property?
  dsimp only
  split
  · rw [attribute?, (mapped e.entity).1] at h
    cases h
  · rw [attribute?, (mapped e.entity).2] at h
    cases h
  · rw [h]
    rfl

/-- However an attribute of a mapped class or alias is spelled, it is read. -/
theorem Spells.read {e : Mapped} {a : Attribute} (h : Spells call key v)
    (ha : e.attribute? key = some a) :
    (Projection.selected v).read call (.mapped e) = pure (.member a) := by
  cases h with
  | name h =>
    rw [h.selected, Projection.read, h.resolve, Mapped.property?_eq ha, pure_bind]
  | function reads =>
    rw [Projection.selected, Projection.read, reads, Mapped.property?_eq ha, pure_bind]
    · rfl
    all_goals
      intros
      contradiction

theorem Names.exec_resolve_of_lacks (h : Names key v) (lacks : x.Lacks key) {text : String}
    (shown : x.shown? m = some text) :
    exec (resolveAttribute x v) m = (.error (.noAttribute text key), m) := by
  rw [h.resolve, exec_bind_of_ok (lacks.missing m)]
  have told : exec (shownNow x) m = (.ok text, m) := by rw [exec_shownNow, shown]
  exact exec_bind_of_ok told _

/-- An entity or alias lacks what it does not map, but for what every class has. -/
theorem Mapped.lacks {e : Mapped} (h : e.attribute? key = none) (own : key ≠ "__tablename__")
    (own' : key ≠ "__name__") : (Value.mapped e).Lacks key where
  missing m := by
    unfold Value.property?
    dsimp only
    split
    · exact absurd rfl own
    · exact absurd rfl own'
    · rw [h]
      rfl
  shown m := by
    obtain ⟨e, _ | n⟩ := e <;> rfl

end Reading

/-! ### Places -/

/-- An operation on a stream, open for what it reads off the selection or joins from it. -/
inductive Place where
  | filter | having | map | groupBy
  | bind (r : RefId)
  | orderBy (ascending : Value)
  | orderByAttributes (before : List Value) (id : Nat) (ascending : Value) (after : List Value)
  | join (outer : Value)

namespace Place

/-- The operation with `v` in its place. -/
def op (v : Value) : Place → StreamOp
  | filter => .fluent (.filter v)
  | having => .fluent (.having v)
  | map => .fluent (.map v)
  | groupBy => .fluent (.groupBy v)
  | bind r => .fluent (.bind r v)
  | orderBy ascending => .fluent (.orderBy v ascending)
  | orderByAttributes before id ascending after =>
    .fluent (.orderByAttributes (before ++ .tuple id [v, ascending] :: after))
  | join outer => .fluent (.join v outer)

/-- The step of that operation. -/
def step (queryType v : Value) : Place → Step
  | filter => .filter queryType (.selected v)
  | having => .having (.selected v)
  | map => .map (.selected v)
  | groupBy => .group (.key (.selected v))
  | bind r => .bind r (.selected v)
  | orderBy ascending => .sort (.keys [(.selected v, ascending)])
  | orderByAttributes before _ ascending after =>
    .sort (.keys (Fluent.orderPairs before ++ (.selected v, ascending) :: Fluent.orderPairs after))
  | join outer => .join v outer

/-- The keys that are read before the place is come to. -/
def earlier : Place → List (Projection × Value)
  | orderByAttributes before .. => Fluent.orderPairs before
  | _ => []

/-- What the operation arranges. -/
def arranging? : Place → Option Arranging
  | orderBy _ | orderByAttributes .. => some .sort
  | groupBy => some .group
  | _ => none

/-- Whether only searches offer the operation. -/
def isSearching : Place → Bool
  | filter | bind _ => false
  | _ => true

/-- What this place takes for an attribute: any spelling of it, but only a name for a join, which takes
relationships alone. -/
def Takes (call : Call) (a : Attribute) (v : Value) : Place → Prop
  | join _ => Names a.key v ∧ ∃ r, a.member = .relationship r
  | _ => Spells call a.key v

variable {call : Call} {queryType builder v v' x : Value} {c : ContextId} {key : String} {m n : Machine}
  {y : Context}

theorem op_step? {p : Place} (h : Projection.expressed v = .selected v) (notNull : v.isNull = false) :
    (p.op v).step? queryType = some (p.step queryType v) := by
  cases p with
  | orderBy | groupBy => simp [op, step, StreamOp.step?, Fluent.step?, h]
  | orderByAttributes =>
    simp [op, step, StreamOp.step?, Fluent.step?, Fluent.orderPairs, List.filterMap_append]
  | bind r => simp [op, step, StreamOp.step?, Fluent.step?, notNull]
  | filter | having | map | join => rfl

/-! ### Spelled one way or another -/

/-- Keys are read alike if the one that differs is. -/
theorem ordered_congr {p q : Projection} (h : p.read call x = q.read call x) (ascending : Value)
    (before after : List (Projection × Value)) :
    Ordering.clauses.ordered call builder x (before ++ (p, ascending) :: after) =
      Ordering.clauses.ordered call builder x (before ++ (q, ascending) :: after) := by
  induction before with
  | nil => simp only [List.nil_append, Ordering.clauses.ordered, h]
  | cons first before ih => simp only [List.cons_append, Ordering.clauses.ordered, ih]

theorem Takes.spells {p : Place} {a : Attribute} (h : p.Takes call a v) : Spells call a.key v := by
  cases p with
  | join => exact .name h.1
  | _ => exact h

/-- On a selection that has the attribute, a step does the same however the attribute is spelled. -/
theorem apply_congr {p : Place} {e : Mapped} {a : Attribute} (ha : e.attribute? a.key = some a)
    (h : p.Takes call a v) (h' : p.Takes call a v') :
    (p.step queryType v).apply call builder x (.mapped e) =
      (p.step queryType v').apply call builder x (.mapped e) := by
  have read := (h.spells.read ha).trans (h'.spells.read ha).symm
  cases p with
  | filter | having | map | bind => simp only [step, Step.apply, read]
  | groupBy => simp only [step, Step.apply, Grouping.clauses, read]
  | orderBy ascending =>
    simp only [step, Step.apply, Ordering.clauses, Ordering.clauses.ordered, read]
  | orderByAttributes before id ascending after =>
    simp only [step, Step.apply, Ordering.clauses, ordered_congr read]
  | join outer =>
    obtain ⟨names, r, hr⟩ := h
    obtain ⟨owner, member⟩ := a
    subst hr
    have resolved {w : Value} (names : Names (Attribute.key ⟨owner, .relationship r⟩) w) :
        resolveRelationship (.mapped e) w = pure (owner, r) := by
      rw [resolveRelationship, names.resolve, Mapped.property?_eq ha]
      rfl
    simp only [step, Step.apply, ContextId.join, resolved names, resolved h'.1]

/-! ### Names of nothing -/

theorem exec_ordered_of_error {ks : List (Projection × Value)} {items : List Value} {p : Projection}
    {e : Error} (read : exec (Ordering.clauses.ordered call builder x ks) m = (.ok items, n))
    (built : builder.requireBuilder = pure ()) (failed : exec (p.read call x) n = (.error e, n))
    (ascending : Value) (later : List (Projection × Value)) :
    exec (Ordering.clauses.ordered call builder x (ks ++ (p, ascending) :: later)) m =
      (.error e, n) := by
  induction ks generalizing m items with
  | nil =>
    obtain ⟨-, rfl⟩ := exec_pure_eq_ok.mp read
    rw [List.nil_append, Ordering.clauses.ordered, built, pure_bind]
    exact exec_bind_of_error failed _
  | cons first ks ih =>
    obtain ⟨q, direction⟩ := first
    rw [Ordering.clauses.ordered, built, pure_bind] at read
    obtain ⟨key, m₁, hkey, read⟩ := exec_bind_eq_ok.mp read
    obtain ⟨up, m₂, hup, read⟩ := exec_bind_eq_ok.mp read
    obtain ⟨sorted, m₃, hsorted, read⟩ := exec_bind_eq_ok.mp read
    obtain ⟨rest, m₄, hrest, read⟩ := exec_bind_eq_ok.mp read
    obtain ⟨-, rfl⟩ := exec_pure_eq_ok.mp read
    rw [List.cons_append, Ordering.clauses.ordered, built, pure_bind, exec_bind_of_ok hkey,
      exec_bind_of_ok hup, exec_bind_of_ok hsorted, exec_bind_of_error (ih hrest)]

theorem exec_requireOutermost_of_isQuery (hy : m.context? c = some y) (isQuery : y.isQuery)
    (a : Arranging) : exec (requireOutermost (.context c) a) m = (.ok c, m) := by
  unfold requireOutermost
  rw [exec_bind_of_ok (exec_readContext_of_some hy), if_pos isQuery]
  rfl

/-- A step that is given a name the selection does not have fails, once what stands before the name was
read, and does nothing else. -/
theorem apply_of_lacks {p : Place} (names : Names key v) (lacks : x.Lacks key) {text : String}
    (hy : m.context? c = some y) (searching : p.isSearching → y.isSelecting)
    (outermost : p.arranging?.isSome → y.isQuery ∧ builder.requireBuilder = pure ())
    {items : List Value}
    (read : exec (Ordering.clauses.ordered call builder x p.earlier) m = (.ok items, n))
    (shown : x.shown? n = some text) :
    exec ((p.step queryType v).apply call builder (.context c) x) m =
      (.error (.noAttribute text key), n) := by
  have failed : exec ((Projection.selected v).read call x) n = (.error (.noAttribute text key), n) := by
    rw [names.selected]
    exact names.exec_resolve_of_lacks lacks shown
  have asked : exec c.read m = (.ok y, m) := exec_readContext_of_some hy
  have outer (a : Arranging) (isQuery : y.isQuery) := exec_requireOutermost_of_isQuery hy isQuery a
  cases p with
  | filter | map | bind =>
    obtain ⟨-, rfl⟩ := exec_pure_eq_ok.mp read
    first | exact exec_bind_of_error failed _ | exact failed
  | having =>
    obtain ⟨-, rfl⟩ := exec_pure_eq_ok.mp read
    have selecting : y.isSelecting = true := searching rfl
    refine (exec_bind_of_ok asked _).trans ?_
    simp only [selecting, Bool.not_true, Bool.false_eq_true, ↓reduceIte]
    exact exec_bind_of_error failed _
  | groupBy =>
    obtain ⟨-, rfl⟩ := exec_pure_eq_ok.mp read
    refine (exec_bind_of_ok (outer .group (outermost rfl).1) _).trans ?_
    have clauses : exec (Grouping.clauses call x (.key (.selected v))) m = _ :=
      exec_bind_of_error failed _
    exact exec_bind_of_error clauses _
  | orderBy ascending =>
    refine (exec_bind_of_ok (outer .sort (outermost rfl).1) _).trans ?_
    exact exec_bind_of_error (exec_ordered_of_error read (outermost rfl).2 failed ascending []) _
  | orderByAttributes before id ascending after =>
    refine (exec_bind_of_ok (outer .sort (outermost rfl).1) _).trans ?_
    exact exec_bind_of_error (exec_ordered_of_error read (outermost rfl).2 failed ascending _) _
  | join outer =>
    obtain ⟨-, rfl⟩ := exec_pure_eq_ok.mp read
    have selecting : y.isSelecting = true := searching rfl
    refine (exec_bind_of_ok asked _).trans ?_
    simp only [selecting, Bool.not_true, Bool.false_eq_true, ↓reduceIte]
    refine exec_bind_of_error (exec_bind_of_error ?_ _) _
    exact names.exec_resolve_of_lacks lacks shown

/-- Only relationships are joined, whichever name they are given by. -/
theorem exec_join_of_column {e : Mapped} {a : Attribute} (ha : e.attribute? a.key = some a)
    (names : Names a.key v) (column : ∀ r, a.member ≠ .relationship r) (hy : m.context? c = some y)
    (selecting : y.isSelecting) (outer : Value) :
    ∃ text, exec (((join outer).step queryType v).apply call builder (.context c) (.mapped e)) m =
      (.error (.notRelationship text), m) := by
  obtain ⟨text, shown⟩ : ∃ text, v.shown? m = some text := by
    cases names <;> exact ⟨_, rfl⟩
  have told : exec (shownNow v) m = (.ok text, m) := by rw [exec_shownNow, shown]
  refine ⟨text, (exec_bind_of_ok (exec_readContext_of_some hy) _).trans ?_⟩
  simp only [selecting, Bool.not_true, Bool.false_eq_true, ↓reduceIte]
  refine exec_bind_of_error ?_ _
  unfold resolveRelationship
  rw [names.resolve, Mapped.property?_eq ha, pure_bind, pure_bind]
  obtain ⟨owner, k | r⟩ := a
  · exact exec_bind_of_ok told _
  · exact absurd rfl (column r)

end Place

end FluentQuery
