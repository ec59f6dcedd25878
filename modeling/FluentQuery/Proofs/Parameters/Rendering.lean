import FluentQuery.Proofs.Outcome
import FluentQuery.Sql.Render

/-! What supplied values do to a rendered statement. A text asks for names and notes parameters
without looking at what is supplied, so that supplying more values changes neither the text nor the
parameters it has, only their values. -/

namespace FluentQuery.Sql

namespace Naming

/-- With `given` supplied from outside, which counts before what is supplied so far. -/
def aside (given : List (String × Literal)) (n : Naming) : Naming :=
  { n with supplied := given ++ n.supplied }

/-- Named parameters have no value of their own. -/
def NamedNull (n : Naming) : Prop := ∀ p ∈ n.parameters, p.origin = .named → p.value = .null

theorem generate_aside (given : List (String × Literal)) (n : Naming) (key : NameKey)
    (base : String) : (n.aside given).generate key base =
      ((n.generate key base).1, (n.generate key base).2.aside given) := by
  unfold generate
  rw [show (n.aside given).names = n.names from rfl]
  cases n.names.lookup key <;> rfl

theorem addParameter_aside (given : List (String × Literal)) (n : Naming) (name : String)
    (origin : ParameterOrigin) (v : Literal) : (n.aside given).addParameter name origin v =
      (n.addParameter name origin v).map fun x => (x.1, x.2.aside given) := by
  unfold addParameter
  rw [show (n.aside given).parameters = n.parameters from rfl]
  cases n.parameters.find? (·.name == name) with
  | none => rfl
  | some p =>
    dsimp only
    split <;> rfl

theorem NamedNull.generate {n : Naming} (h : n.NamedNull) (key : NameKey) (base : String) :
    (n.generate key base).2.NamedNull := by
  unfold Naming.generate
  cases n.names.lookup key <;> exact h

theorem NamedNull.addParameter {n n' : Naming} (h : n.NamedNull) {name : String}
    {origin : ParameterOrigin} {v : Literal} (null : origin = .named → v = .null)
    {written : String} (added : n.addParameter name origin v = .ok (written, n')) : n'.NamedNull := by
  unfold Naming.addParameter at added
  split at added
  · obtain ⟨-, rfl⟩ := Prod.mk.inj (Except.ok.inj added)
    exact List.forall_mem_append.mpr ⟨h, List.forall_mem_singleton.mpr null⟩
  · split at added
    · cases added
    · obtain ⟨-, rfl⟩ := Prod.mk.inj (Except.ok.inj added)
      exact h

end Naming

/-- A rendering that notes what it notes whatever is supplied, and gives no named parameter a
value. -/
structure Steady {α : Type} (x : Render α) : Prop where
  aside : ∀ given n, x.run (n.aside given) = (x.run n).map fun p => (p.1, p.2.aside given)
  named : ∀ {n n' a}, x.run n = .ok (a, n') → n.NamedNull → n'.NamedNull

namespace Steady

variable {α β : Type}

theorem pure (a : α) : Steady (pure a : Render α) where
  aside _ _ := rfl
  named h hn := by
    obtain ⟨-, rfl⟩ := Prod.mk.inj (Except.ok.inj h)
    exact hn

theorem throw (e : RenderError) : Steady (throw e : Render α) where
  aside _ _ := rfl
  named h _ := by cases h

theorem bind {x : Render α} {f : α → Render β} (hx : Steady x) (hf : ∀ a, Steady (f a)) :
    Steady (x >>= f) where
  aside given n := by
    rw [StateT.run_bind, StateT.run_bind, hx.aside]
    cases x.run n with
    | error e => rfl
    | ok p => exact (hf p.1).aside given p.2
  named {n n' b} h hn := by
    rw [StateT.run_bind] at h
    obtain ⟨⟨a, n₁⟩, ha, hb⟩ := Except.bind_eq_ok.mp h
    exact (hf a).named hb (hx.named ha hn)

theorem ite {c : Prop} [Decidable c] {x y : Render α} (hx : Steady x) (hy : Steady y) :
    Steady (if c then x else y) := by
  split
  · exact hx
  · exact hy

/-- A check that may refuse, before the rest. -/
theorem guarded {c : Prop} [Decidable c] {e : RenderError} {k : PUnit → Render α} {x : Render α}
    (hx : Steady x) : Steady (if c then MonadExcept.throw e >>= k else x) :=
  .ite (throw e) hx

/-- What was noted may be read, but for what was supplied. -/
theorem get {f : Naming → Render α} (h : ∀ n, Steady (f n))
    (same : ∀ given n, f (n.aside given) = f n) : Steady (MonadState.get >>= f) where
  aside given n := by
    have read : (MonadState.get >>= f : Render α).run (n.aside given) = (f n).run (n.aside given) :=
      congrArg (·.run (n.aside given)) (same given n)
    exact read.trans ((h n).aside given n)
  named {n _ _} h' hn := (h n).named h' hn

theorem modify {f : Naming → Naming} (aside : ∀ given n, f (n.aside given) = (f n).aside given)
    (parameters : ∀ n, (f n).parameters = n.parameters) : Steady (modify f : Render PUnit) where
  aside given n := congrArg (fun n => Except.ok (PUnit.unit, n)) (aside given n)
  named {n _ _} h hn := by
    obtain ⟨-, rfl⟩ := Prod.mk.inj (Except.ok.inj h)
    intro p hp
    rw [parameters] at hp
    exact hn p hp

theorem mapM {f : α → Render β} (hf : ∀ a, Steady (f a)) (xs : List α) : Steady (xs.mapM f) := by
  induction xs with
  | nil => exact pure _
  | cons x xs ih =>
    rw [List.mapM_cons]
    exact (hf x).bind fun _ => ih.bind fun _ => pure _

theorem orFail (e : RenderError) (x : Option α) : Steady (orFail e x) := by
  cases x with
  | none => exact throw e
  | some a => exact pure a

theorem nameOf (key : NameKey) (base : String) : Steady (nameOf key base) where
  aside given n := congrArg Except.ok (n.generate_aside given key base)
  named {n n' name} h hn := by
    obtain ⟨-, rfl⟩ := Prod.mk.inj (Except.ok.inj h)
    exact hn.generate key base

theorem parameterText (name : String) {origin : ParameterOrigin} {v : Literal}
    (null : origin = .named → v = .null) : Steady (parameterText name origin v) where
  aside given n := by
    unfold Sql.parameterText
    simp only [StateT.run_bind, StateT.run_get, pure_bind, n.addParameter_aside given]
    cases n.addParameter name origin v <;> rfl
  named {n n' written} h hn := by
    unfold Sql.parameterText at h
    simp only [StateT.run_bind, StateT.run_get, pure_bind] at h
    obtain ⟨⟨⟨text, n₁⟩, n₂⟩, added, h⟩ := Except.bind_eq_ok.mp h
    obtain ⟨x, noted, kept⟩ := Except.bind_eq_ok.mp added
    obtain ⟨rfl, rfl⟩ := Prod.mk.inj (Except.ok.inj kept)
    obtain ⟨-, rfl⟩ := Prod.mk.inj (Except.ok.inj h)
    exact hn.addParameter null noted

/-- A named parameter. -/
theorem named_parameter (name : String) : Steady (Sql.parameterText name .named .null) :=
  parameterText name fun _ => rfl

end Steady

/-! ### Texts without nested expressions -/

end FluentQuery.Sql

namespace FluentQuery.Source

open Sql

theorem reference_steady (s : Source) : Steady s.reference := by
  unfold reference
  split
  · exact .pure _
  · exact .nameOf _ _

theorem declaration_steady (s : Source) : Steady s.declaration := by
  unfold declaration
  split
  · exact .pure _
  · exact s.reference_steady.bind fun _ => .pure _

end FluentQuery.Source

namespace FluentQuery.Sql

theorem ColumnRef.text_steady (c : ColumnRef) : Steady c.text :=
  c.source.reference_steady.bind fun _ => .pure _

theorem Placeholder.text_steady (p : Placeholder) : Steady p.text :=
  (Steady.nameOf _ _).bind fun _ => .parameterText _ (by nofun)

theorem RowBound.text_steady (b : RowBound) : Steady b.text :=
  (Steady.nameOf _ _).bind fun _ => (Steady.parameterText _ (by nofun)).bind fun _ => .pure _

theorem Equality.text_steady (e : Equality) : Steady e.text :=
  e.left.text_steady.bind fun _ => e.right.text_steady.bind fun _ => .pure _

theorem FromItem.text_steady (item : FromItem) : Steady item.text := by
  induction item with
  | source s => exact s.declaration_steady
  | join left right on outer ihl ihr =>
    exact ihl.bind fun _ => ihr.bind fun _ => on.text_steady.bind fun _ => .pure _

theorem FromItem.textOfAll_steady (items : List FromItem) : Steady (FromItem.textOfAll items) := by
  induction items with
  | nil => exact .pure _
  | cons item items ih => exact item.text_steady.bind fun _ => ih.bind fun _ => .pure _

theorem boundsText_steady (limit offset : Option RowBound) : Steady (boundsText limit offset) := by
  cases limit with
  | none =>
    cases offset with
    | none => exact .pure _
    | some o => exact o.text_steady.bind fun _ => .pure _
  | some l =>
    cases offset with
    | none => exact l.text_steady.bind fun _ => .pure _
    | some o => exact l.text_steady.bind fun _ => o.text_steady.bind fun _ => .pure _

theorem labelSuffix_steady (l : Option Label) : Steady (labelSuffix l) := by
  rcases l with _ | name | ⟨key, base⟩
  · exact .pure _
  · exact .pure _
  · exact (Steady.nameOf key base).bind fun _ => .pure _

theorem entityColumns_steady (tellApart : Bool) (m : Mapped) (shown : Shown) (cs : List Column) :
    Steady (entityColumns tellApart m shown cs) := by
  induction cs generalizing shown with
  | nil => exact .pure _
  | cons c cs ih =>
    refine .ite (ih shown) ((labelSuffix_steady _).bind fun _ => ?_)
    exact (ColumnRef.text_steady _).bind fun _ => (ih _).bind fun _ => .pure _

theorem namedText_steady (t : Term) : Steady (namedText t) := by
  unfold namedText
  split
  · exact ColumnRef.text_steady _
  · exact (ColumnRef.text_steady _).bind fun _ => .pure _
  · exact (Steady.named_parameter _).bind fun _ => .pure _
  · exact .pure _

theorem bareText_steady (scope : Scope) (name : String) : Steady (bareText scope name) := by
  unfold bareText
  split
  · exact .pure _
  · exact (Steady.orFail _ _).bind fun t => namedText_steady t

/-! ### Expressions and statements -/

mutual

theorem Term.text_steady (scope : Scope) (t : Term) : Steady (t.text scope) := by
  cases t with
  | column c => exact c.text_steady
  | constant c => exact .pure _
  | literal p => exact p.text_steady.bind fun _ => .pure _
  | parameter name type => exact (Steady.named_parameter name).bind fun _ => .pure _
  | arithmetic op type ts => exact (Term.operandTexts_steady scope _ _ ts).bind fun _ => .pure _
  | compare op reflexive left right =>
    exact (left.text_steady scope).bind fun _ => (right.text_steady scope).bind fun _ => .pure _
  | group op ts => exact (Term.operandTexts_steady scope _ _ ts).bind fun _ => .pure _
  | condition negated key t => exact (t.text_steady scope).bind fun _ => .pure _
  | negation type t => exact (t.text_steady scope).bind fun _ => .pure _
  | function name type ts =>
    refine (Term.operandTexts_steady scope _ _ ts).bind fun args => ?_
    cases callText name ts.isEmpty (written args) with
    | ok text => exact .pure _
    | error e => exact .throw _
  | extract field t =>
    exact (Steady.orFail _ field).bind fun _ => (t.text_steady scope).bind fun _ => .pure _
  | cast type key t => exact (t.text_steady scope).bind fun _ => .pure _
  | star => exact .pure _
  | distinct t => exact (t.text_steady scope).bind fun _ => .pure _
  | among negated t values =>
    exact (t.text_steady scope).bind fun _ => values.text_steady.bind fun _ => .pure _
  | nonempty s => exact (s.text_steady false scope).bind fun _ => .pure _
  | scalar s => exact (s.text_steady false scope).bind fun _ => .pure _
  | whole s => exact s.text_steady scope
  | sorted d t => exact (t.text_steady scope).bind fun _ => .pure _
  | label name => exact bareText_steady scope name

theorem Term.operandTexts_steady (scope : Scope) (outer : Operator) (keep : Term → Bool)
    (ts : List Term) : Steady (Term.operandTexts scope outer keep ts) := by
  cases ts with
  | nil => exact .pure _
  | cons t ts =>
    have rest := Term.operandTexts_steady scope outer keep ts
    exact .ite ((t.text_steady scope).bind fun _ => rest.bind fun _ => .pure _) rest

theorem SelectItem.texts_steady (scope : Scope) (tellApart : Bool) (shown : Shown)
    (items : List SelectItem) : Steady (SelectItem.texts scope tellApart shown items) := by
  cases items with
  | nil => exact .pure _
  | cons item items =>
    have rest (shown : Shown) := SelectItem.texts_steady scope tellApart shown items
    cases item with
    | mapped m => exact (entityColumns_steady tellApart m shown _).bind fun _ => (rest _).bind fun _ => .pure _
    | verbatim text => exact (rest _).bind fun _ => .pure _
    | expression key t =>
      refine .guarded ((labelSuffix_steady _).bind fun _ => ?_)
      exact (t.text_steady scope).bind fun _ => (rest _).bind fun _ => .pure _

theorem Select.text_steady (tellApart : Bool) (scope : Scope) (s : Select) :
    Steady (s.text tellApart scope) := by
  obtain ⟨items, distinct, roots, joins, conditions, groupBy, having, orderBy, correlation, limit,
    offset, supplied⟩ := s
  refine .guarded (.guarded (.bind (.modify (fun given n => ?_) fun _ => rfl) fun _ => ?_))
  · simp [Naming.supply, Naming.aside]
  refine .get (fun n => (Steady.orFail _ _).bind fun x => ?_) fun _ _ => rfl
  refine .bind (.modify (fun _ _ => rfl) fun _ => rfl) fun _ => ?_
  refine (Steady.orFail _ _).bind fun kept => ?_
  refine (SelectItem.texts_steady _ tellApart .start items).bind fun _ => ?_
  refine (FromItem.textOfAll_steady kept).bind fun _ => ?_
  refine (Term.operandTexts_steady _ _ _ conditions).bind fun _ => ?_
  refine (Term.operandTexts_steady _ _ _ groupBy).bind fun _ => ?_
  refine (Term.operandTexts_steady _ _ _ having).bind fun _ => ?_
  refine (Term.operandTexts_steady _ _ _ orderBy).bind fun _ => ?_
  exact (boundsText_steady limit offset).bind fun _ => .pure _

theorem Assignment.text?_steady (scope : Scope) (column : Column) (as : List Assignment) :
    Steady (Assignment.text? scope column as) := by
  cases as with
  | nil => exact .pure _
  | cons a as =>
    have rest := Assignment.text?_steady scope column as
    cases a with
    | plain c l => exact .ite rest ((Steady.parameterText _ (by nofun)).bind fun _ => .pure _)
    | computed c t => exact .ite rest ((t.text_steady scope).bind fun _ => .pure _)

theorem Statement.text_steady (scope : Scope) (s : Statement) : Steady (s.text scope) := by
  cases s with
  | select s => exact s.text_steady true scope
  | delete target conditions =>
    refine target.declaration_steady.bind fun _ => (FromItem.textOfAll_steady _).bind fun _ => ?_
    exact (Term.operandTexts_steady _ _ _ conditions).bind fun _ => .pure _
  | update target assignments conditions =>
    refine target.source.declaration_steady.bind fun _ => ?_
    refine (Steady.mapM (fun c => Assignment.text?_steady _ c assignments) _).bind fun _ => ?_
    refine (FromItem.textOfAll_steady _).bind fun _ => ?_
    exact (Term.operandTexts_steady _ _ _ conditions).bind fun _ => .pure _

end

/-! ### Values from outside -/

/-- The SELECT with `given` supplied as well, which counts before what it supplies itself. -/
def Select.supply (given : List (String × Literal)) (s : Select) : Select :=
  { s with supplied := given ++ s.supplied }

theorem Select.text_supply (given : List (String × Literal)) (s : Select) (tellApart : Bool)
    (scope : Scope) : ((s.supply given).text tellApart scope).run .empty =
      (s.text tellApart scope).run (Naming.empty.aside given) := by
  obtain ⟨items, distinct, roots, joins, conditions, groupBy, having, orderBy, correlation, limit,
    offset, supplied⟩ := s
  have taken : Naming.empty.supply (given ++ supplied) =
      (Naming.empty.aside given).supply supplied := by
    simp [Naming.supply, Naming.aside, Naming.empty]
  have run (f : Naming → Naming) (n : Naming) : (modify f : Render PUnit).run n = .ok ((), f n) := rfl
  unfold Select.supply Select.text
  by_cases empty : items.isEmpty
  · simp only [empty, if_true]
    rfl
  by_cases undecided : joins.any (·.outer.isNone)
  · simp only [empty, undecided, if_true]
    rfl
  simp only [empty, undecided, Bool.false_eq_true, if_false]
  -- behind the supply the statement is not asked again what it supplies
  rw [StateT.run_bind, StateT.run_bind, run, run, taken]
  rfl

namespace Naming

/-- The parameters a text has noted, each with its value. -/
def settled (n : Naming) : List Parameter :=
  n.parameters.map fun p => { p with value := (n.supplied.lookup p.name).getD p.value }

theorem values_eq (n : Naming) : n.values = n.settled.map fun p => (p.written, p.value) := by
  simp [values, settled, Function.comp_def]

/-- A given value takes the place of the one a parameter has. -/
theorem values_aside (given : List (String × Literal)) (n : Naming) : (n.aside given).values =
    n.settled.map fun p => (p.written, (given.lookup p.name).getD p.value) := by
  simp only [values, settled, aside, List.map_map]
  refine List.map_congr_left fun p _ => ?_
  rw [List.lookup_append, Function.comp_apply]
  cases given.lookup p.name <;> rfl

end Naming

/-- What becomes of a text when values are given: it stays as it is, and each of its parameters gets
the value given for its name, or else keeps its own. That of a named parameter is null, unless a
statement inside supplies one. -/
structure Rendered.Given (given : List (String × Literal)) (n : Naming) (r r' : Rendered) : Prop where
  text : r'.text = r.text
  before : r.parameters = n.settled.map fun p => (p.written, p.value)
  after : r'.parameters = n.settled.map fun p => (p.written, (given.lookup p.name).getD p.value)
  named : ∀ p ∈ n.settled, p.origin = .named → p.value = (n.supplied.lookup p.name).getD .null

/-- A SELECT with values supplied from outside is rendered if it is rendered without them. -/
theorem Select.render_supply (given : List (String × Literal)) (s : Select) :
    (∀ e, (Statement.select s).render = .error e →
      (Statement.select (s.supply given)).render = .error e) ∧
    ∀ r, (Statement.select s).render = .ok r →
      ∃ n r', ((Statement.select s).text .top).run .empty = .ok (r.text, n) ∧
        (Statement.select (s.supply given)).render = .ok r' ∧ Rendered.Given given n r r' := by
  have steady := s.text_steady true .top
  have supplied : ((Statement.select (s.supply given)).text .top).run .empty =
      (((Statement.select s).text .top).run .empty).map fun p => (p.1, p.2.aside given) :=
    (s.text_supply given true .top).trans (steady.aside given .empty)
  have render (t : Statement) : t.render =
      (t.text .top).run .empty >>= fun p => .ok ⟨p.1, p.2.values⟩ := rfl
  rw [render, render, supplied]
  cases h : ((Statement.select s).text .top).run .empty with
  | error e => exact ⟨fun _ h => h, nofun⟩
  | ok p =>
    obtain ⟨text, n⟩ := p
    refine ⟨nofun, fun r hr => ?_⟩
    obtain rfl := Except.ok.inj hr
    refine ⟨n, _, rfl, rfl, rfl, n.values_eq, n.values_aside given, fun p hp isNamed => ?_⟩
    obtain ⟨q, hq, rfl⟩ := List.mem_map.mp hp
    have null := steady.named h (fun _ h => by cases h) q hq isNamed
    rw [← null]

end FluentQuery.Sql
