import FluentQuery.Proofs.Isolation

/-! Conditions without a text. A clause leaves them out, and a clause of nothing else is no
clause at all. -/

namespace FluentQuery.Sql

variable {α β : Type}

mutual

/-- Whether an expression has no text: an empty group, or what passes such a text on. -/
def Term.isBlank : Term → Bool
  | .group op ts => Term.allBlank (.connective op) ts
  | .arithmetic op _ ts => ts.length ≤ 1 && Term.allBlank (.arithmetic op) ts
  | .condition false _ t => t.isBlank && !t.enclosedIn .negation
  | _ => false

/-- Whether none of the operands of `outer` has a text; parentheses are one. -/
def Term.allBlank (outer : Operator) : List Term → Bool
  | [] => true
  | t :: ts => t.isBlank && !t.enclosedIn outer && Term.allBlank outer ts

end

/-- Whether a clause with these conditions has nothing to show. -/
def saysNothing (ts : List Term) : Bool :=
  Term.allBlank (conditionOperator ts) (ts.filter (shownConditions ts))

/-! ### Texts that are never empty -/

/-- Whatever text is rendered, it is as `p` says. -/
def Ends (p : α → Prop) (x : Render α) : Prop :=
  ∀ n n' a, x.run n = .ok (a, n') → p a

namespace Ends

theorem pure {p : α → Prop} {a : α} (h : p a) : Ends p (Pure.pure a) := by
  intro n n' b hb
  obtain ⟨rfl, -⟩ := Prod.mk.inj (Except.ok.inj hb)
  exact h

theorem throw {p : α → Prop} (e : RenderError) : Ends p (throw e : Render α) := by
  intro n n' a h
  cases h

theorem bind {p : α → Prop} {q : β → Prop} {x : Render α} {f : α → Render β} (hx : Ends p x)
    (hf : ∀ a, p a → Ends q (f a)) : Ends q (x >>= f) := by
  intro n n' b h
  obtain ⟨a, n₁, ha, hb⟩ := run_bind_eq_ok.mp h
  exact hf a (hx n n₁ a ha) n₁ n' b hb

theorem throw_bind {p : β → Prop} (e : RenderError) (f : α → Render β) :
    Ends p ((MonadExcept.throw e : Render α) >>= f) := by
  intro n n' a h
  cases h

/-- What follows a rendering knows where its text comes from. -/
theorem bind_run {q : β → Prop} {x : Render α} {f : α → Render β}
    (hf : ∀ a n n', x.run n = .ok (a, n') → Ends q (f a)) : Ends q (x >>= f) := by
  intro n n' b h
  obtain ⟨a, n₁, ha, hb⟩ := run_bind_eq_ok.mp h
  exact hf a n n₁ ha n₁ n' b hb

/-- Only the end of a rendering matters. -/
theorem bind_any {q : β → Prop} {x : Render α} {f : α → Render β} (hf : ∀ a, Ends q (f a)) :
    Ends q (x >>= f) :=
  bind (p := fun _ => True) (fun _ _ _ _ => trivial) fun a _ => hf a

end Ends

theorem enclose_eq_empty {outer : Operator} {t : Term} {s : String} :
    enclose outer t s = "" ↔ s = "" ∧ t.enclosedIn outer = false := by
  unfold enclose
  split
  · rename_i h
    simp [String.append_eq_empty_iff, h]
  · rename_i h
    simp [h]

theorem written_eq_nil {texts : List String} : written texts = [] ↔ ∀ s ∈ texts, s = "" := by
  simp [written, List.filter_eq_nil_iff]

theorem intercalate_eq_empty {separator : String} (h : separator ≠ "") {texts : List String} :
    separator.intercalate texts = "" ↔ texts = [] ∨ texts = [""] := by
  match texts with
  | [] => simp [String.intercalate_nil]
  | [s] => simp [String.intercalate_singleton]
  | s :: t :: rest =>
    simp [String.intercalate_cons_cons, String.append_eq_empty_iff, h]

theorem intercalate_written_eq_empty {separator : String} (h : separator ≠ "")
    {texts : List String} : separator.intercalate (written texts) = "" ↔ written texts = [] := by
  rw [intercalate_eq_empty h, or_iff_left]
  intro single
  have : "" ∈ written texts := by simp [single]
  simp [written] at this

theorem mem_of_lookup {κ ω : Type} [BEq κ] [LawfulBEq κ] {k : κ} {v : ω} {l : List (κ × ω)}
    (h : l.lookup k = some v) : (k, v) ∈ l := by
  obtain ⟨l₁, l₂, rfl, -⟩ := List.lookup_eq_some_iff.mp h
  simp

/-- A call is a key word, or it has its arguments in parentheses. -/
theorem callText_ne_empty {name text : String} {bare : Bool} {args : List String}
    (h : callText name bare args = .ok text) : text ≠ "" := by
  unfold callText at h
  dsimp only at h
  split at h
  · rename_i word found
    have keywords : ∀ entry ∈ Function.keywords, entry.2 ≠ "" := by decide
    have word_ne : word ≠ "" := keywords _ (mem_of_lookup found)
    obtain rfl := Except.ok.inj h
    split
    · exact word_ne
    · simp [String.append_eq_empty_iff, word_ne]
  · obtain rfl := Except.ok.inj h
    simp [String.append_eq_empty_iff]
  · obtain ⟨written, -, h⟩ := Except.bind_eq_ok.mp h
    obtain rfl := Except.ok.inj h
    simp [String.append_eq_empty_iff]

/-! ### Bare names -/

/-- Bare names stand for something that has a text. -/
def Scope.Provides (scope : Scope) : Prop :=
  ∃ names, scope.names = some names ∧ ∀ entry ∈ names, Ends (· ≠ "") (namedText entry.2)

namespace Ends

variable {scope : Scope}

theorem columnText (c : ColumnRef) : Ends (· ≠ "") c.text := by
  unfold ColumnRef.text
  exact bind_any fun _ => pure (by simp [String.append_eq_empty_iff])

theorem namedText_parameter (name : String) (type : SqlType) :
    Ends (· ≠ "") (namedText (.parameter name type)) := by
  unfold namedText
  exact bind_any fun _ => pure (by simp [String.append_eq_empty_iff])

theorem namedText_condition (negated : Bool) (key : ItemKey) (c : ColumnRef) :
    Ends (· ≠ "") (namedText (.condition negated key (.column c))) := by
  unfold namedText
  exact bind (columnText c) fun _ h => pure (by simp [String.append_eq_empty_iff, h])

theorem bareText (h : scope.Provides) (name : String) :
    Ends (· ≠ "") (bareText scope name) := by
  obtain ⟨names, hnames, shown⟩ := h
  unfold Sql.bareText
  rw [hnames]
  dsimp only
  rcases found : names.lookup name with _ | t
  · intro n n' a h
    cases h
  · exact shown _ (mem_of_lookup found)

end Ends

theorem Scope.provides_nest_nil (scope : Scope) (sources : List Source) :
    (scope.nest sources []).Provides :=
  ⟨[], rfl, by simp⟩

/-- Inside a SELECT, bare names are entries of its list or columns of its FROM list. -/
theorem Scope.provides_nest_listed (scope : Scope) (sources : List Source)
    (items : List SelectItem) (froms : List FromItem) :
    (scope.nest sources (listedNames items ++ providedNames froms)).Provides := by
  refine ⟨_, rfl, fun entry h => ?_⟩
  rcases List.mem_append.mp h with h | h
  · obtain ⟨item, -, named⟩ := List.mem_filterMap.mp (List.mem_reverse.mp h)
    split at named
    · rename_i key t
      obtain ⟨name, shown, rfl⟩ := Option.map_eq_some_iff.mp named
      unfold SelectItem.sortName? at shown
      split at shown
      · rename_i c same
        obtain ⟨-, rfl⟩ := SelectItem.expression.inj same
        exact Ends.columnText c
      · rename_i negated inner c same
        obtain ⟨-, rfl⟩ := SelectItem.expression.inj same
        exact Ends.namedText_condition negated inner c
      · rename_i name type same
        obtain ⟨-, rfl⟩ := SelectItem.expression.inj same
        exact Ends.namedText_parameter name type
      · cases shown
    · cases named
  · obtain ⟨c, -, rfl⟩ := List.mem_map.mp (List.mem_reverse.mp h)
    exact Ends.columnText c

/-! ### Statements -/

/-- What a statement selects rows by. -/
def Statement.conditions : Statement → List Term
  | .select s => s.conditions
  | .delete _ conditions | .update _ _ conditions => conditions

def Statement.whereKeyword : Statement → String
  | .select _ => " \nWHERE "
  | .delete .. | .update .. => " WHERE "

/-- A text of a statement shows `clause` as its WHERE clause, which may be no clause at all. -/
def Statement.ShowsWhere (s : Statement) (text clause : String) : Prop :=
  ∃ (before behind : String) (scope : Scope) (wheres : List String) (n n' : Naming),
    before ≠ "" ∧ scope.Provides ∧
    (Term.operandTexts scope (conditionOperator s.conditions) (shownConditions s.conditions)
      s.conditions).run n = .ok (wheres, n') ∧
    clause = conjunctionText s.whereKeyword s.conditions wheres ∧ text = before ++ clause ++ behind

/-- Every text of a statement shows its WHERE clause. -/
theorem Statement.text_ends (s : Statement) (scope : Scope) :
    Ends (fun text => ∃ clause, s.ShowsWhere text clause) (s.text scope) := by
  cases s with
  | select s =>
    obtain ⟨items, distinct, roots, joins, conditions, groupBy, having, orderBy, correlation, limit,
      offset, supplied⟩ := s
    rw [Statement.text, Select.text]
    dsimp only
    split
    · exact Ends.throw_bind _ _
    split
    · exact Ends.throw_bind _ _
    refine Ends.bind_any fun _ => Ends.bind_any fun _ => Ends.bind_any fun (all, pairings) => ?_
    refine Ends.bind_any fun _ => Ends.bind_any fun kept => ?_
    refine Ends.bind_any fun columns => Ends.bind_any fun froms => ?_
    refine Ends.bind_run fun wheres n n' hwheres => ?_
    refine Ends.bind_any fun groups => Ends.bind_any fun havings => ?_
    refine Ends.bind_any fun orders => Ends.bind_any fun bounds => Ends.pure ?_
    refine ⟨_, (if distinct then "SELECT DISTINCT " else "SELECT ") ++ ", ".intercalate columns ++
      clause " \nFROM " ", " froms, clause " GROUP BY " ", " (written groups) ++
        conjunctionText " \nHAVING " having havings ++
        clause " ORDER BY " ", " (written orders) ++ bounds, _, wheres, n, n', ?_,
      Scope.provides_nest_listed _ _ items all, hwheres, rfl, ?_⟩
    · split <;> simp [String.append_eq_empty_iff]
    · simp only [String.append_assoc]
      rfl
  | delete target conditions =>
    rw [Statement.text]
    refine Ends.bind_any fun table => Ends.bind_any fun others => ?_
    refine Ends.bind_run fun wheres n n' hwheres => Ends.pure ?_
    refine ⟨_, "DELETE FROM " ++ table ++ clause " , " ", " others, "", _, wheres, n, n', ?_,
      Scope.provides_nest_nil _ _, hwheres, rfl, ?_⟩
    · simp [String.append_eq_empty_iff]
    · simp [Statement.conditions, whereKeyword]
  | update target assignments conditions =>
    rw [Statement.text]
    refine Ends.bind_any fun table => Ends.bind_any fun sets => Ends.bind_any fun others => ?_
    refine Ends.bind_run fun wheres n n' hwheres => Ends.pure ?_
    refine ⟨_, "UPDATE " ++ table ++ clause " SET " ", " (sets.filterMap id) ++
      clause " FROM " ", " others, "", _, wheres, n, n', ?_, Scope.provides_nest_nil _ _, hwheres,
      rfl, ?_⟩
    · simp [String.append_eq_empty_iff]
    · simp [Statement.conditions, whereKeyword]

theorem Statement.text_ne_empty (s : Statement) (scope : Scope) :
    Ends (· ≠ "") (s.text scope) := by
  intro n n' text h
  obtain ⟨clause, before, behind, -, -, -, -, nonempty, -, -, -, rfl⟩ := s.text_ends scope n n' text h
  simp [String.append_eq_empty_iff, nonempty]

/-! ### Texts of expressions -/

section Texts

variable {scope : Scope}

mutual

/-- Inside a statement, an expression has an empty text exactly if it is blank. -/
theorem Term.text_ends (h : scope.Provides) (t : Term) :
    Ends (fun s => s = "" ↔ t.isBlank = true) (t.text scope) := by
  cases t with
  | column c =>
    rw [Term.text]
    exact fun n n' s hs => by simpa [isBlank] using Ends.columnText c n n' s hs
  | constant c =>
    rw [Term.text]
    exact Ends.pure (by cases c <;> simp [Constant.symbol, isBlank])
  | literal p =>
    rw [Term.text]
    exact Ends.bind_any fun _ => Ends.pure (by simp [String.append_eq_empty_iff, isBlank])
  | parameter name type =>
    rw [Term.text]
    exact Ends.bind_any fun _ => Ends.pure (by simp [String.append_eq_empty_iff, isBlank])
  | arithmetic op type ts =>
    rw [Term.text]
    refine Ends.bind (Term.operandTexts_ends h (.arithmetic op) ts) fun texts ht => Ends.pure ?_
    have symbol : (" " ++ op.symbol ++ " ") ≠ "" := by cases op <;> decide
    rw [intercalate_eq_empty symbol, isBlank, Bool.and_eq_true, ← ht.2, ← ht.1]
    match texts with
    | [] => simp [written]
    | [s] => simp [written_eq_nil]
    | s :: s' :: rest => simp
  | compare op reflexive left right =>
    rw [Term.text]
    exact Ends.bind_any fun _ => Ends.bind_any fun _ =>
      Ends.pure (by simp [String.append_eq_empty_iff, isBlank])
  | group op ts =>
    rw [Term.text]
    refine Ends.bind (Term.operandTexts_ends h (.connective op) ts) fun texts ht => Ends.pure ?_
    rw [intercalate_written_eq_empty (by cases op <;> decide), isBlank]
    exact ht.2
  | condition negated key t =>
    rw [Term.text]
    refine Ends.bind (Term.text_ends h t) fun s hs => Ends.pure ?_
    cases negated with
    | true => simp [String.append_eq_empty_iff, isBlank]
    | false => simp [enclose_eq_empty, isBlank, hs]
  | negation type t =>
    rw [Term.text]
    exact Ends.bind_any fun _ => Ends.pure (by simp [String.append_eq_empty_iff, isBlank])
  | function name type ts =>
    rw [Term.text]
    refine Ends.bind_any fun args => ?_
    split
    · rename_i text written
      exact Ends.pure (by simp [callText_ne_empty written, isBlank])
    · exact Ends.throw _
  | extract field t =>
    rw [Term.text]
    exact Ends.bind_any fun _ => Ends.bind_any fun _ =>
      Ends.pure (by simp [String.append_eq_empty_iff, isBlank])
  | cast type key t =>
    rw [Term.text]
    exact Ends.bind_any fun _ => Ends.pure (by simp [String.append_eq_empty_iff, isBlank])
  | star =>
    rw [Term.text]
    exact Ends.pure (by simp [isBlank])
  | distinct t =>
    rw [Term.text]
    exact Ends.bind_any fun _ => Ends.pure (by simp [String.append_eq_empty_iff, isBlank])
  | among negated t values =>
    rw [Term.text]
    refine Ends.bind_any fun _ => Ends.bind_any fun _ => Ends.pure ?_
    split <;> simp [String.append_eq_empty_iff, isBlank]
  | nonempty s =>
    rw [Term.text]
    exact Ends.bind_any fun _ => Ends.pure (by simp [String.append_eq_empty_iff, isBlank])
  | scalar s =>
    rw [Term.text]
    exact Ends.bind_any fun _ => Ends.pure (by simp [String.append_eq_empty_iff, isBlank])
  | whole s =>
    rw [Term.text]
    exact fun n n' text hs => by simpa [isBlank] using Statement.text_ne_empty s scope n n' text hs
  | sorted d t =>
    rw [Term.text]
    refine Ends.bind_any fun _ => Ends.pure ?_
    cases d <;> simp [String.append_eq_empty_iff, Direction.symbol, isBlank]
  | label name =>
    rw [Term.text]
    exact fun n n' s hs => by simpa [isBlank] using Ends.bareText h name n n' s hs

/-- There is a text per operand, and those of blank operands alone are empty. -/
theorem Term.operandTexts_ends (h : scope.Provides) (outer : Operator) (ts : List Term) :
    Ends (fun texts => texts.length = ts.length ∧
      (written texts = [] ↔ Term.allBlank outer ts = true))
      (Term.operandTexts scope outer (fun _ => true) ts) := by
  cases ts with
  | nil =>
    rw [Term.operandTexts]
    exact Ends.pure (by simp [written, allBlank])
  | cons t ts =>
    rw [Term.operandTexts]
    refine Ends.bind (Term.text_ends h t) fun s hs => ?_
    refine Ends.bind (Term.operandTexts_ends h outer ts) fun texts ht => Ends.pure ?_
    simp only [written_eq_nil] at ht
    simp [written_eq_nil, allBlank, enclose_eq_empty, hs, ht]

end

theorem Term.operandTexts_filter (outer : Operator) (keep : Term → Bool) (ts : List Term) :
    Term.operandTexts scope outer keep ts =
      Term.operandTexts scope outer (fun _ => true) (ts.filter keep) := by
  induction ts with
  | nil => simp only [List.filter_nil, Term.operandTexts]
  | cons t ts ih =>
    rw [Term.operandTexts]
    split
    · rename_i kept
      rw [List.filter_cons_of_pos kept, Term.operandTexts, ih]
      rfl
    · rename_i dropped
      rw [List.filter_cons_of_neg dropped, ih]

end Texts

/-! ### Clauses -/

theorem Connective.isConstant_iff {c : Constant} {t : Term} :
    isConstant c t = true ↔ t = .constant c := by
  unfold isConstant
  split
  · rw [beq_iff_eq, Term.constant.injEq, eq_comm]
  · rename_i other
    exact ⟨fun h => (Bool.false_ne_true h).elim, fun h => (other c h).elim⟩

theorem Term.allBlank_eq_true {outer : Operator} {ts : List Term} :
    Term.allBlank outer ts = true ↔ ∀ t ∈ ts, t.isBlank = true ∧ t.enclosedIn outer = false := by
  induction ts with
  | nil => simp [allBlank]
  | cons t ts ih => simp [allBlank, ih, and_assoc]

/-- A constant among the conditions a clause shows is never left out. -/
theorem saysNothing_of_constant {c : Constant} {ts : List Term} (mem : .constant c ∈ ts)
    (shown : shownConditions ts (.constant c) = true) : saysNothing ts = false := by
  rw [← Bool.not_eq_true, saysNothing, Term.allBlank_eq_true]
  intro blank
  have := (blank _ (List.mem_filter.mpr ⟨mem, shown⟩)).1
  simp [Term.isBlank] at this

theorem clause_eq_empty {keyword separator : String} (h : keyword ≠ "") {parts : List String} :
    clause keyword separator parts = "" ↔ parts = [] := by
  cases parts <;> simp [clause, String.append_eq_empty_iff, h]

/-- A clause is left out exactly if its conditions say nothing. -/
theorem conjunctionText_eq_empty {keyword : String} (hk : keyword ≠ "") {scope : Scope}
    (h : scope.Provides) {ts : List Term} {texts : List String} {n n' : Naming}
    (ht : (Term.operandTexts scope (conditionOperator ts) (shownConditions ts) ts).run n =
      .ok (texts, n')) :
    conjunctionText keyword ts texts = "" ↔ saysNothing ts = true := by
  rw [Term.operandTexts_filter] at ht
  obtain ⟨length, blank⟩ := Term.operandTexts_ends h _ _ n n' texts ht
  unfold conjunctionText
  split
  · rename_i anyFalse
    obtain ⟨t, mem, isFalse⟩ := List.any_eq_true.mp anyFalse
    obtain rfl := Connective.isConstant_iff.mp isFalse
    have shown : shownConditions ts (.constant .false) = true := by
      unfold shownConditions
      split <;> rfl
    simp [saysNothing_of_constant mem shown, String.append_eq_empty_iff, hk]
  split
  · rename_i allTrue
    rw [clause_eq_empty hk]
    have shown : ts.filter (shownConditions ts) = ts := by simp [shownConditions, allTrue]
    rw [shown] at length
    match ts with
    | [] => simp_all [saysNothing, Term.allBlank]
    | t :: ts =>
      obtain rfl := Connective.isConstant_iff.mp (List.all_eq_true.mp allTrue t (by simp))
      rw [saysNothing_of_constant (c := .true) (by simp) (by simp [shownConditions, allTrue])]
      cases texts <;> simp_all
  · rw [clause_eq_empty hk]
    exact blank

/-- What a text shows as its WHERE clause is a clause exactly if the conditions say something. -/
theorem Statement.ShowsWhere.eq_empty_iff {s : Statement} {text clause : String}
    (h : s.ShowsWhere text clause) : clause = "" ↔ saysNothing s.conditions = true := by
  obtain ⟨before, behind, scope, wheres, n, n', -, provides, hwheres, rfl, -⟩ := h
  exact conjunctionText_eq_empty (by cases s <;> simp [whereKeyword]) provides hwheres

theorem Statement.shows_of_render {s : Statement} {r : Rendered} (h : s.render = .ok r) :
    ∃ clause, s.ShowsWhere r.text clause := by
  obtain ⟨⟨text, n⟩, shown, h⟩ := Except.bind_eq_ok.mp h
  obtain rfl := Except.ok.inj h
  exact s.text_ends .top .empty n text shown

/-! ### Conditions the library makes -/

theorem Term.operator?_ne_outermost (t : Term) : t.operator? ≠ some .outermost := by
  unfold operator?
  split <;> simp

theorem Term.enclosedIn_outermost (t : Term) : t.enclosedIn .outermost = false := by
  unfold enclosedIn
  split
  · rfl
  · rename_i inner h
    cases inner with
    | outermost => exact absurd h t.operator?_ne_outermost
    | arithmetic op => cases op <;> rfl
    | connective op => cases op <;> rfl
    | _ => rfl

/-- A single condition stands without parentheses, even if it is constant. -/
theorem saysNothing_singleton (t : Term) : saysNothing [t] = t.isBlank := by
  have shown : [t].filter (shownConditions [t]) = [t] := by
    unfold shownConditions
    split <;> simp_all
  unfold saysNothing conditionOperator
  rw [shown]
  simp [Term.allBlank, Term.enclosedIn_outermost]

end FluentQuery.Sql
