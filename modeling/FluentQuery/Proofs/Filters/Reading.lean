import FluentQuery.Proofs.Filters.Truth

/-! How SQL reads the text of conditions. OR binds least, then AND, then NOT, and parentheses
override them. A condition is written so that it reads as what it says: none of its
parts is taken by a connective next to it. -/

namespace FluentQuery.Sql

/-! ### Words -/

/-- The words of a condition. -/
inductive Word where
  /-- An atomic condition, as it is written. -/
  | atom (t : Term) (text : String)
  | constant (c : Constant)
  | not
  | connective (op : Connective)
  | opening
  | closing

def Word.text : Word → String
  | atom _ text => text
  | constant c => c.symbol
  | not => "NOT "
  | connective op => " " ++ op.symbol ++ " "
  | opening => "("
  | closing => ")"

def spell : List Word → String
  | [] => ""
  | w :: ws => w.text ++ spell ws

@[simp] theorem spell_append (ws vs : List Word) : spell (ws ++ vs) = spell ws ++ spell vs := by
  induction ws with
  | nil => simp [spell]
  | cons w ws ih => simp [spell, ih, String.append_assoc]

/-- Atomic conditions are written as a statement renders them. -/
def Word.IsFrom (scope : Scope) : Word → Prop
  | atom t text => ∃ n n', (t.text scope).run n = .ok (text, n')
  | _ => True

/-! ### Reading -/

variable {α : Type} [Logic α]

/-- What was read inside one pair of parentheses. -/
structure Level (α : Type) where
  /-- What stands before the last OR. -/
  earlier : α
  /-- What stands behind it. -/
  current : α
  negated : Bool
  /-- Whether an operand has to follow. -/
  awaiting : Bool

namespace Level

def start : Level α := ⟨Logic.constant .false, Logic.constant .true, false, true⟩

/-- One operand more: it belongs to the conjunction behind the last OR. -/
def operand (l : Level α) (x : α) : Level α :=
  { l with
    current := Logic.and l.current (if l.negated then Logic.not x else x)
    negated := false
    awaiting := false }

def value (l : Level α) : α := Logic.or l.earlier l.current

end Level

/-- Reads one word, inside the levels of the parentheses that are open. -/
def Word.read (a : Term → α) (w : Word) (l : Level α) (outer : List (Level α)) :
    Option (Level α × List (Level α)) :=
  match w, l.awaiting, outer with
  | atom t _, true, outer => some (l.operand (a t), outer)
  | constant c, true, outer => some (l.operand (Logic.constant c), outer)
  | not, true, outer => some ({ l with negated := !l.negated }, outer)
  | connective .and, false, outer => some ({ l with awaiting := true }, outer)
  | connective .or, false, outer => some ({ Level.start with earlier := l.value }, outer)
  | opening, true, outer => some (Level.start, l :: outer)
  | closing, false, o :: outer => some (o.operand l.value, outer)
  | _, _, _ => none

def readWords (a : Term → α) (ws : List Word) (l : Level α) (outer : List (Level α)) :
    Option (Level α × List (Level α)) :=
  ws.foldlM (fun s w => w.read a s.1 s.2) (l, outer)

/-- What SQL reads a sequence of words as, if they make up a condition. -/
def reading (a : Term → α) (ws : List Word) : Option α :=
  match readWords a ws .start [] with
  | some (l, []) => if l.awaiting then none else some l.value
  | _ => none

/-- What may stand beside a text without taking a part of it. -/
inductive Grade where
  /-- Anything. -/
  | single
  /-- AND and OR. -/
  | conjunction
  /-- OR alone. -/
  | disjunction
  deriving DecidableEq

/-- Words that read as `x`, wherever their grade lets them stand. -/
def Reads (a : Term → α) (ws : List Word) (x : α) : Grade → Prop
  | .single => ∀ (l : Level α) outer, l.awaiting = true →
      readWords a ws l outer = some (l.operand x, outer)
  | .conjunction => ∀ (l : Level α) outer, l.awaiting = true → l.negated = false →
      readWords a ws l outer = some (l.operand x, outer)
  | .disjunction => ∀ (l : Level α) outer, l.awaiting = true → l.negated = false →
      l.current = Logic.constant .true →
      ∃ l', readWords a ws l outer = some (l', outer) ∧ l'.awaiting = false ∧
        l'.negated = false ∧ l'.value = Logic.or l.earlier x

/-- The loosest grade that operands of a connective need. -/
def Connective.grade : Connective → Grade
  | .and => .conjunction
  | .or => .disjunction

namespace Reads

variable {a : Term → α} {ws vs : List Word} {x y : α}

theorem readWords_append (l : Level α) (outer : List (Level α)) :
    readWords a (ws ++ vs) l outer =
      (readWords a ws l outer).bind fun s => readWords a vs s.1 s.2 := by
  unfold readWords
  rw [List.foldlM_append]
  rfl

theorem readWords_cons (w : Word) (l : Level α) (outer : List (Level α)) :
    readWords a (w :: ws) l outer =
      (w.read a l outer).bind fun s => readWords a ws s.1 s.2 := by
  unfold readWords
  rw [List.foldlM_cons]
  rfl

theorem toConjunction (h : Reads a ws x .single) : Reads a ws x .conjunction :=
  fun l outer awaiting _ => h l outer awaiting

theorem toDisjunction (h : Reads a ws x .conjunction) : Reads a ws x .disjunction := by
  intro l outer awaiting positive neutral
  refine ⟨l.operand x, h l outer awaiting positive, rfl, rfl, ?_⟩
  simp [Level.value, Level.operand, positive, neutral]

/-- What stands on its own may stand anywhere. -/
theorem of_single (h : Reads a ws x .single) (g : Grade) : Reads a ws x g := by
  cases g with
  | single => exact h
  | conjunction => exact h.toConjunction
  | disjunction => exact h.toConjunction.toDisjunction

theorem atom (t : Term) (text : String) : Reads a [.atom t text] (a t) .single := by
  intro l outer awaiting
  have next : (Word.atom t text).read a l outer = some (l.operand (a t), outer) := by
    unfold Word.read
    rw [awaiting]
  rw [readWords_cons, next]
  rfl

theorem constant (c : Constant) : Reads a [.constant c] (Logic.constant c) .single := by
  intro l outer awaiting
  have next : (Word.constant c).read a l outer =
      some (l.operand (Logic.constant c), outer) := by
    unfold Word.read
    rw [awaiting]
  rw [readWords_cons, next]
  rfl

theorem not (h : Reads a ws x .single) : Reads a (.not :: ws) (Logic.not x) .single := by
  intro l outer awaiting
  have next : Word.not.read a l outer = some ({ l with negated := !l.negated }, outer) := by
    unfold Word.read
    rw [awaiting]
  rw [readWords_cons, next, Option.bind_some, h { l with negated := !l.negated } outer awaiting]
  cases negated : l.negated <;> simp [Level.operand, negated]

/-- Parentheses let anything stand anywhere. -/
theorem enclosed (h : Reads a ws x .disjunction) :
    Reads a (.opening :: ws ++ [.closing]) x .single := by
  intro l outer awaiting
  obtain ⟨inner, reads, done, -, value⟩ := h .start (l :: outer) rfl rfl rfl
  have opened : Word.opening.read a l outer = some (Level.start, l :: outer) := by
    unfold Word.read
    rw [awaiting]
  have closed : Word.closing.read a inner (l :: outer) = some (l.operand inner.value, outer) := by
    unfold Word.read
    rw [done]
  rw [List.cons_append, readWords_cons, opened, Option.bind_some, readWords_append, reads,
    Option.bind_some, readWords_cons, closed, value]
  simp [Level.start, readWords]

/-- Two operands of a connective. -/
theorem joined {op : Connective} (hx : Reads a ws x op.grade) (hy : Reads a vs y op.grade) :
    Reads a (ws ++ .connective op :: vs) (op.meaning x y) op.grade := by
  cases op with
  | and =>
    intro l outer awaiting positive
    have next : (Word.connective .and).read a (l.operand x) outer =
        some ({ l.operand x with awaiting := true }, outer) := rfl
    rw [readWords_append, hx l outer awaiting positive, Option.bind_some, readWords_cons, next,
      Option.bind_some, hy _ outer rfl rfl]
    simp [Level.operand, positive, Connective.meaning, Logic.and_assoc]
  | or =>
    intro l outer awaiting positive neutral
    obtain ⟨l₁, reads, done, -, value⟩ := hx l outer awaiting positive neutral
    have next : (Word.connective .or).read a l₁ outer =
        some ({ Level.start with earlier := l₁.value }, outer) := by
      unfold Word.read
      rw [done]
    obtain ⟨l₂, reads', done', positive', value'⟩ :=
      hy { Level.start with earlier := l₁.value } outer rfl rfl rfl
    refine ⟨l₂, ?_, done', positive', ?_⟩
    · rw [readWords_append, reads, Option.bind_some, readWords_cons, next, Option.bind_some, reads']
    · rw [value', value, Connective.meaning, Logic.or_assoc]

theorem reading_eq (h : Reads a ws x .disjunction) : reading a ws = some x := by
  obtain ⟨l, reads, done, -, value⟩ := h .start [] rfl rfl rfl
  rw [reading, reads]
  simp [done, value, Level.start]

example (a : Term → Truth) (t u v : Term) :
    reading a [.atom t "t", .connective .or, .atom u "u", .connective .and, .not, .atom v "v"] =
      some ((a t).or ((a u).and (a v).not)) := rfl

end Reads

/-! ### Conditions -/

/-- How tightly a condition holds together without parentheses. -/
def Term.grade : Term → Grade
  | .group op _ => op.grade
  | _ => .single

/-- A text of a condition that reads as what the condition says. -/
def Term.ReadsAs (scope : Scope) (g : Grade) (t : Term) (text : String) : Prop :=
  ∃ ws, spell ws = text ∧ (∀ w ∈ ws, w.IsFrom scope) ∧
    ∀ {α : Type} [Logic α] (a : Term → α), Reads a ws (t.truth a) g

namespace Term.ReadsAs

variable {scope : Scope} {t : Term} {text : String}

theorem of_single (h : t.ReadsAs scope .single text) (g : Grade) : t.ReadsAs scope g text := by
  obtain ⟨ws, spelled, written, reads⟩ := h
  exact ⟨ws, spelled, written, fun a => (reads a).of_single g⟩

theorem toDisjunction {g : Grade} (h : t.ReadsAs scope g text) :
    t.ReadsAs scope .disjunction text := by
  obtain ⟨ws, spelled, written, reads⟩ := h
  refine ⟨ws, spelled, written, fun a => ?_⟩
  cases g with
  | single => exact (reads a).of_single _
  | conjunction => exact (reads a).toDisjunction
  | disjunction => exact reads a

theorem enclosed {g : Grade} (h : t.ReadsAs scope g text) :
    t.ReadsAs scope .single ("(" ++ text ++ ")") := by
  obtain ⟨ws, spelled, written, reads⟩ := h.toDisjunction
  refine ⟨.opening :: ws ++ [.closing], ?_, ?_, fun a => (reads a).enclosed⟩
  · simp [spell, Word.text, spelled, String.append_assoc]
  · intro w hw
    rcases List.mem_cons.mp hw with rfl | hw
    · trivial
    rcases List.mem_append.mp hw with hw | hw
    · exact written w hw
    · rw [List.mem_singleton.mp hw]
      trivial

/-- An operand of a connective is enclosed if the connective would take a part of it. -/
theorem enclose_connective (op : Connective) (complete : t.isComplete = true)
    (h : t.ReadsAs scope t.grade text) :
    t.ReadsAs scope op.grade (enclose (.connective op) t text) := by
  unfold enclose
  split
  · exact h.enclosed.of_single _
  · rename_i bare
    cases t with
    | group op' ts =>
      obtain ⟨nonempty, -⟩ := isComplete_group.mp complete
      cases ts with
      | nil => exact absurd rfl nonempty
      | cons t ts =>
        cases op <;> cases op'
        · exact h
        · exact absurd rfl bare
        · exact h.toDisjunction
        · exact h
    | _ => exact h.of_single _

/-- An operand of NOT is enclosed if NOT would take only a part of it. -/
theorem enclose_negation (complete : t.isComplete = true) (h : t.ReadsAs scope t.grade text) :
    t.ReadsAs scope .single (enclose .negation t text) := by
  unfold enclose
  split
  · exact h.enclosed
  · rename_i bare
    cases t with
    | group op ts =>
      obtain ⟨nonempty, -⟩ := isComplete_group.mp complete
      cases ts with
      | nil => exact absurd rfl nonempty
      | cons t ts => cases op <;> exact absurd rfl bare
    | _ => exact h

theorem negation {u : Term} (h : t.ReadsAs scope .single text)
    (hu : ∀ {α : Type} [Logic α] (a : Term → α), u.truth a = Logic.not (t.truth a)) :
    u.ReadsAs scope .single ("NOT " ++ text) := by
  obtain ⟨ws, spelled, written, reads⟩ := h
  refine ⟨.not :: ws, ?_, ?_, fun a => ?_⟩
  · simp [spell, Word.text, spelled]
  · simpa [Word.IsFrom] using written
  · rw [hu]
    exact (reads a).not

theorem reading_eq {g : Grade} (h : t.ReadsAs scope g text) : ∃ ws, spell ws = text ∧
    (∀ w ∈ ws, w.IsFrom scope) ∧
    ∀ {α : Type} [Logic α] (a : Term → α), reading a ws = some (t.truth a) := by
  obtain ⟨ws, spelled, written, reads⟩ := h.toDisjunction
  exact ⟨ws, spelled, written, fun a => (reads a).reading_eq⟩

end Term.ReadsAs

section Texts

variable {scope : Scope}

/-- The operands of a connective with their texts make up a condition that reads as what they say
together. -/
theorem Term.readsAs_group {op : Connective} {ts : List Term} {texts : List String}
    (nonempty : ts ≠ []) (complete : ∀ t ∈ ts, t.isComplete = true)
    (h : List.Forall₂ (fun t text => t.ReadsAs scope op.grade text) ts texts) :
    (Term.group op ts).ReadsAs scope op.grade ((" " ++ op.symbol ++ " ").intercalate texts) := by
  induction h with
  | nil => exact absurd rfl nonempty
  | @cons t text ts texts first rest ih =>
    obtain ⟨ws, spelled, written, reads⟩ := first
    have said {α : Type} [Logic α] (a : Term → α) : t.value? a = some (t.truth a) :=
      value?_of_isComplete (complete t List.mem_cons_self)
    cases rest with
    | nil =>
      refine ⟨ws, by rw [spelled, String.intercalate_singleton], written, fun a => ?_⟩
      have same : (Term.group op [t]).truth a = t.truth a := by
        rw [truth, value?, joint?, said, joint?]
        rfl
      exact same ▸ reads a
    | @cons u text' ts texts second rest =>
      have more : ∀ t ∈ u :: ts, t.isComplete = true :=
        fun t ht => complete t (List.mem_cons_of_mem _ ht)
      obtain ⟨vs, spelled', written', reads'⟩ := ih (List.cons_ne_nil _ _) more
      refine ⟨ws ++ .connective op :: vs, ?_, ?_, fun a => ?_⟩
      · simp [spell, Word.text, spelled, spelled', String.intercalate_cons_cons,
          String.append_assoc]
      · intro w hw
        rcases List.mem_append.mp hw with hw | hw
        · exact written w hw
        rcases List.mem_cons.mp hw with rfl | hw
        · trivial
        · exact written' w hw
      · have joint : Term.joint? a op (u :: ts) = some ((Term.group op (u :: ts)).truth a) := by
          have whole : (Term.group op (u :: ts)).isComplete = true :=
            isComplete_group.mpr ⟨List.cons_ne_nil _ _, more⟩
          rw [← value?_of_isComplete whole, value?]
        have both : (Term.group op (t :: u :: ts)).truth a =
            op.meaning (t.truth a) ((Term.group op (u :: ts)).truth a) := by
          rw [truth, value?, joint?, said, joint]
          rfl
        exact both ▸ (reads a).joined (reads' a)

/-- Nothing is left out if there are no empty texts. -/
theorem written_eq_self {ts : List Term} {texts : List String}
    (h : List.Forall₂ (fun _ text => text ≠ "") ts texts) : written texts = texts := by
  induction h with
  | nil => rfl
  | cons first _ ih =>
    unfold written at ih ⊢
    rw [List.filter_cons_of_pos (by simpa using first), ih]

/-- An atomic condition is read as one word. -/
theorem Term.text_reads_atom {t : Term}
    (atomic : ∀ {α : Type} [Logic α] (a : Term → α), t.value? a = some (a t)) :
    Ends (t.ReadsAs scope .single) (t.text scope) := by
  intro n n' text h
  refine ⟨[.atom t text], by simp [spell, Word.text], ?_, fun a => ?_⟩
  · simpa [Word.IsFrom] using ⟨n, n', h⟩
  · rw [truth, atomic]
    exact .atom t text

theorem Term.text_ne_empty (h : scope.Provides) {t : Term} (complete : t.isComplete = true) :
    Ends (· ≠ "") (t.text scope) := by
  intro n n' text ht empty
  have blank := (t.text_ends h n n' text ht).mp empty
  rw [isBlank_of_isComplete complete] at blank
  cases blank

mutual

/-- A complete condition is written so that it reads as what it says. -/
theorem Term.text_reads (h : scope.Provides) {t : Term} (complete : t.isComplete = true) :
    Ends (t.ReadsAs scope t.grade) (t.text scope) := by
  cases t with
  | constant c =>
    rw [Term.text]
    refine Ends.pure ⟨[.constant c], by simp [spell, Word.text], by simp [Word.IsFrom], fun a => ?_⟩
    rw [truth_constant]
    exact .constant c
  | group op ts =>
    obtain ⟨nonempty, all⟩ := isComplete_group.mp complete
    rw [Term.text]
    refine Ends.bind (Term.operandTexts_read h op all) fun texts ht => Ends.pure ?_
    rw [written_eq_self (ht.imp fun _ _ both => both.2)]
    exact Term.readsAs_group nonempty all (ht.imp fun _ _ both => both.1)
  | condition negated key t =>
    rw [Term.text]
    have inner : t.isComplete = true := complete
    refine Ends.bind (Term.text_reads h inner) fun text ht => Ends.pure ?_
    have operand := ht.enclose_negation inner
    cases negated with
    | true => exact operand.negation fun _ => truth_condition inner true key
    | false =>
      obtain ⟨ws, spelled, written, reads⟩ := operand
      refine ⟨ws, spelled, written, fun a => ?_⟩
      rw [truth_condition inner false key]
      exact reads a
  | negation type t =>
    rw [Term.text]
    have inner : t.isComplete = true := complete
    refine Ends.bind (Term.text_reads h inner) fun text ht => Ends.pure ?_
    exact (ht.enclose_negation inner).negation fun _ => truth_negation inner type
  | _ => exact Term.text_reads_atom fun a => by simp [value?]

/-- The texts of the operands of a connective, none of which is empty. -/
theorem Term.operandTexts_read (h : scope.Provides) (op : Connective) {ts : List Term}
    (complete : ∀ t ∈ ts, t.isComplete = true) :
    Ends (List.Forall₂ (fun t text => t.ReadsAs scope op.grade text ∧ text ≠ "") ts)
      (Term.operandTexts scope (.connective op) (fun _ => true) ts) := by
  cases ts with
  | nil =>
    rw [Term.operandTexts]
    exact Ends.pure .nil
  | cons t ts =>
    have inner := complete t List.mem_cons_self
    rw [Term.operandTexts]
    refine Ends.bind_run fun text n n' ht => ?_
    refine Ends.bind (Term.operandTexts_read h op fun t ht => complete t (List.mem_cons_of_mem _ ht))
      fun texts rest => Ends.pure (.cons ⟨?_, ?_⟩ rest)
    · exact (Term.text_reads h inner n n' text ht).enclose_connective op inner
    · exact fun empty => Term.text_ne_empty h inner n n' text ht (enclose_eq_empty.mp empty).1

end

/-! ### Clauses -/

section Clauses

variable {keyword : String} {ts : List Term} {texts : List String} {n n' : Naming}

/-- A clause of the constant true alone shows it once. -/
theorem conjunctionText_of_true (nonempty : ts ≠ [])
    (allTrue : ts.all (Connective.isConstant .true) = true)
    (ht : (Term.operandTexts scope (conditionOperator ts) (shownConditions ts) ts).run n =
      .ok (texts, n')) : conjunctionText keyword ts texts = keyword ++ spell [.constant .true] := by
  have notFalse : ts.any (Connective.isConstant .false) = false := by
    rw [List.any_eq_false]
    intro t ht
    rw [Connective.isConstant_iff.mp (List.all_eq_true.mp allTrue t ht)]
    decide
  have all : ts.filter (shownConditions ts) = ts := by simp [shownConditions, allTrue]
  rw [Term.operandTexts_filter, all] at ht
  obtain ⟨t, us, rfl⟩ := List.exists_cons_of_ne_nil nonempty
  obtain rfl := Connective.isConstant_iff.mp (List.all_eq_true.mp allTrue t List.mem_cons_self)
  rw [Term.operandTexts, Term.text] at ht
  obtain ⟨s, n₁, hs, ht⟩ := run_bind_eq_ok.mp ht
  obtain ⟨rfl, rfl⟩ := Prod.mk.inj (Except.ok.inj hs)
  obtain ⟨rest, n₂, -, ht⟩ := run_bind_eq_ok.mp ht
  obtain ⟨rfl, -⟩ := Prod.mk.inj (Except.ok.inj ht)
  rw [conjunctionText, notFalse, allTrue]
  rfl

/-- The conditions that a clause shows are a conjunction that is written as a group is. -/
theorem written_reads (h : scope.Provides) (nonempty : ts ≠ [])
    (complete : ∀ t ∈ ts, t.isComplete = true)
    (ht : (Term.operandTexts scope (if ts.length > 1 then .connective .and else .outermost)
      (fun _ => true) ts).run n = .ok (texts, n')) :
    texts ≠ [] ∧ written texts = texts ∧
      (Term.group .and ts).ReadsAs scope .disjunction (" AND ".intercalate texts) := by
  split at ht
  · have read := Term.operandTexts_read h .and complete n n' texts ht
    refine ⟨?_, written_eq_self (read.imp fun _ _ both => both.2), ?_⟩
    · rintro rfl
      cases read
      exact nonempty rfl
    · exact (Term.readsAs_group nonempty complete (read.imp fun _ _ both => both.1)).toDisjunction
  · rename_i short
    obtain ⟨t, us, rfl⟩ := List.exists_cons_of_ne_nil nonempty
    obtain rfl : us = [] := List.eq_nil_of_length_eq_zero (by simp at short; simpa using short)
    rw [Term.operandTexts, Term.operandTexts] at ht
    obtain ⟨s, n₁, hs, ht⟩ := run_bind_eq_ok.mp ht
    obtain ⟨rest, n₂, hrest, ht⟩ := run_bind_eq_ok.mp ht
    obtain ⟨rfl, rfl⟩ := Prod.mk.inj (Except.ok.inj hrest)
    obtain ⟨rfl, rfl⟩ := Prod.mk.inj (Except.ok.inj ht)
    have inner := complete t List.mem_cons_self
    rw [enclose, if_neg (by rw [Term.enclosedIn_outermost]; decide)]
    refine ⟨List.cons_ne_nil _ _, ?_, ?_⟩
    · exact written_eq_self (.cons (a := t) (Term.text_ne_empty h inner n _ s hs) .nil)
    · rw [String.intercalate_singleton]
      obtain ⟨ws, spelled, from_, reads⟩ := (Term.text_reads h inner n _ s hs).toDisjunction
      refine ⟨ws, spelled, from_, fun a => ?_⟩
      rw [Term.truth_and, Term.conjunction_singleton]
      exact reads a

/-- A clause with complete conditions reads as their conjunction. -/
theorem conjunctionText_reads (h : scope.Provides) (nonempty : ts ≠ [])
    (complete : ∀ t ∈ ts, t.isComplete = true)
    (ht : (Term.operandTexts scope (conditionOperator ts) (shownConditions ts) ts).run n =
      .ok (texts, n')) :
    ∃ ws, conjunctionText keyword ts texts = keyword ++ spell ws ∧ (∀ w ∈ ws, w.IsFrom scope) ∧
      ∀ {α : Type} [Logic α] (a : Term → α), reading a ws = some (Term.conjunction a ts) := by
  have constant (c : Constant) : (∀ w ∈ [Word.constant c], w.IsFrom scope) ∧
      ∀ {α : Type} [Logic α] (a : Term → α), reading a [.constant c] = some (Logic.constant c) :=
    ⟨by simp [Word.IsFrom], fun a => ((Reads.constant c).of_single _).reading_eq⟩
  by_cases anyFalse : ts.any (Connective.isConstant .false)
  · obtain ⟨t, mem, isFalse⟩ := List.any_eq_true.mp anyFalse
    obtain rfl := Connective.isConstant_iff.mp isFalse
    refine ⟨[.constant .false], ?_, (constant _).1, fun a => ?_⟩
    · rw [conjunctionText, if_pos anyFalse]
      rfl
    · rw [(constant .false).2, Connective.conjunction_of_false mem]
  by_cases allTrue : ts.all (Connective.isConstant .true)
  · refine ⟨_, conjunctionText_of_true nonempty allTrue ht, (constant _).1, fun a => ?_⟩
    have none : ts.filter (fun t => !Connective.isConstant .true t) = [] :=
      List.filter_eq_nil_iff.mpr fun t ht => by simpa using List.all_eq_true.mp allTrue t ht
    rw [(constant .true).2, ← Connective.conjunction_filter, none, Term.conjunction_nil]
  have shown : shownConditions ts = fun t => !Connective.isConstant .true t := by
    simp [shownConditions, allTrue]
  have some : ts.filter (shownConditions ts) ≠ [] := by
    rw [shown]
    intro none
    refine allTrue (List.all_eq_true.mpr fun t ht => ?_)
    simpa using List.filter_eq_nil_iff.mp none t ht
  rw [Term.operandTexts_filter, conditionOperator] at ht
  obtain ⟨texts_ne, all, reads⟩ :=
    written_reads h some (fun t ht => complete t (List.mem_filter.mp ht).1) ht
  obtain ⟨ws, spelled, from_, reads⟩ := reads.reading_eq
  refine ⟨ws, ?_, from_, fun a => ?_⟩
  · rw [conjunctionText, if_neg anyFalse, if_neg allTrue, all, clause, spelled]
    cases texts with
    | nil => exact absurd rfl texts_ne
    | cons => rfl
  · rw [reads, Term.truth_and, shown, Connective.conjunction_filter]

end Clauses

/-- What the text of a statement shows as its WHERE clause reads as the conjunction of its
conditions, if these are complete. -/
theorem Statement.ShowsWhere.reads {s : Statement} {text clause : String}
    (h : s.ShowsWhere text clause) (nonempty : s.conditions ≠ [])
    (complete : ∀ t ∈ s.conditions, t.isComplete = true) :
    ∃ scope ws, clause = s.whereKeyword ++ spell ws ∧ (∀ w ∈ ws, w.IsFrom scope) ∧
      ∀ {α : Type} [Logic α] (a : Term → α),
        reading a ws = some (Term.conjunction a s.conditions) := by
  obtain ⟨before, behind, scope, wheres, n, n', -, provides, hwheres, rfl, -⟩ := h
  exact ⟨scope, conjunctionText_reads provides nonempty complete hwheres⟩

end Texts

/-- A statement selects the rows for which all of these conditions are true. Its WHERE clause has
the value of their conjunction, and is written so that SQL reads it as that. -/
structure Statement.SelectsWhere (st : Statement) (ts : List Term) : Prop where
  value : ∀ {α : Type} [Logic α] (a : Term → α),
    Term.conjunction a st.conditions = Term.conjunction a ts
  text : (∀ t ∈ ts, t.isComplete = true) → ∀ r, st.render = .ok r →
    ∃ clause, st.ShowsWhere r.text clause ∧
      (ts = [] ∧ clause = "" ∨ ∃ scope ws, clause = st.whereKeyword ++ spell ws ∧
        (∀ w ∈ ws, w.IsFrom scope) ∧
        ∀ {α : Type} [Logic α] (a : Term → α), reading a ws = some (Term.conjunction a ts))

theorem Statement.selectsWhere_of_conditions {st : Statement} {ts : List Term}
    (value : ∀ {α : Type} [Logic α] (a : Term → α),
      Term.conjunction a st.conditions = Term.conjunction a ts)
    (complete : (∀ t ∈ ts, t.isComplete = true) → ∀ t ∈ st.conditions, t.isComplete = true)
    (none : st.conditions = [] → ts = []) : st.SelectsWhere ts := by
  refine ⟨value, fun all r hr => ?_⟩
  obtain ⟨clause, shows⟩ := shows_of_render hr
  refine ⟨clause, shows, ?_⟩
  by_cases empty : st.conditions = []
  · refine .inl ⟨none empty, shows.eq_empty_iff.mpr ?_⟩
    rw [empty]
    rfl
  · obtain ⟨scope, ws, spelled, written, reads⟩ := shows.reads empty (complete all)
    exact .inr ⟨scope, ws, spelled, written, fun a => (reads a).trans (congrArg some (value a))⟩

end FluentQuery.Sql
