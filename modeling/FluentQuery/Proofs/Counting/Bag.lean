import Mathlib.Data.List.Dedup
import FluentQuery.Statement

/-! The bag meaning of a SELECT, over the rows that its FROM list, joins and conditions
produce: the values of the select list on each row, without duplicates after DISTINCT,
then what OFFSET and LIMIT leave of them. A select list that is a single count gives one
row with a number. -/

namespace FluentQuery.Sql

/-- What select lists are worth on rows of type `ρ`, in values of type `ν`; none stands for NULL.
Rows that are sorted are the same rows in another order. A plain value is worth the same on every
row, whether it is written out or sent as a parameter, and a whole row is worth something. -/
structure Worth (ρ ν : Type) where
  entity : Mapped → ρ → Option ν
  term : Term → ρ → Option ν
  verbatim : String → ρ → Option ν
  number : Nat → ν
  sort : List Term → List ρ → List ρ
  sort_perm : ∀ keys rows, (sort keys rows).Perm rows
  number_injective : Function.Injective number
  constant : ∀ b, ∃ x, ∀ r, term (.constant (.ofBool b)) r = some x
  parameter : ∀ p : Placeholder, p.value.type ≠ .unknown → ∃ x, ∀ r, term (.literal p) r = some x
  int : ∀ n : Int, ∃ x, ∀ r, verbatim (toString n) r = some x
  float : ∀ y : Binary64, ∃ x, ∀ r, verbatim y.text r = some x
  star : ∀ r, (verbatim "*" r).isSome

/-- What a single count counts. -/
inductive Tally where
  | rows
  | values (t : Term)
  | distinct (t : Term)

variable {ρ ν : Type} [DecidableEq ν]

/-- How many values there are that are not NULL, each once if only distinct ones count. -/
def countValues (distinct : Bool) (vs : List (Option ν)) : ℕ :=
  ((if distinct then vs.dedup else vs).filter Option.isSome).length

def Tally.number (W : Worth ρ ν) (rows : List ρ) : Tally → ℕ
  | .rows => rows.length
  | values t => countValues false (rows.map (W.term t))
  | distinct t => countValues true (rows.map (W.term t))

def SelectItem.worth (W : Worth ρ ν) : SelectItem → ρ → Option ν
  | mapped m => W.entity m
  | expression _ t => W.term t
  | verbatim text => W.verbatim text

/-- Whether an entry is worth something on each row by itself: it is no count, nor a part of one. -/
def SelectItem.isPlain : SelectItem → Bool
  | expression _ (.function name ..) => name != "count"
  | expression _ .star | expression _ (.distinct _) => false
  | _ => true

namespace Select

/-- What a select list counts, if it is a single count. -/
def tally? (s : Select) : Option Tally :=
  match s.items with
  | [.expression _ (.function "count" _ [.star])] => some .rows
  | [.expression _ (.function "count" _ [.distinct t])] => some (.distinct t)
  | [.expression _ (.function "count" _ [t])] => some (.values t)
  | _ => none

/-- Whether a select list is all columns of the rows, each row once. -/
def isDistinctStar (s : Select) : Bool :=
  match s.items with
  | [.verbatim "*"] => s.distinct
  | _ => false

/-- The values of the select list on a row. -/
def worth (W : Worth ρ ν) (s : Select) (r : ρ) : List (Option ν) := s.items.map (·.worth W r)

/-- The values of the select list, before OFFSET and LIMIT. -/
def listed (W : Worth ρ ν) (s : Select) (rows : List ρ) : List (List (Option ν)) :=
  let all := (W.sort s.orderBy rows).map (s.worth W)
  if s.distinct then all.dedup else all

def dropped (s : Select) : ℕ := s.offset.elim 0 (·.value.toNat)

/-- What OFFSET and LIMIT leave. -/
def window {α : Type} (s : Select) (l : List α) : List α :=
  match s.limit with
  | none => l.drop s.dropped
  | some b => (l.drop s.dropped).take b.value.toNat

/-- The rows a SELECT returns; none if it groups them, which has another meaning. -/
def answer? (W : Worth ρ ν) (s : Select) (rows : List ρ) : Option (List (List (Option ν))) :=
  if s.groupBy.isEmpty && s.having.isEmpty then
    some (s.window (match s.tally? with
      | some t => [[some (W.number (t.number W rows))]]
      | none => s.listed W rows))
  else none

/-- Whether the select list is a single column. -/
def isColumn (s : Select) : Bool :=
  match s.items with
  | [.expression ..] | [.verbatim _] => true
  | _ => false

/-- Whether a returned row counts as a value: of a single column only what is not NULL. -/
def counts (s : Select) (row : List (Option ν)) : Bool := !(s.isColumn && row == [none])

/-- How many values a SELECT returned. -/
def returned (s : Select) (answer : List (List (Option ν))) : ℕ := (answer.filter s.counts).length

end Select

/-! ### Lists -/

theorem length_filter_dedup_eq {α : Type} [DecidableEq α] (d : Bool) (p : α → Bool) (l : List α) :
    ((if d then l.dedup else l).filter p).length = l.length ↔
      (d = true → l.Nodup) ∧ ∀ x ∈ l, p x = true := by
  cases d with
  | false => simp [List.length_filter_eq_length_iff]
  | true =>
    simp only [↓reduceIte, true_implies]
    constructor
    · intro h
      have le₁ := List.length_filter_le p l.dedup
      have le₂ := (List.dedup_sublist l).length_le
      have nodup : l.dedup = l := (List.dedup_sublist l).eq_of_length (by omega)
      rw [nodup] at h
      exact ⟨List.dedup_eq_self.mp nodup, List.length_filter_eq_length_iff.mp h⟩
    · rintro ⟨nodup, all⟩
      rw [nodup.dedup]
      exact List.length_filter_eq_length_iff.mpr all

theorem countValues_perm {d : Bool} {vs ws : List (Option ν)} (h : vs.Perm ws) :
    countValues d vs = countValues d ws := by
  unfold countValues
  cases d with
  | false => exact (h.filter _).length_eq
  | true => exact (h.dedup.filter _).length_eq

/-- A value that is the same on every row counts once, or as often as there are rows. -/
theorem countValues_const (d : Bool) (x : ν) (rows : List ρ) :
    countValues d (rows.map fun _ => some x) = if d then min 1 rows.length else rows.length := by
  unfold countValues
  rw [List.map_const']
  cases d with
  | false => simp
  | true =>
    cases rows with
    | nil => simp
    | cons r rows => simp [List.replicate_dedup]

theorem countValues_distinct_of_isSome {f : ρ → Option ν} (hf : ∀ r, (f r).isSome)
    (rows : List ρ) : countValues true (rows.map f) = (rows.map f).dedup.length := by
  have filtered : (rows.map f).dedup.filter Option.isSome = (rows.map f).dedup := by
    refine List.filter_eq_self.mpr fun x hx => ?_
    obtain ⟨r, _, rfl⟩ := List.mem_map.mp (List.mem_dedup.mp hx)
    exact hf r
  simp only [countValues, ↓reduceIte, filtered]

/-- There are no distinct values only if there are no rows. -/
theorem min_le_countValues_distinct {f : ρ → Option ν} (hf : ∀ r, (f r).isSome) (rows : List ρ) :
    min 1 rows.length ≤ countValues true (rows.map f) := by
  rw [countValues_distinct_of_isSome hf]
  cases rows with
  | nil => exact Nat.zero_le _
  | cons r rows =>
    have mem : f r ∈ ((r :: rows).map f).dedup :=
      List.mem_dedup.mpr (List.mem_map_of_mem List.mem_cons_self)
    have := List.length_pos_of_mem mem
    omega

/-- Distinct values are as many as there are rows at all, up to one, if all of them are one. -/
theorem countValues_distinct_eq_min {f : ρ → Option ν} (hf : ∀ r, (f r).isSome) (rows : List ρ) :
    countValues true (rows.map f) = min 1 rows.length ↔
      ∀ r ∈ rows, ∀ r' ∈ rows, f r = f r' := by
  rw [countValues_distinct_of_isSome hf]
  constructor
  · intro h r hr r' hr'
    have short : (rows.map f).dedup.length ≤ 1 := by omega
    have mem (r : ρ) (hr : r ∈ rows) : f r ∈ (rows.map f).dedup :=
      List.mem_dedup.mpr (List.mem_map_of_mem hr)
    rcases hl : (rows.map f).dedup with _ | ⟨a, _ | ⟨b, l⟩⟩
    · exact absurd (hl ▸ mem r hr) List.not_mem_nil
    · have eq (r : ρ) (hr : r ∈ rows) : f r = a := List.mem_singleton.mp (hl ▸ mem r hr)
      rw [eq r hr, eq r' hr']
    · simp [hl] at short
  · intro h
    cases rows with
    | nil => rfl
    | cons r rows =>
      have same : (r :: rows).map f = List.replicate (rows.length + 1) (f r) := by
        refine List.eq_replicate_iff.mpr ⟨by simp, fun x hx => ?_⟩
        obtain ⟨r', hr', rfl⟩ := List.mem_map.mp hx
        exact h r' hr' r List.mem_cons_self
      rw [same, List.replicate_dedup (Nat.succ_ne_zero _)]
      simp

namespace Select

variable {W : Worth ρ ν} {s : Select} {rows : List ρ}

/-! ### OFFSET and LIMIT -/

/-- One row is left by OFFSET and LIMIT exactly if nothing is dropped and a row may be taken. -/
theorem window_single {α : Type} (s : Select) (x y : α) :
    s.window [x] = [y] ↔ s.dropped = 0 ∧ (∀ b, s.limit = some b → 0 < b.value.toNat) ∧ x = y := by
  unfold window
  rcases s.dropped with _ | n
  · rcases s.limit with _ | b
    · simp
    · simp only [Option.some.injEq, forall_eq']
      rcases b.value.toNat with _ | k <;> simp
  · rcases s.limit with _ | b <;> simp

/-- What LIMIT cuts off does not count exactly if as many values count with it as without it. -/
theorem returned_window (l : List (List (Option ν))) (h : s.dropped = 0) :
    s.returned (s.window l) = (l.filter s.counts).length ↔
      ∀ b, s.limit = some b → ∀ x ∈ l.drop b.value.toNat, s.counts x = false := by
  unfold window returned
  rw [h]
  rcases s.limit with _ | b
  · simp
  · simp only [Option.some.injEq, forall_eq', List.drop_zero]
    have split : (l.filter s.counts).length = ((l.take b.value.toNat).filter s.counts).length +
        ((l.drop b.value.toNat).filter s.counts).length := by
      rw [← List.length_append, ← List.filter_append, List.take_append_drop]
    rw [split, Nat.left_eq_add, List.length_eq_zero_iff, List.filter_eq_nil_iff]
    simp

theorem returned_window_le (l : List (List (Option ν))) :
    s.returned (s.window l) ≤ (l.filter s.counts).length := by
  unfold window returned
  refine List.Sublist.length_le (List.Sublist.filter _ ?_)
  rcases s.limit with _ | b
  · exact List.drop_sublist _ _
  · exact (List.take_sublist _ _).trans (List.drop_sublist _ _)

/-- If everything counts then so does everything that LIMIT leaves. -/
theorem returned_window_of_counts {l : List (List (Option ν))} (h : s.dropped = 0)
    (hl : ∀ x ∈ l, s.counts x = true) :
    s.returned (s.window l) = s.limit.elim l.length fun b => min b.value.toNat l.length := by
  unfold window returned
  rw [h, List.drop_zero]
  rcases s.limit with _ | b
  · rw [List.filter_eq_self.mpr hl]
    rfl
  · rw [List.filter_eq_self.mpr fun x hx => hl x (List.mem_of_mem_take hx)]
    simp

/-! ### Values -/

variable (rows) in
/-- The values of a single column that count are those that are not NULL. -/
theorem length_filter_counts_column {f : ρ → Option ν} (hs : s.isColumn = true)
    (hf : ∀ r, s.worth W r = [f r]) :
    ((s.listed W rows).filter s.counts).length = countValues s.distinct (rows.map f) := by
  rw [← countValues_perm ((W.sort_perm s.orderBy rows).map f)]
  unfold listed countValues
  have each : (W.sort s.orderBy rows).map (s.worth W) =
      ((W.sort s.orderBy rows).map f).map ([·]) := by
    simp [hf]
  have counting : (fun x : Option ν => s.counts [x]) = Option.isSome := by
    funext x
    cases x <;> simp [counts, hs]
  have single : Function.Injective fun x : Option ν => [x] := fun x y h => by simpa using h
  rw [each]
  cases s.distinct with
  | false =>
    simp only [Bool.false_eq_true, ↓reduceIte]
    rw [List.filter_map, List.length_map, Function.comp_def, counting]
  | true =>
    simp only [↓reduceIte]
    rw [List.dedup_map_of_injective single, List.filter_map, List.length_map, Function.comp_def,
      counting]

variable (W s rows) in
/-- All rows count as values exactly if no value is dropped as a duplicate or as NULL. -/
theorem length_filter_counts_rows :
    ((s.listed W rows).filter s.counts).length = rows.length ↔
      (s.distinct = true → (rows.map (s.worth W)).Nodup) ∧
        (s.isColumn = true → ∀ r ∈ rows, s.worth W r ≠ [none]) := by
  have perm := W.sort_perm s.orderBy rows
  have length : ((W.sort s.orderBy rows).map (s.worth W)).length = rows.length := by
    rw [List.length_map, perm.length_eq]
  rw [← length, listed, length_filter_dedup_eq, (perm.map _).nodup_iff]
  simp only [List.mem_map, forall_exists_index, and_imp, forall_apply_eq_imp_iff₂, perm.mem_iff]
  refine and_congr_right fun _ => ?_
  cases h : s.isColumn <;> simp [counts, h]

end Select

/-! ### The number of a count -/

/-- An entry beside the operand that is counted in its place: the same expression, or a parameter
for a plain value or for the text that stands for whole rows. -/
inductive SelectItem.Stands (W : Worth ρ ν) : SelectItem → Term → Prop
  | same (key t) : Stands W (.expression key t) t
  | constant {key t p x y} : (∀ r, W.term t r = some x) → (∀ r, W.term (.literal p) r = some y) →
      Stands W (.expression key t) (.literal p)
  | written {text p x y} : (∀ r, W.verbatim text r = some x) →
      (∀ r, W.term (.literal p) r = some y) → Stands W (.verbatim text) (.literal p)
  | star {p y} : (∀ r, W.term (.literal p) r = some y) → Stands W (.verbatim "*") (.literal p)

namespace Select

/-- How the select list of a count stands to the one it counts: it counts the rows, or the operand
in the place of its only entry. -/
inductive IsCountedBy (W : Worth ρ ν) (s s' : Select) : Prop
  | rows : s.isDistinctStar = false → s'.tally? = some .rows → IsCountedBy W s s'
  | column {item t} : s.items = [item] → item.Stands W t →
      s'.tally? = some (if s.distinct then .distinct t else .values t) → IsCountedBy W s s'

/-- When a count gives the number of values that the search returns. -/
structure CountsRight (W : Worth ρ ν) (s s' : Select) (rows : List ρ) : Prop where
  /-- No row is skipped; else the only row of the count is. -/
  offset : s.dropped = 0
  /-- The limit, which counting does not heed, leaves the row of the count. -/
  taken : ∀ b, s.limit = some b → 0 < b.value.toNat
  /-- Nothing that counts is cut off. -/
  kept : s.isDistinctStar = false → ∀ b, s.limit = some b →
    ∀ x ∈ (s.listed W rows).drop b.value.toNat, s.counts x = false
  /-- Whole rows are counted as one value that is the same on all of them. -/
  star : s.isDistinctStar = true → (∃ b, s.limit = some b ∧ b.value.toNat = 1) ∨
    ∀ r ∈ rows, ∀ r' ∈ rows, s.worth W r = s.worth W r'
  /-- Where rows are counted every row is a value of its own. -/
  rows : s'.tally? = some .rows → (s.distinct = true → (rows.map (s.worth W)).Nodup) ∧
    (s.isColumn = true → ∀ r ∈ rows, s.worth W r ≠ [none])

variable {W : Worth ρ ν} {s s' : Select} {rows : List ρ}

theorem exists_of_mem_listed {x : List (Option ν)} (hx : x ∈ s.listed W rows) :
    ∃ r ∈ rows, s.worth W r = x := by
  have mem : x ∈ (W.sort s.orderBy rows).map (s.worth W) := by
    unfold listed at hx
    dsimp only at hx
    split at hx
    · exact List.mem_dedup.mp hx
    · exact hx
  obtain ⟨r, hr, rfl⟩ := List.mem_map.mp mem
  exact ⟨r, (W.sort_perm s.orderBy rows).mem_iff.mp hr, rfl⟩

variable (W s rows) in
theorem length_filter_counts_le :
    ((s.listed W rows).filter s.counts).length ≤ rows.length := by
  rw [← (W.sort_perm s.orderBy rows).length_eq, ← List.length_map (s.worth W)]
  unfold listed
  dsimp only
  split
  · exact Nat.le_trans (List.length_filter_le _ _) (List.dedup_sublist _).length_le
  · exact List.length_filter_le _ _

variable (rows) in
/-- The operand that is counted has as many values as the entry it stands for. -/
theorem countValues_of_stands {item : SelectItem} {t : Term} (h : item.Stands W t) (d : Bool)
    (hd : item = .verbatim "*" → d = false) :
    countValues d (rows.map (W.term t)) = countValues d (rows.map (item.worth W)) := by
  cases h with
  | same key t => rfl
  | constant hitem ht =>
    rename_i x y
    rw [funext ht, show (SelectItem.expression _ _).worth W = _ from funext hitem,
      countValues_const, countValues_const]
  | written hitem ht =>
    rename_i x y
    rw [funext ht, show (SelectItem.verbatim _).worth W = _ from funext hitem,
      countValues_const, countValues_const]
  | star ht =>
    rename_i y
    obtain rfl := hd rfl
    have all : (rows.map ((SelectItem.verbatim "*").worth W)).filter Option.isSome =
        rows.map ((SelectItem.verbatim "*").worth W) := by
      refine List.filter_eq_self.mpr fun x hx => ?_
      obtain ⟨r, _, rfl⟩ := List.mem_map.mp hx
      exact W.star r
    rw [funext ht, countValues_const]
    simp [countValues, all]

variable (W rows) in
/-- Distinct whole rows are at most one after LIMIT exactly if it leaves one or they are all the
same. -/
theorem returned_distinctStar (items : s.items = [.verbatim "*"]) (distinct : s.distinct = true)
    (offset : s.dropped = 0) (taken : ∀ b, s.limit = some b → 0 < b.value.toNat) :
    min 1 rows.length = s.returned (s.window (s.listed W rows)) ↔
      (∃ b, s.limit = some b ∧ b.value.toNat = 1) ∨
        ∀ r ∈ rows, ∀ r' ∈ rows, s.worth W r = s.worth W r' := by
  have worth (r : ρ) : s.worth W r = [W.verbatim "*" r] := by
    simp [worth, items, SelectItem.worth]
  have all : ∀ x ∈ s.listed W rows, s.counts x = true := by
    intro x hx
    obtain ⟨r, _, rfl⟩ := exists_of_mem_listed hx
    obtain ⟨z, hz⟩ := Option.isSome_iff_exists.mp (W.star r)
    simp [counts, worth, hz]
  have column : s.isColumn = true := by simp [isColumn, items]
  have total := length_filter_counts_column rows column worth
  have most := length_filter_counts_le W s rows
  have least := min_le_countValues_distinct W.star rows
  have same := countValues_distinct_eq_min W.star rows
  rw [List.filter_eq_self.mpr all, distinct] at total
  rw [List.filter_eq_self.mpr all] at most
  rw [returned_window_of_counts offset all]
  simp only [worth, List.cons.injEq, and_true, ← same]
  rcases hl : s.limit with _ | b
  · simp only [Option.elim_none, reduceCtorEq, false_and, exists_false, false_or]
    omega
  · have := taken b hl
    simp only [Option.elim_some, Option.some.injEq, exists_eq_left']
    omega

variable (rows) in
/-- The number a count gives is that of the values the search returns exactly if it counts them
right. -/
theorem IsCountedBy.number_eq_iff (h : s.IsCountedBy W s') (offset : s.dropped = 0)
    (taken : ∀ b, s.limit = some b → 0 < b.value.toNat) : ∃ tally, s'.tally? = some tally ∧
      (tally.number W rows = s.returned (s.window (s.listed W rows)) ↔
        s.CountsRight W s' rows) := by
  have le := returned_window_le (s := s) (s.listed W rows)
  have cut := returned_window (s := s) (s.listed W rows) offset
  cases h with
  | rows notStar tally =>
    refine ⟨.rows, tally, ?_⟩
    have le' := length_filter_counts_le W s rows
    have each := length_filter_counts_rows W s rows
    constructor
    · intro number
      change rows.length = _ at number
      exact ⟨offset, taken, fun _ => cut.mp (by omega), fun star => by simp [star] at notStar,
        fun _ => each.mp (by omega)⟩
    · intro right
      have := cut.mpr (right.kept notStar)
      have := each.mpr (right.rows tally)
      change rows.length = _
      omega
  | column items stands tally =>
    rename_i item t
    have column : s.isColumn = true := by
      unfold isColumn
      rw [items]
      cases stands <;> rfl
    refine ⟨_, tally, ?_⟩
    have worth (r : ρ) : s.worth W r = [item.worth W r] := by simp [worth, items]
    have total := length_filter_counts_column rows column worth
    have number : (if s.distinct then Tally.distinct t else .values t).number W rows =
        countValues s.distinct (rows.map (W.term t)) := by
      cases s.distinct <;> rfl
    rw [number]
    have noRows : s'.tally? ≠ some .rows := by
      rw [tally]
      cases s.distinct <;> simp
    cases star : s.isDistinctStar with
    | false =>
      have same := countValues_of_stands rows stands s.distinct (by
        intro hi
        simpa [isDistinctStar, items, hi] using star)
      constructor
      · intro number
        exact ⟨offset, taken, fun _ => cut.mp (by omega), fun h => by simp [star] at h,
          fun h => absurd h noRows⟩
      · intro right
        have := cut.mpr (right.kept star)
        omega
    | true =>
      obtain ⟨rfl, distinct⟩ : item = .verbatim "*" ∧ s.distinct = true := by
        unfold isDistinctStar at star
        rw [items] at star
        split at star
        · rename_i hi
          exact ⟨List.head_eq_of_cons_eq hi, star⟩
        · cases star
      obtain ⟨y, hy⟩ : ∃ y, ∀ r, W.term t r = some y := by
        cases stands with
        | written _ ht | star ht => exact ⟨_, ht⟩
      have one : countValues true (rows.map (W.term t)) = min 1 rows.length := by
        rw [funext hy, countValues_const]
        rfl
      have star' := returned_distinctStar W rows items distinct offset taken
      rw [distinct, one, star']
      exact ⟨fun h => ⟨offset, taken, fun h => by simp [star] at h, fun _ => h,
        fun h => absurd h noRows⟩, fun right => right.star star⟩

theorem tally?_of_plain (h : ∀ item ∈ s.items, item.isPlain = true) : s.tally? = none := by
  unfold tally?
  split
  all_goals first
    | rfl
    | (rename_i hi; rw [hi] at h; cases h _ List.mem_cons_self)

theorem answer?_of_ungrouped (hg : s.groupBy = []) (hh : s.having = []) :
    s.answer? W rows = some (s.window (match s.tally? with
      | some t => [[some (W.number (t.number W rows))]]
      | none => s.listed W rows)) := by
  simp [answer?, hg, hh]

/-- A count returns one row with the number of values that the search returns exactly if it counts
them right, provided that both are bounded alike. -/
theorem IsCountedBy.answer_iff (h : s.IsCountedBy W s')
    (plain : ∀ item ∈ s.items, item.isPlain = true)
    (ungrouped : s.groupBy = [] ∧ s.having = []) (ungrouped' : s'.groupBy = [] ∧ s'.having = [])
    (offset : s'.offset.map (·.value) = s.offset.map (·.value))
    (limit : s'.limit.map (·.value) = s.limit.map (·.value)) :
    ∃ answer answer', s.answer? W rows = some answer ∧ s'.answer? W rows = some answer' ∧
      (answer' = [[some (W.number (s.returned answer))]] ↔ s.CountsRight W s' rows) := by
  obtain ⟨tally, htally⟩ : ∃ tally, s'.tally? = some tally := by
    cases h with
    | rows _ ht | column _ _ ht => exact ⟨_, ht⟩
  have dropped : s'.dropped = s.dropped := by
    unfold Select.dropped
    cases hs : s.offset <;> cases hs' : s'.offset <;> simp_all
  have positive : (∀ b, s'.limit = some b → 0 < b.value.toNat) ↔
      ∀ b, s.limit = some b → 0 < b.value.toNat := by
    cases hs : s.limit <;> cases hs' : s'.limit <;> simp_all
  refine ⟨_, _, answer?_of_ungrouped ungrouped.1 ungrouped.2,
    answer?_of_ungrouped ungrouped'.1 ungrouped'.2, ?_⟩
  rw [tally?_of_plain plain, htally, window_single, dropped, positive]
  constructor
  · rintro ⟨hoffset, htaken, number⟩
    obtain ⟨tally', htally', right⟩ := h.number_eq_iff rows hoffset htaken
    obtain rfl := Option.some.inj (htally.symm.trans htally')
    refine right.mp (W.number_injective ?_)
    simpa using number
  · intro right
    obtain ⟨tally', htally', number⟩ := h.number_eq_iff rows right.offset right.taken
    obtain rfl := Option.some.inj (htally.symm.trans htally')
    exact ⟨right.offset, right.taken, by rw [number.mpr right]⟩

end Select

end FluentQuery.Sql
