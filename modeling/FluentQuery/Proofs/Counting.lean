import FluentQuery.Proofs.Counting.Bag
import FluentQuery.Proofs.Statements

/-! The number that `count()` selects, against the values that the search would return. -/

namespace FluentQuery

open Sql

/-- Selections of which only the rows are counted. -/
def Value.isWhole : Value → Bool
  | tuple .. | list .. | mapped _ => true
  | _ => false

theorem resolve_count : Function.resolve? "count" = some "count" := by decide +kernel

theorem exec_countRows (m : Machine) : exec (Expression.call "count" []) m =
    (.ok (.term m.next (.function "count" .integer [.star])), { m with next := m.next + 1 }) := by
  unfold Expression.call
  rw [resolve_count]
  rfl

theorem call_count {v : Value} (hv : v.isNull = false) : Expression.call "count" [v] = (do
    let t ← Expression.operands "count" [v]
    newTerm (.function "count" .integer t)) := by
  unfold Expression.call
  rw [resolve_count]
  cases v with
  | null => cases hv
  | _ => rfl

/-- What a count selects in place of a selection: a call of `count` on the rows, or on the operand
that the selection is. Distinct rows are counted of entities only. -/
inductive Value.CountedBy (v : Value) (distinct : Bool) : Value → Prop
  | rows {id type} : v.isWhole = true → (distinct = true → ∃ m, v = .mapped m) →
      CountedBy v distinct (.term id (.function "count" type [.star]))
  | operand {id type base x m m'} : v.isWhole = false →
      exec (v.operandNamed base) m = (.ok x, m') → CountedBy v distinct
        (.term id (.function "count" type [if distinct then .distinct x.term else x.term]))

theorem exec_countDistinct {v w : Value} {m m' : Machine} (hw : v.isWhole = false)
    (h : exec (Expression.countDistinct v) m = (.ok w, m')) : v.CountedBy true w := by
  unfold Expression.countDistinct at h
  replace h := (exec_guarded_eq_ok.mp h).2
  obtain ⟨x, m₁, hx, h⟩ := exec_bind_eq_ok.mp h
  obtain ⟨id, m₂, _, h⟩ := exec_bind_eq_ok.mp h
  obtain ⟨rfl, rfl⟩ := exec_pure_eq_ok.mp h
  exact .operand hw hx

theorem exec_countAll {v w : Value} {m m' : Machine} (hw : v.isWhole = false)
    (hv : v.isNull = false) (h : exec (Expression.call "count" [v]) m = (.ok w, m')) :
    v.CountedBy false w := by
  rw [call_count hv] at h
  obtain ⟨ts, m₁, hts, h⟩ := exec_bind_eq_ok.mp h
  obtain ⟨x, m₂, hx, hts⟩ := exec_bind_eq_ok.mp hts
  obtain ⟨rest, m₃, hrest, hts⟩ := exec_bind_eq_ok.mp hts
  obtain ⟨rfl, rfl⟩ := exec_pure_eq_ok.mp hrest
  obtain ⟨rfl, rfl⟩ := exec_pure_eq_ok.mp hts
  obtain ⟨id, m₄, _, h⟩ := exec_bind_eq_ok.mp h
  obtain ⟨rfl, rfl⟩ := exec_pure_eq_ok.mp h
  exact .operand hw hx

theorem exec_counted {builder v w : Value} {d : Bool} {m m' : Machine} (hv : v.isNull = false)
    (h : exec (counted builder d v) m = (.ok w, m')) : v.CountedBy d w := by
  have rows {m m' : Machine} (whole : v.isWhole = true) (entity : d = true → ∃ m, v = .mapped m)
      (h : exec (do builder.requireBuilder; Expression.call "count" []) m = (.ok w, m')) :
      v.CountedBy d w := by
    obtain ⟨_, m₁, _, h⟩ := exec_bind_eq_ok.mp h
    rw [exec_countRows] at h
    obtain rfl := Except.ok.inj (Prod.mk.inj h).1
    exact .rows whole entity
  unfold counted at h
  split at h
  · obtain ⟨notDistinct, h⟩ := exec_guarded_eq_ok.mp h
    exact rows rfl (fun hd => absurd hd notDistinct) h
  · obtain ⟨notDistinct, h⟩ := exec_guarded_eq_ok.mp h
    exact rows rfl (fun hd => absurd hd notDistinct) h
  · exact rows rfl (fun _ => ⟨_, rfl⟩) h
  · rename_i notTuple notList notMapped
    have part : v.isWhole = false := by
      cases v <;> simp_all [Value.isWhole]
    obtain ⟨_, m₁, _, h⟩ := exec_bind_eq_ok.mp h
    split at h
    · rename_i hd
      rw [hd]
      exact exec_countDistinct part h
    · rename_i hd
      rw [if_neg (by simpa using hv)] at h
      rw [Bool.eq_false_iff.mpr hd]
      exact exec_countAll part hv h

section Values

variable {ρ ν : Type} (W : Worth ρ ν)

theorem Value.operandNamed_expression {v : Value} {t : Term} {base : String} {x : Operand}
    {m m' : Machine} (ht : v.expression? = some t)
    (h : exec (v.operandNamed base) m = (.ok x, m')) : x.term = t := by
  unfold operandNamed at h
  rw [ht] at h
  split at h
  · cases ht
  · rename_i ht'
    obtain ⟨rfl, rfl⟩ := exec_pure_eq_ok.mp h
    exact (Option.some.inj ht').symm
  · rename_i ht'
    cases ht'

theorem Value.carried_of_datum {v : Value} {d : Datum} (hd : v.datum? = some d) :
    v.identity? = none ∧ v.carried = .plain d := by
  cases v <;> simp_all [datum?, identity?, carried]

/-- A plain value is worth the same on every row as an operand. -/
theorem Value.operandNamed_datum {v : Value} {d : Datum} {base : String} {x : Operand}
    {m m' : Machine} (hv : v.isNull = false) (hd : v.datum? = some d)
    (ht : (Literal.plain d).type ≠ .unknown) (h : exec (v.operandNamed base) m = (.ok x, m')) :
    ∃ p y, x.term = .literal p ∧ ∀ r, W.term (.literal p) r = some y := by
  have bare : v.expression? = none := by cases v <;> first | rfl | cases hd
  have carried : v.isCarried = true := by cases v <;> first | rfl | cases hd
  unfold operandNamed at h
  rw [bare] at h
  split at h
  · cases hv
  · rename_i ht'
    cases ht'
  · obtain ⟨l, m₁, hl, h⟩ := exec_bind_eq_ok.mp h
    obtain ⟨id, m₂, _, h⟩ := exec_bind_eq_ok.mp h
    obtain ⟨rfl, rfl⟩ := exec_pure_eq_ok.mp h
    unfold literal at hl
    replace hl := (exec_guarded_eq_ok.mp hl).2
    obtain ⟨plain, carries⟩ := carried_of_datum hd
    rw [plain, carries] at hl
    obtain ⟨rfl, rfl⟩ := exec_pure_eq_ok.mp hl
    obtain ⟨y, hy⟩ := W.parameter (.argument id base (.plain d)) ht
    exact ⟨_, y, rfl, hy⟩

theorem Value.selectItem_stands {v : Value} {item : SelectItem} {base : String} {x : Operand}
    {m m' : Machine} (hv : v.isNull = false) (hw : v.isWhole = false)
    (hitem : v.selectItem = .ok item) (h : exec (v.operandNamed base) m = (.ok x, m')) :
    item.Stands W x.term := by
  have written {d : Datum} (hd : v.datum? = some d) (ht : (Literal.plain d).type ≠ .unknown) :
      ∃ p y, x.term = .literal p ∧ ∀ r, W.term (.literal p) r = some y :=
    operandNamed_datum W hv hd ht h
  cases v with
  | bool b =>
    obtain ⟨p, y, hp, hy⟩ := written rfl (by simp [Literal.type])
    rw [hp]
    obtain ⟨c, hc⟩ := W.constant b
    obtain rfl := Except.ok.inj hitem
    exact .constant hc hy
  | int id n =>
    obtain ⟨p, y, hp, hy⟩ := written rfl (by simp [Literal.type])
    rw [hp]
    obtain ⟨c, hc⟩ := W.int n
    obtain rfl := Except.ok.inj hitem
    exact .written hc hy
  | float id n =>
    obtain ⟨p, y, hp, hy⟩ := written rfl (by simp [Literal.type])
    rw [hp]
    obtain ⟨c, hc⟩ := W.float n
    obtain rfl := Except.ok.inj hitem
    exact .written hc hy
  | text id s =>
    obtain ⟨p, y, hp, hy⟩ := written rfl (by simp [Literal.type])
    rw [hp]
    by_cases hs : s = "*"
    · subst hs
      obtain rfl := Except.ok.inj hitem
      exact .star hy
    · simp [selectItem, hs, constant?, subject?] at hitem
  | member a =>
    obtain ⟨owner, c | r⟩ := a
    · rw [operandNamed_expression rfl h]
      obtain rfl := Except.ok.inj hitem
      exact .same _ _
    · rw [operandNamed_expression rfl h]
      obtain rfl := Except.ok.inj hitem
      exact .same _ _
  | term id t =>
    rw [operandNamed_expression rfl h]
    cases t <;> (obtain rfl := Except.ok.inj hitem; exact .same _ _)
  | null => cases hv
  | tuple | list | mapped => cases hw
  | _ => cases hitem

/-- What a count selects counts the select list that it stands in for. -/
theorem Value.CountedBy.isCountedBy {v w : Value} {s s' : Select} (hv : v.isNull = false)
    (h : v.CountedBy s.distinct w) (hitems : v.selectItems = .ok s.items)
    (hitems' : w.selectItems = .ok s'.items) (plain : ∀ item ∈ s.items, item.isPlain = true) :
    s.IsCountedBy W s' := by
  cases h with
  | rows whole entity =>
    have items' := Except.ok.inj hitems'
    refine .rows ?_ ?_
    · cases hd : s.distinct with
      | false =>
        unfold Select.isDistinctStar
        split
        · exact hd
        · rfl
      | true =>
        obtain ⟨m, rfl⟩ := entity hd
        simp [Select.isDistinctStar, ← Except.ok.inj hitems]
    · simp [Select.tally?, ← items']
  | operand part hx =>
    have items' := Except.ok.inj hitems'
    rename_i id type base x m m'
    have single : v.selectItems = v.selectItem.map ([·]) := by
      cases v <;> first | rfl | cases part
    rw [single] at hitems
    rcases hitem : v.selectItem with e | item
    · rw [hitem] at hitems
      cases hitems
    · rw [hitem] at hitems
      have items : s.items = [item] := (Except.ok.inj hitems).symm
      have stands := selectItem_stands W hv part hitem hx
      refine .column items stands ?_
      rw [items] at plain
      unfold Select.tally?
      rw [← items']
      cases hd : s.distinct with
      | true => rfl
      | false =>
        have plain := plain item List.mem_cons_self
        generalize x.term = t at stands ⊢
        cases stands with
        | same key t => cases t <;> first | rfl | cases plain
        | constant | written | star => rfl

end Values

/-! ### The count of a search -/

/-- A stream that counts another has its query type and its row bounds, and one step more. -/
theorem Stream.exec_count {s t : Stream} {m m' : Machine} (h : exec s.count m = (.ok t, m')) :
    t.queryType = s.queryType ∧ t.firstResult = s.firstResult ∧ t.maxResults = s.maxResults ∧
      ∃ m₁, exec (Configurer.extend s.configurer .count) m = (.ok t.configurer, m₁) := by
  obtain ⟨v, m₁, hv, h⟩ := exec_bind_eq_ok.mp h
  obtain ⟨id, m₂, _, h⟩ := exec_bind_eq_ok.mp h
  obtain ⟨rfl, rfl⟩ := exec_pure_eq_ok.mp h
  exact ⟨rfl, rfl, rfl, m₁, hv⟩

/-- The configuration of a count ends like that of the search it counts, then takes the distinct
flag off the query and selects a call of `count`. -/
theorem configure_count {v v' builder w w' : Value} {call : Call} {c : ContextId} {d : Bool}
    {x y : Context} {b : SelectBody} {m₀ m₀' m m₁ m₂ : Machine}
    (hv : exec (Configurer.extend v .count) m₀ = (.ok v', m₀'))
    (h : exec (configure call v builder (.context c)) m = (.ok w, m₁))
    (h' : exec (configure call v' builder (.context c)) m = (.ok w', m₂))
    (hx : m₁.context? c = some x) (hb : x.kind.body? = some b) (hd : b.distinct = .bool d)
    (hy : m₂.context? c = some y) (hw : w.isNull = false) :
    w.CountedBy d w' ∧
      y = { x with kind := x.kind.withBody { b with distinct := .bool false } } := by
  rw [configure_extend hv, exec_bind_of_ok h] at h'
  unfold Step.apply at h'
  rw [exec_bind_of_ok (exec_asContext c m₁), exec_countSelection hx hb hd] at h'
  have undisturbed : Undisturbed _ m₂ := (counted_keeps builder d w).of_exec h'
  have left := undisturbed.context c _ (context?_set hx _)
  exact ⟨exec_counted hw h', Option.some.inj (hy.symm.trans left)⟩

section Count

variable {ρ ν : Type} [DecidableEq ν]

/-- A count of a search reads the same rows as the search, and returns the number of the values that
the search returns in exactly the cases told by `CountsRight`: with an offset, with a limit that
cuts off values, with distinct entities on rows of which several have the same, it does not. -/
theorem count_eq_returned_iff (W : Worth ρ ν) (rows : List ρ) {call : Call} {s t : Stream}
    {queryType : QueryType} {sel sel' : Select} {m₀ m₀' m m₁ m₂ : Machine}
    (search : s.queryType = .queryType queryType ∧ queryType.purpose = .search)
    (counting : exec s.count m₀ = (.ok t, m₀'))
    (own : exec (s.statement call) m = (.ok sel, m₁))
    (count : exec (t.statement call) m = (.ok sel', m₂))
    (flag : ∀ x b, m₁.context? ⟨m.contexts.length⟩ = some x → x.kind.body? = some b →
      ∃ distinct, b.distinct = .bool distinct)
    (plain : ∀ item ∈ sel.items, item.isPlain = true)
    (ungrouped : sel.groupBy = [] ∧ sel.having = []) :
    sel'.roots = sel.roots ∧ sel'.conditions = sel.conditions ∧
      (∃ plans : List JoinPlan, sel.joins = plans.map (·.decide m₁) ∧
        sel'.joins = plans.map (·.decide m₂)) ∧
      ∃ answer answer', sel.answer? W rows = some answer ∧ sel'.answer? W rows = some answer' ∧
        (answer' = [[some (W.number (sel.returned answer))]] ↔ sel.CountsRight W sel' rows) := by
  obtain ⟨hqt, hfirst, hmax, m₄, hv⟩ := Stream.exec_count counting
  obtain ⟨w, n, x, b, base, supplied, offset, limit, hconf, hx, hb, hw, hleft, gives, rfl, hoffset,
    hlimit⟩ := Stream.exec_statement search.1 search.2 own
  obtain ⟨w', n', x', b', base', supplied', offset', limit', hconf', hx', hb', hw', hleft', gives',
    rfl, hoffset', hlimit'⟩ := Stream.exec_statement (hqt.trans search.1) search.2 count
  obtain ⟨d, hd⟩ := flag _ _ hleft (ContextKind.body?_withBody hb)
  obtain ⟨countedBy, rfl⟩ := configure_count hv hconf hconf' hx hb hd hx' hw
  obtain rfl := Option.some.inj ((ContextKind.body?_withBody hb).symm.trans hb')
  simp only [ContextKind.joinConditions_withBody, ContextKind.correlated_withBody] at gives'
  obtain rfl : d = base.distinct := by
    have told := gives.distinct
    rw [hd] at told
    exact Option.some.inj told
  have isCountedBy : Select.IsCountedBy W { base with supplied, offset, limit }
      { base' with supplied := supplied', offset := offset', limit := limit' } :=
    countedBy.isCountedBy W hw (gives.items hw) (gives'.items hw') plain
  have groupBy : base'.groupBy = base.groupBy := by
    obtain ⟨keys, hkeys, h⟩ := gives.groupBy
    obtain ⟨keys', hkeys', h'⟩ := gives'.groupBy
    rw [h, h', Except.ok.inj (hkeys'.symm.trans hkeys)]
  have having : base'.having = base.having := Except.ok.inj (gives'.having.symm.trans gives.having)
  refine ⟨?_, ?_, ⟨b.joins, gives.joins, gives'.joins⟩, isCountedBy.answer_iff plain ungrouped
    ⟨groupBy.trans ungrouped.1, having.trans ungrouped.2⟩ ?_ ?_⟩
  · obtain ⟨roots, hroots, h⟩ := gives.roots
    obtain ⟨roots', hroots', h'⟩ := gives'.roots
    rw [h, h', Except.ok.inj (hroots'.symm.trans hroots)]
  · obtain ⟨conditions, hconditions, h⟩ := gives.conditions
    obtain ⟨conditions', hconditions', h'⟩ := gives'.conditions
    rw [h, h', Except.ok.inj (hconditions'.symm.trans hconditions)]
  · rw [hfirst] at hoffset'
    exact hoffset'.value_eq hoffset
  · rw [hmax] at hlimit'
    exact hlimit'.value_eq hlimit

end Count

/-- Rows that are numbers, of which every entity and every column is worth the number of the row. -/
def Sql.Worth.byNumber : Worth ℕ ℕ where
  entity _ r := some r
  term
    | .column _ => some
    | _ => fun _ => some 0
  verbatim _ _ := some 0
  number := id
  sort _ rows := rows
  sort_perm _ _ := .refl _
  number_injective := Function.injective_id
  constant _ := ⟨0, fun _ => rfl⟩
  parameter _ _ := ⟨0, fun _ => rfl⟩
  int _ := ⟨0, fun _ => rfl⟩
  float _ := ⟨0, fun _ => rfl⟩
  star _ := rfl

def Value.isBool : Value → Bool
  | bool _ => true
  | _ => false

/-- Of three products two are left after one is skipped, but their count returns no row. -/
theorem count_eq_returned_iff_skipped :
    let product : Value := .mapped ⟨.product, none⟩
    let session : Value := .session ⟨1, ⟨some [], none, none⟩⟩
    let m : Machine := .start ⟨false, false, false⟩
    let s : Stream := ⟨4, .of .search, session, .queryType ⟨2, .search, product⟩,
      .configurer ⟨3, .root product, [.bounded .skip]⟩, .number 1, .unset, [], []⟩
    ∃ t sel sel' m₀ m₁ m₂, exec s.count m = (.ok t, m₀) ∧
      exec (s.statement (callAny (eval 3))) m = (.ok sel, m₁) ∧
      exec (t.statement (callAny (eval 3))) m = (.ok sel', m₂) ∧
      sel.answer? Worth.byNumber [1, 2, 3] = some [[some 2], [some 3]] ∧
      sel'.answer? Worth.byNumber [1, 2, 3] = some [] ∧
      ¬sel.CountsRight Worth.byNumber sel' [1, 2, 3] := by
  intro product session m s
  let t : Stream := { s with
    id := m.next + 1
    configurer := .configurer ⟨m.next, .root product, [.bounded .skip, .count]⟩ }
  have hs : exec s.count m = (.ok t, { m with next := m.next + 2 }) := rfl
  let settled (sel : Select) (m₁ : Machine) : Bool :=
    sel.items.all (·.isPlain) && sel.groupBy.isEmpty && sel.having.isEmpty &&
      ((m₁.context? ⟨0⟩).bind (·.kind.body?)).all (·.distinct.isBool)
  obtain ⟨sel, m₁, own, checked⟩ := exec_of_check (m := m) (x := s.statement (callAny (eval 3)))
    (fun sel m₁ => settled sel m₁ &&
      sel.answer? Worth.byNumber [1, 2, 3] == some [[some 2], [some 3]])
    (by decide +kernel)
  obtain ⟨sel', m₂, count, checked'⟩ := exec_of_check (m := m) (x := t.statement (callAny (eval 3)))
    (fun sel _ => sel.answer? Worth.byNumber [1, 2, 3] == some []) (by decide +kernel)
  simp only [settled, Bool.and_eq_true, beq_iff_eq, List.all_eq_true, List.isEmpty_iff] at checked
  obtain ⟨⟨⟨⟨plain, groupBy⟩, having⟩, flag⟩, answer⟩ := checked
  have answer' := eq_of_beq checked'
  refine ⟨t, sel, sel', _, m₁, m₂, hs, own, count, answer, answer', fun right => ?_⟩
  obtain ⟨-, -, -, a, a', ha, ha', iff⟩ := count_eq_returned_iff Worth.byNumber [1, 2, 3]
    ⟨rfl, rfl⟩ hs own count (by
      intro x b hx hb
      rw [show m₁.context? ⟨0⟩ = some x from hx, Option.bind_some, hb, Option.all_some] at flag
      cases hd : b.distinct with
      | bool d => exact ⟨d, rfl⟩
      | _ => simp [hd, Value.isBool] at flag) plain ⟨groupBy, having⟩
  have wrong := iff.mpr right
  rw [Option.some.inj (ha'.symm.trans answer')] at wrong
  cases wrong

end FluentQuery
