import Mathlib.Data.List.Nodup
import FluentQuery.Proofs.Isolation.Aliases
import FluentQuery.Proofs.Isolation.Listing
import FluentQuery.Proofs.Statements

/-! What the FROM clause of a subquery lists, wherever its text stands. -/

namespace FluentQuery

open Sql

namespace Sql

variable {α β : Type}

theorem run_bind_eq_ok {x : Render α} {f : α → Render β} {n n₂ : Naming} {b : β} :
    (x >>= f).run n = .ok (b, n₂) ↔
      ∃ a n₁, x.run n = .ok (a, n₁) ∧ (f a).run n₁ = .ok (b, n₂) := by
  rw [StateT.run_bind, Except.bind_eq_ok]
  simp

theorem run_orFail_eq_ok {e : RenderError} {x : Option α} {n n' : Naming} {a : α} :
    (orFail e x).run n = .ok (a, n') ↔ x = some a ∧ n = n' := by
  cases x with
  | none => simp [orFail, throw, throwThe, MonadExceptOf.throw, StateT.run, StateT.lift]
  | some b =>
    change Except.ok (b, n) = Except.ok (a, n') ↔ _
    simp

/-- A text shows a FROM clause with these elements. -/
def ShowsFrom (text : String) (items : List FromItem) : Prop :=
  ∃ before froms n n' behind, (FromItem.textOfAll items).run n = .ok (froms, n') ∧
    text = before ++ clause " \nFROM " ", " froms ++ behind

theorem Select.text_eq_ok {s : Select} {tellApart : Bool} {scope : Scope} {n n' : Naming}
    {text : String} (h : (s.text tellApart scope).run n = .ok (text, n')) :
    ∃ items next kept, s.fromItems n.pairings = some (items, next) ∧
      scope.keep? s.correlation items = some kept ∧ ShowsFrom text kept := by
  obtain ⟨items, distinct, roots, joins, conditions, groupBy, having, orderBy, correlation, limit,
    offset, supplied⟩ := s
  unfold Select.text at h
  dsimp only at h
  split at h
  · cases h
  split at h
  · cases h
  obtain ⟨_, n₁, h₁, h⟩ := run_bind_eq_ok.mp h
  obtain ⟨-, rfl⟩ := Prod.mk.inj (Except.ok.inj h₁)
  obtain ⟨_, n₂, h₂, h⟩ := run_bind_eq_ok.mp h
  obtain ⟨rfl, rfl⟩ := Prod.mk.inj (Except.ok.inj h₂)
  obtain ⟨⟨all, next⟩, n₃, hall, h⟩ := run_bind_eq_ok.mp h
  obtain ⟨found, rfl⟩ := run_orFail_eq_ok.mp hall
  obtain ⟨_, n₄, h₄, h⟩ := run_bind_eq_ok.mp h
  obtain ⟨kept, n₅, hkept, h⟩ := run_bind_eq_ok.mp h
  obtain ⟨keeps, rfl⟩ := run_orFail_eq_ok.mp hkept
  obtain ⟨columns, n₆, _, h⟩ := run_bind_eq_ok.mp h
  obtain ⟨froms, n₇, hfroms, h⟩ := run_bind_eq_ok.mp h
  obtain ⟨wheres, n₈, _, h⟩ := run_bind_eq_ok.mp h
  obtain ⟨groups, n₉, _, h⟩ := run_bind_eq_ok.mp h
  obtain ⟨havings, n₁₀, _, h⟩ := run_bind_eq_ok.mp h
  obtain ⟨orders, n₁₁, _, h⟩ := run_bind_eq_ok.mp h
  obtain ⟨bounds, n₁₂, _, h⟩ := run_bind_eq_ok.mp h
  obtain ⟨rfl, -⟩ := Prod.mk.inj (Except.ok.inj h)
  refine ⟨all, next, kept, found, keeps,
    (if distinct then "SELECT DISTINCT " else "SELECT ") ++ ", ".intercalate columns, froms, _, _,
    conjunctionText " \nWHERE " conditions wheres ++ clause " GROUP BY " ", " (written groups) ++
      conjunctionText " \nHAVING " having havings ++
      clause " ORDER BY " ", " (written orders) ++ bounds, hfroms, ?_⟩
  simp only [String.append_assoc]

/-- A nested statement as an expression: whether it has any row, or the value it selects. -/
def Select.asTerm (s : Select) (quantified : Bool) : Term :=
  if quantified then .nonempty s else .scalar s

theorem Select.text_asTerm (s : Select) (quantified : Bool) (scope : Scope) :
    (s.asTerm quantified).text scope =
      (do return (if quantified then "EXISTS (" else "(") ++ (← s.text false scope) ++ ")") := by
  cases quantified with
  | true =>
    change (Term.nonempty s).text scope = _
    rw [Term.text]
    rfl
  | false =>
    change (Term.scalar s).text scope = _
    rw [Term.text]
    rfl

theorem ShowsFrom.enclosed {text : String} {items : List FromItem} (h : ShowsFrom text items)
    (before behind : String) : ShowsFrom (before ++ text ++ behind) items := by
  obtain ⟨before', froms, n, n', behind', hfroms, rfl⟩ := h
  refine ⟨before ++ before', froms, n, n', behind' ++ behind, hfroms, ?_⟩
  simp only [String.append_assoc]

/-- The text of a nested statement shows a FROM clause with what is left of its FROM list. -/
theorem Select.asTerm_text_eq_ok {s : Select} {quantified : Bool} {scope : Scope} {n n' : Naming}
    {text : String} (h : ((s.asTerm quantified).text scope).run n = .ok (text, n')) :
    ∃ items next kept, s.fromItems n.pairings = some (items, next) ∧
      scope.keep? s.correlation items = some kept ∧ ShowsFrom text kept := by
  rw [text_asTerm] at h
  obtain ⟨inner, n₁, hinner, h⟩ := run_bind_eq_ok.mp h
  obtain ⟨rfl, rfl⟩ := Prod.mk.inj (Except.ok.inj h)
  obtain ⟨items, next, kept, hitems, hkept, shows⟩ := Select.text_eq_ok hinner
  exact ⟨items, next, kept, hitems, hkept, shows.enclosed _ _⟩

end Sql

/-! ### Subqueries -/

/-- A stream as an expression of the query under construction. -/
def Stream.nested (call : Call) (s : Stream) (quantified : Bool) : Run Value :=
  if quantified then s.existence call else s.asSubquery call

theorem Stream.exec_toSubquery {s : Stream} {call : Call} {c : ContextId} {m m' : Machine}
    (h : exec (s.toSubquery call) m = (.ok c, m')) : c = ⟨m.contexts.length⟩ := by
  unfold toSubquery at h
  obtain ⟨frame, m₁, hframe, h⟩ := exec_bind_eq_ok.mp h
  obtain ⟨c', m₂, hc, h⟩ := exec_bind_eq_ok.mp h
  obtain ⟨_, m₃, _, h⟩ := exec_bind_eq_ok.mp h
  obtain ⟨rfl, -⟩ := exec_pure_eq_ok.mp h
  obtain rfl : m = m₁ := by
    unfold currentFrame at hframe
    rw [exec_bind_of_ok (exec_get m)] at hframe
    split at hframe
    · exact (exec_pure_eq_ok.mp hframe).2
    · cases hframe
  exact (Except.ok.inj (Prod.mk.inj hc).1).symm

theorem Stream.nested_eq (call : Call) (s : Stream) (quantified : Bool) :
    s.nested call quantified = (do
      let c ← s.toSubquery call
      newTerm ((← liftExcept ((← c.read).nested (← get))).asTerm quantified)) := by
  cases quantified <;> rfl

/-- A stream that was built as an expression stands for the SELECT of a new subquery. -/
theorem Stream.exec_nested {s : Stream} {call : Call} {quantified : Bool} {v : Value}
    {m m' : Machine} (h : exec (s.nested call quantified) m = (.ok v, m')) :
    ∃ m₁ x sel id, exec (s.toSubquery call) m = (.ok ⟨m.contexts.length⟩, m₁) ∧
      m₁.context? ⟨m.contexts.length⟩ = some x ∧ x.nested m₁ = .ok sel ∧
      v = .term id (sel.asTerm quantified) ∧ m₁.next ≤ m'.next := by
  rw [nested_eq] at h
  obtain ⟨c, m₁, hc, h⟩ := exec_bind_eq_ok.mp h
  obtain rfl := exec_toSubquery hc
  obtain ⟨x, m₂, hx, h⟩ := exec_bind_eq_ok.mp h
  rw [exec_readContext] at hx
  rcases found : m₁.context? ⟨m.contexts.length⟩ with _ | y
  · rw [found] at hx
    cases hx
  · rw [found] at hx
    obtain ⟨rfl, rfl⟩ := exec_pure_eq_ok.mp hx
    rw [exec_bind_of_ok (exec_get m₁)] at h
    obtain ⟨sel, m₃, hsel, h⟩ := exec_bind_eq_ok.mp h
    obtain ⟨nested, rfl⟩ := exec_liftExcept_eq_ok.mp hsel
    obtain ⟨hv, rfl⟩ := Prod.mk.inj h
    exact ⟨m₁, y, sel, _, hc, found, nested, (Except.ok.inj hv).symm, Nat.le_succ _⟩

/-- The roots and join targets of a SELECT are aliases with numbers of their own from `first` to
below `last`. -/
structure Sql.Select.AliasedWithin (s : Select) (first last : Nat) : Prop where
  nodup : (s.roots ++ s.joins.map (·.target.source)).Nodup
  numbered : ∀ x ∈ s.roots ++ s.joins.map (·.target.source),
    ∃ n, x.alias? = some (.numbered n) ∧ first ≤ n ∧ n < last

/-- What a subquery lists are the aliases that its body sprouted. -/
theorem SelectBody.Gives.aliasedWithin {m : Machine} {b : SelectBody} {restriction : Value}
    {joinConditions : List Term} {correlated : List Value} {s : Select} {first last : Nat}
    (h : b.Gives m restriction joinConditions correlated s)
    (sprouts : SelectBody.empty.Sprouts first last b) : s.AliasedWithin first last := by
  obtain ⟨roots, joins, numbers, hr, hj, perm, nodup, range⟩ := sprouts.exists_added
  have roots_eq : s.roots = roots.map Mapped.source := by
    obtain ⟨roots', hroots', hs⟩ := h.roots
    rw [hr, SelectBody.empty, List.nil_append, Value.mapM_mappedOrExternal_eq_ok] at hroots'
    rw [hs, List.map_injective_iff.mpr (fun _ _ => Value.mapped.inj) hroots']
  have targets_eq : s.joins.map (·.target.source) = joins.map (·.target.source) := by
    rw [h.joins, hj, SelectBody.empty, List.nil_append, List.map_map]
    rfl
  have aliases : ((s.roots ++ s.joins.map (·.target.source)).map (·.alias?)).Perm
      (numbers.map fun n => some (.numbered n)) := by
    rw [roots_eq, targets_eq]
    simpa [Function.comp_def, Mapped.source] using perm.map (Option.map Alias.numbered)
  refine ⟨List.Nodup.of_map (·.alias?) (aliases.nodup_iff.mpr ?_), fun x hx => ?_⟩
  · exact nodup.map fun n k same => Alias.numbered.inj (Option.some.inj same)
  · obtain ⟨n, hn, hx⟩ := List.mem_map.mp (aliases.mem_iff.mp (List.mem_map_of_mem hx))
    exact ⟨n, hx.symm, range n hn⟩

theorem Context.nested_eq_ok {m : Machine} {x : Context} {s : Select} (h : x.nested m = .ok s) :
    ∃ b parent correlated conditions, x.kind = .subquery b parent correlated conditions ∧
      b.Gives m x.restriction conditions correlated s := by
  unfold nested at h
  split at h
  · rename_i b parent correlated conditions hk
    exact ⟨b, parent, correlated, conditions, hk, SelectBody.statement_eq_ok h⟩
  · cases h

/-- The roots and join targets of a subquery are aliases that building it created, and its FROM
clause shows them and nothing else where the statement is isolated, and only there. -/
theorem subquery_lists_own_iff {depth : Nat} {t : Stream} {quantified : Bool} {v : Value}
    {m m' : Machine} (h : exec (t.nested (callAny (eval depth)) quantified) m = (.ok v, m')) :
    ∃ (id : Nat) (s : Select), v = .term id (s.asTerm quantified) ∧ s.AliasedWithin m.next m'.next ∧
      ∀ {scope : Sql.Scope} {n n' : Naming} {text : String},
        ((s.asTerm quantified).text scope).run n = .ok (text, n') →
        ∃ items next kept, s.fromItems n.pairings = some (items, next) ∧
          scope.keep? s.correlation items = some kept ∧ ShowsFrom text kept ∧
          ((∀ x, x ∈ kept.flatMap FromItem.sources ↔ x ∈ s.own n.pairings) ↔
            s.Isolated scope n.pairings items) := by
  obtain ⟨m₁, x, s, id, built, found, nested, rfl, next⟩ := Stream.exec_nested h
  obtain ⟨b, parent, correlated, conditions, hk, gives⟩ := Context.nested_eq_ok nested
  have sprouting : Sprouting m m₁ :=
    (t.toSubquery_keeps (fun f args => callAny_eval_keeps depth f args)).of_exec built
  -- Nothing stood at the address of the subquery before, so all that its body lists was added.
  have sprouts : SelectBody.empty.Sprouts m.next m₁.next b := by
    have body := sprouting.body ⟨m.contexts.length⟩
    have before : m.subqueryBody ⟨m.contexts.length⟩ = .empty := by
      simp [Machine.subqueryBody, Machine.context?]
    have behind : m₁.subqueryBody ⟨m.contexts.length⟩ = b := by
      simp [Machine.subqueryBody, found, Context.subqueryBody, hk]
    rwa [before, behind] at body
  have aliased := gives.aliasedWithin sprouts
  refine ⟨id, s, rfl, ⟨aliased.nodup, fun y hy => ?_⟩, fun text_eq => ?_⟩
  · obtain ⟨k, hy, first, last⟩ := aliased.numbered y hy
    exact ⟨k, hy, first, by omega⟩
  · obtain ⟨items, next, kept, hitems, hkept, shows⟩ := Select.asTerm_text_eq_ok text_eq
    exact ⟨items, next, kept, hitems, hkept, shows, Select.lists_own_iff hitems hkept⟩

/-- The statement whose rows an expression asks for. -/
def Value.nonempty? : Value → Option Select
  | term _ (.nonempty s) => some s
  | _ => none

/-- Tags compared with the products of the statement around are listed alone directly inside it; one
level deeper, inside reviews, the products are listed again. -/
theorem subquery_lists_own_iff_tags :
    let product : Value := .mapped ⟨.product, none⟩
    let tag : Value := .mapped ⟨.tag, none⟩
    let session : Value := .session ⟨1, ⟨some [], none, none⟩⟩
    let same : Value := .closure ⟨0, ["t"],
      .compare .eq (.get (.variable "t") "id") (.get (.variable "p") "id"), [("p", product)]⟩
    let t : Stream := ⟨3, .of .search, session, .queryType ⟨2, .search, tag⟩,
      .configurer ⟨4, .root tag, [.filter (.queryType ⟨2, .search, tag⟩) (.function same)]⟩,
      .unset, .unset, [], []⟩
    let start : Machine := .start ⟨false, false, false⟩
    let m : Machine := { start with
      contexts := [.query]
      stack := [⟨6, .criteriaBuilder 5, .context ⟨0⟩⟩]
      next := 8 }
    let tags : Source := ⟨.tags, some (.numbered 9)⟩
    let products : Source := Table.products.source
    let reviews : Source := ⟨.reviews, some (.numbered 7)⟩
    let inside : Sql.Scope := ⟨[products], [products], none⟩
    let deeper : Sql.Scope := ⟨[reviews], [reviews, products], none⟩
    ∃ id s m', exec (t.nested (callAny (eval 3)) true) m = (.ok (.term id (.nonempty s)), m') ∧
      s.own 0 = [tags] ∧ s.fromItems 0 = some ([.source tags, .source products], 0) ∧
      s.Isolated inside 0 [.source tags, .source products] ∧
      ¬s.Isolated deeper 0 [.source tags, .source products] := by
  intro product tag session same t start m tags products reviews inside deeper
  let told (s : Select) : Bool :=
    s.own 0 == [tags] && s.fromItems 0 == some ([.source tags, .source products], 0) &&
      s.correlation == .automatic && (((Term.nonempty s).text inside).run .empty).isOk &&
      (((Term.nonempty s).text deeper).run .empty).isOk
  obtain ⟨v, m', built, checked⟩ := exec_of_check (m := m) (x := t.nested (callAny (eval 3)) true)
    (fun v _ => v.nonempty?.any told) (by decide +kernel)
  obtain ⟨id, s, rfl, -, lists⟩ := subquery_lists_own_iff built
  simp only [told, Value.nonempty?, Select.asTerm, Option.any_some, Bool.and_eq_true, beq_iff_eq,
    reduceIte] at checked
  obtain ⟨⟨⟨⟨own, items⟩, automatic⟩, inside_ok⟩, deeper_ok⟩ := checked
  have exactly {scope : Sql.Scope} (kept : List FromItem)
      (ok : (((Term.nonempty s).text scope).run .empty).isOk = true)
      (left : scope.keep? .automatic [.source tags, .source products] = some kept) :
      (∀ x, x ∈ kept.flatMap FromItem.sources ↔ x ∈ [tags]) ↔
        s.Isolated scope 0 [.source tags, .source products] := by
    rcases shown : ((Term.nonempty s).text scope).run .empty with e | ⟨text, n'⟩
    · rw [shown] at ok
      cases ok
    · obtain ⟨items', next, kept', hitems, hkept, -, exactly⟩ := lists shown
      obtain ⟨rfl, -⟩ := Prod.mk.inj (Option.some.inj (items.symm.trans hitems))
      rw [automatic, left] at hkept
      obtain rfl := Option.some.inj hkept
      rwa [← own]
  refine ⟨id, s, m', built, own, items, ?_, ?_⟩
  · exact (exactly [.source tags] inside_ok (by decide)).mp fun x => Iff.rfl
  · have again := exactly [.source tags, .source products] deeper_ok (by decide)
    intro isolated
    have := (again.mpr isolated products).mp (by decide)
    exact absurd this (by decide)

end FluentQuery
