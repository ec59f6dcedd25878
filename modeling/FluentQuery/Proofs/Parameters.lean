import FluentQuery.Proofs.Associations
import FluentQuery.Proofs.Nodes
import FluentQuery.Proofs.Parameters.Rendering
import FluentQuery.Proofs.Parameters.Wrapping
import FluentQuery.Proofs.Provenance.Programs
import FluentQuery.Proofs.Structure

/-! Where supplied parameters go. A search gives them to its statement, where they take the place of
the values that the parameters of those names have; the statement stays the same otherwise. Delete
and update statements take none. -/

namespace FluentQuery

open Sql

/-! ### Streams without parameters -/

namespace Stream

/-- The same stream without parameters. -/
def unsupplied (s : Stream) : Stream := { s with params := [] }

theorem unsupplied_of_params {s : Stream} (h : s.params = []) : s.unsupplied = s := by
  cases s
  cases h
  rfl

theorem shown?_unsupplied (s : Stream) (m : Machine) :
    (Value.stream s.unsupplied).shown? m = (Value.stream s).shown? m :=
  shown?_congr m rfl rfl rfl rfl

/-- Nothing of the criteria depends on the parameters. -/
theorem toContext_unsupplied (s : Stream) (call : Call) :
    s.unsupplied.toContext call = s.toContext call := by
  have shown : shownNow (.stream s.unsupplied) = shownNow (.stream s) := by
    unfold shownNow
    simp only [shown?_unsupplied]
  unfold toContext
  rw [shown]
  rfl

end Stream

/-! ### Statements -/

namespace Executable

variable {q : Executable} {m : Machine}

/-- What a query supplies to its statement. -/
def supplied (q : Executable) (m : Machine) : List (String × Literal) :=
  (m.mapping q.params).map fun (k, v) => (k, v.carried)

theorem withParams_select (h : ∀ x ∈ m.mapping q.params, x.1 ∉ refusedNames) (b : Select) :
    q.withParams m (.select b) = .ok (.select (b.supply (q.supplied m))) := by
  unfold withParams supplied
  dsimp only
  split
  · rename_i none
    rw [List.isEmpty_iff.mp none]
    cases b
    rfl
  rw [if_neg]
  · rfl
  · simpa using h

theorem withParams_refused (h : ∃ x ∈ m.mapping q.params, x.1 ∈ refusedNames) (st : Statement) :
    q.withParams m st = .error .external := by
  obtain ⟨x, mem, refused⟩ := h
  unfold withParams
  dsimp only
  rw [if_neg (by simpa using List.ne_nil_of_mem mem), if_pos]
  exact List.any_eq_true.mpr ⟨x, mem, by simpa using refused⟩

/-- Only a SELECT takes parameters. -/
theorem withParams_bulk (h : m.mapping q.params ≠ []) {st : Statement}
    (bulk : ∀ b, st ≠ .select b) : q.withParams m st = .error .external := by
  unfold withParams
  dsimp only
  rw [if_neg (by simpa using h)]
  split
  · rfl
  · cases st with
    | select b => exact absurd rfl (bulk b)
    | _ => rfl

theorem withParams_nil (h : m.mapping q.params = []) (st : Statement) :
    q.withParams m st = .ok st := by
  unfold withParams
  simp only [h, List.isEmpty_nil, if_true]

/-- Row bounds are applied the same way whatever is supplied. -/
theorem withBounds_supply (next : Nat) (given : List (String × Literal)) (b : Select) {st : Statement}
    (h : q.withBounds next (.select b) = .ok st) : ∃ b', st = .select b' ∧
      q.withBounds next (.select (b.supply given)) = .ok (.select (b'.supply given)) := by
  unfold withBounds at h ⊢
  split at h
  · rename_i unset
    obtain rfl := Except.ok.inj h
    exact ⟨b, rfl, by rw [if_pos unset]⟩
  · rename_i set
    obtain ⟨offset, ho, h⟩ := Except.bind_eq_ok.mp h
    obtain ⟨limit, hl, h⟩ := Except.bind_eq_ok.mp h
    obtain rfl := Except.ok.inj h
    refine ⟨_, rfl, ?_⟩
    rw [if_neg set]
    exact Except.bind_eq_ok.mpr ⟨offset, ho, Except.bind_eq_ok.mpr ⟨limit, hl, rfl⟩⟩

end Executable

/-! ### Kinds of statements -/

/-- Only searches stand for a SELECT. -/
theorem Context.statement_select_iff {t : QueryType} {x : Context} {m : Machine} {st : Statement}
    (hx : x.created = t.blank) (h : x.statement m = .ok st) :
    (∃ b, st = .select b) ↔ t.purpose = .search := by
  unfold QueryType.blank at hx
  cases Context.states h with
  | select body gives =>
    refine ⟨fun _ => ?_, fun _ => ⟨_, rfl⟩⟩
    obtain ⟨restriction, kind⟩ := x
    cases hp : t.purpose with
    | search => rfl
    | delete | update =>
      rw [hp] at hx
      cases kind <;> cases body <;> cases hx
  | delete kind | update kind =>
    constructor
    · rintro ⟨b, hb⟩
      cases hb
    · intro hp
      rw [hp, Context.created, kind] at hx
      cases hx

/-! ### Queries of streams -/

namespace Stream

variable {t : Stream} {qt : QueryType} {call : Call} {m m₁ : Machine}

/-- A stream whose query has a statement has a session, and its criteria can be built. -/
theorem exists_context_of_queryStatement (hqt : t.queryType = .queryType qt) {st : Statement}
    (h : exec (t.queryStatement call) m = (.ok st, m₁)) : t.session.isNull = false ∧
      ∃ m₂, exec (t.toContext call) m = (.ok m.nextQuery, m₂) := by
  obtain ⟨v, m', built, -⟩ := exec_bind_eq_ok.mp h
  unfold toQuery at built
  simp only [hqt] at built
  obtain ⟨u, m₂, hu, built⟩ := exec_bind_eq_ok.mp built
  obtain ⟨q, m₃, made, -⟩ := exec_bind_eq_ok.mp built
  unfold QueryType.createQuery at made
  obtain ⟨session, -⟩ := exec_guarded_eq_ok.mp made
  obtain ⟨rfl, -⟩ := toContext_configured hu
  exact ⟨by simpa using session, m₂, hu⟩

section Completing

variable (t) (c : ContextId) (m)

/-- What a stream supplies to a statement. -/
def supplied : List (String × Literal) := (override [] t.params).map fun (k, v) => (k, v.carried)

theorem completed_select (plain : ∀ x ∈ override [] t.params, x.1 ∉ Executable.refusedNames)
    {base : Select} {st : Statement}
    (h : t.unsupplied.completed .search c m (.select base) = .ok st) :
    ∃ b, st = .select b ∧
      t.completed .search c m (.select base) = .ok (.select (b.supply t.supplied)) := by
  unfold completed at h ⊢
  rw [Executable.withParams_nil (mapping_wrapped _ _ _ _)] at h
  obtain ⟨b, rfl, bounded⟩ := Executable.withBounds_supply m.next t.supplied base h
  refine ⟨b, rfl, ?_⟩
  have given := mapping_wrapped t .search (.context c) m
  rw [Executable.withParams_select (by rwa [given]), Executable.supplied, given]
  exact bounded

theorem completed_refused (purpose : Purpose) (bare : Statement)
    (h : ∃ x ∈ override [] t.params, x.1 ∈ Executable.refusedNames) :
    t.completed purpose c m bare = .error .external := by
  unfold completed
  rw [Executable.withParams_refused (by rwa [mapping_wrapped])]
  rfl

theorem completed_bulk (purpose : Purpose) {bare : Statement} (h : override [] t.params ≠ [])
    (bulk : ∀ b, bare ≠ .select b) : t.completed purpose c m bare = .error .external := by
  unfold completed
  rw [Executable.withParams_bulk (by rwa [mapping_wrapped]) bulk]
  rfl

end Completing

/-- A statement whose text can be shown in the log still has one with parameters. -/
theorem loggable_supplied {w : Moment} (hm : m.Known w) (ht : FluentQuery.Stream.Known w t)
    {purpose : Purpose} {criteria : Value} {b : Select}
    (h : t.unsupplied.Loggable (t.unsupplied.wrapped purpose criteria m) (.select b)) :
    t.Loggable (t.wrapped purpose criteria m) (.select (b.supply t.supplied)) := by
  intro compiled logging
  obtain ⟨shown, text⟩ := h compiled logging
  have seen (s : Stream) : (Value.stream t).shown? (s.wrapped purpose criteria m) =
      (Value.stream t).shown? m :=
    Value.shown?_grown (s.grows_wrapped purpose criteria m _) hm ht
  rw [t.shown?_unsupplied, seen t.unsupplied] at shown
  refine ⟨by rwa [seen t], ?_⟩
  cases hr : (Statement.select b).render with
  | error e =>
    rw [hr] at text
    cases text
  | ok r =>
    obtain ⟨n, r', -, hr', -⟩ := (Select.render_supply t.supplied b).2 r hr
    rw [hr']
    rfl

end Stream

/-- The value that a query supplies for a parameter is that of the last operation naming it. -/
theorem Stream.lookup_supplied {s t : Stream} {ops : List StreamOp} (chain : s.Chained ops t)
    (fresh : s.params = []) (name : String) : t.supplied.lookup name =
      ((ops.flatMap StreamOp.params).reverse.lookup name).map Value.carried := by
  unfold supplied
  rw [chain.params_eq, fresh, override_override, lookup_map_values, lookup_override]
  simp

/-- If the query of a stream has a statement without parameters, one statement of its criteria is
completed both with and without them. It is a SELECT in a search and no other. -/
theorem Stream.exists_completed {t : Stream} {w : Moment} {m m₁ : Machine} (hm : m.Known w)
    (ht : FluentQuery.Stream.Known w t) {qt : QueryType} (hqt : t.queryType = .queryType qt)
    (depth : Nat) {st : Statement}
    (bare : exec (t.unsupplied.queryStatement (callAny (eval depth))) m = (.ok st, m₁)) :
    let result := (exec (t.queryStatement (callAny (eval depth))) m).1
    ∃ m₂ base, ((∃ b, base = .select b) ↔ qt.purpose = .search) ∧
      t.unsupplied.completed qt.purpose m.nextContext m₂ base = .ok st ∧
      (t.completed qt.purpose m.nextContext m₂ base = .error .external → result = .error .external) ∧
      ∀ b, st = .select b →
        t.completed qt.purpose m.nextContext m₂ base = .ok (.select (b.supply t.supplied)) →
          result = .ok (.select (b.supply t.supplied)) := by
  intro result
  obtain ⟨session, m₂, built⟩ := exists_context_of_queryStatement (t := t.unsupplied) hqt bare
  have built' : exec (t.toContext (callAny (eval depth))) m = (.ok m.nextQuery, m₂) :=
    t.toContext_unsupplied _ ▸ built
  have calls {w : Moment} {f : Value} {args : List Value} (hf : f.Known w)
      (ha : ∀ v ∈ args, v.Known w) := callAny_eval_sound depth hf ha
  obtain ⟨w₂, le, known, -⟩ := toContext_sound ht calls m hm
  rw [after_eq built'] at known
  obtain ⟨hst, loggable⟩ :=
    (exec_queryStatement_ok_iff (s := t.unsupplied) hqt built known session).mp ⟨m₁, bare⟩
  rw [wrappedStatement_eq known] at hst
  obtain ⟨base, hbase, hst⟩ := Except.bind_eq_ok.mp hst
  have statement : t.wrappedStatement qt.purpose m.nextContext m₂ =
      t.completed qt.purpose m.nextContext m₂ base := by
    rw [wrappedStatement_eq known, hbase]
    rfl
  refine ⟨m₂, base, ?_, hst, fun fails => ?_, fun b select completed => ?_⟩
  · have created := toContext_created hqt (callAny_eval_keeps depth) built'
    obtain ⟨x, hx, blank⟩ := Option.map_eq_some_iff.mp created
    rw [hx] at hbase
    exact Context.statement_select_iff blank hbase
  · obtain ⟨m', failed⟩ :=
      exec_queryStatement_of_error hqt built' known session (statement.trans fails)
    exact congrArg Prod.fst failed
  · subst select
    have logs := loggable_supplied known (FluentQuery.Stream.Known.mono le ht) loggable
    obtain ⟨m', made⟩ := (exec_queryStatement_ok_iff hqt built' known session).mpr
      ⟨statement.trans completed, logs⟩
    exact congrArg Prod.fst made

/-- Whatever is configured and wherever in its chain parameters are supplied, the query of a search
has the statement it has without them, which gets, for each name, the value of the last operation
naming it. Its text stays the same. A parameter of a name that is supplied gets that value, also one
of a literal or a row bound if its generated name is supplied; every other keeps its own, which is
null for a named one unless a statement inside supplies it. A delete or update query that has a
statement without parameters has none as soon as any are supplied, and so has a search that is
supplied a name that no value can be supplied for. -/
theorem parameters_reach_statement {s t : Stream} {ops : List StreamOp} (chain : s.Chained ops t)
    (fresh : s.params = []) {w : Moment} {m m₁ : Machine} (hm : m.Known w)
    (ht : FluentQuery.Stream.Known w t) {qt : QueryType} (hqt : t.queryType = .queryType qt)
    (depth : Nat) {st : Statement}
    (bare : exec (t.unsupplied.queryStatement (callAny (eval depth))) m = (.ok st, m₁)) :
    let result := (exec (t.queryStatement (callAny (eval depth))) m).1
    let given := ops.flatMap StreamOp.params
    (given = [] → result = .ok st) ∧
    (given ≠ [] → (qt.purpose ≠ .search ∨ ∃ x ∈ given, x.1 ∈ Executable.refusedNames) →
      result = .error .external) ∧
    (qt.purpose = .search → (∀ x ∈ given, x.1 ∉ Executable.refusedNames) →
      ∃ b supplied, st = .select b ∧ result = .ok (.select (b.supply supplied)) ∧
        (∀ name, supplied.lookup name = (given.reverse.lookup name).map Value.carried) ∧
        ∀ r, (Statement.select b).render = .ok r → ∃ n r',
          ((Statement.select b).text .top).run .empty = .ok (r.text, n) ∧
          (Statement.select (b.supply supplied)).render = .ok r' ∧
          Rendered.Given supplied n r r') := by
  intro result given
  have params : override [] t.params = override [] given := by
    rw [chain.params_eq, fresh, override_override]
  have names (key : String) : key ∈ (override [] t.params).map Prod.fst ↔ key ∈ given.map Prod.fst := by
    rw [params, mem_keys_override]
    simp
  obtain ⟨m₂, base, select, completes, fails, succeeds⟩ :=
    Stream.exists_completed hm ht hqt depth bare
  refine ⟨fun none => ?_, fun some refused => fails ?_, fun search plain => ?_⟩
  · have empty : t.params = [] := by
      rw [chain.params_eq, fresh, show ops.flatMap _ = [] from none, override_nil]
    rw [Stream.unsupplied_of_params empty] at bare
    exact congrArg Prod.fst bare
  · rcases refused with bulk | ⟨x, mem, refused⟩
    · refine Stream.completed_bulk t _ _ _ (fun none => ?_) fun b hb => bulk (select.mp ⟨b, hb⟩)
      obtain ⟨x, mem⟩ := List.exists_mem_of_ne_nil _ some
      have held := (names x.1).mpr (List.mem_map_of_mem mem)
      rw [none] at held
      cases held
    · obtain ⟨y, held, same⟩ := List.mem_map.mp ((names x.1).mpr (List.mem_map_of_mem mem))
      exact Stream.completed_refused t _ _ _ _ ⟨y, held, same ▸ refused⟩
  · obtain ⟨base, rfl⟩ := select.mpr search
    rw [search] at completes succeeds
    have plain' : ∀ x ∈ override [] t.params, x.1 ∉ Executable.refusedNames := by
      intro x mem refused
      obtain ⟨y, hy, same⟩ := List.mem_map.mp ((names x.1).mp (List.mem_map_of_mem mem))
      exact plain y hy (same ▸ refused)
    obtain ⟨b, rfl, supplies⟩ := Stream.completed_select t _ _ plain' completes
    have rendered := Select.render_supply t.supplied b
    exact ⟨b, t.supplied, rfl, succeeds b rfl supplies, Stream.lookup_supplied chain fresh, rendered.2⟩

/-- The products of one name, to be found and to be deleted, with the name supplied: the search gets
it, and the delete query has no statement. -/
theorem parameters_reach_statement_named :
    let product : Value := .mapped ⟨.product, none⟩
    let named : Closure := ⟨5, ["p"],
      .compare .eq (.get (.variable "p") "name") (.parameter "name"), []⟩
    let qt (purpose : Purpose) : QueryType := ⟨2, purpose, product⟩
    let s (purpose : Purpose) : Stream := ⟨4, .of purpose, .session ⟨1, ⟨some [], none, none⟩⟩,
      .queryType (qt purpose), .configurer ⟨3, .root product,
        [.filter (.queryType (qt purpose)) (.function (.closure named))]⟩,
      .unset, .unset, [], []⟩
    let t (purpose : Purpose) : Stream := { s purpose with
      id := 7, params := [("name", .text 6 "Gadget")] }
    let m : Machine := { Machine.start ⟨false, false, false⟩ with next := 8, globals := [] }
    let built (s : Stream) := (exec (s.queryStatement (callAny (eval 8))) m).1
    (∃ b supplied, built (t .search).unsupplied = .ok (.select b) ∧
      built (t .search) = .ok (.select (b.supply supplied)) ∧
      supplied.lookup "name" = some (.plain (.text "Gadget"))) ∧
    (∃ st, built (t .delete).unsupplied = .ok st) ∧ built (t .delete) = .error .external := by
  intro product named qt s t m built
  let w (purpose : Purpose) : Moment := ⟨m.extent, fun n => if n = 7 then some (t purpose) else none⟩
  have given (purpose : Purpose) {n : Nat} (h : n < 8) : (w purpose).Given n := h
  have whole (purpose : Purpose) : product.Known (w purpose) := fun _ _ => rfl
  have type (purpose : Purpose) : (qt purpose).Known (w purpose) :=
    ⟨given purpose (by decide), whole purpose⟩
  have known (purpose : Purpose) : FluentQuery.Stream.Known (w purpose) (t purpose) := by
    refine ⟨⟨given purpose (by decide), rfl⟩, given purpose (by decide), type purpose,
      ⟨given purpose (by decide), whole purpose, ?_, trivial⟩,
      ⟨given purpose (by decide), trivial⟩, trivial⟩
    exact ⟨type purpose, given purpose (by decide), trivial⟩
  have machine (purpose : Purpose) : m.Known (w purpose) :=
    ⟨⟨known_nil, known_nil, known_nil, known_nil, known_nil, known_nil⟩, rfl, by decide⟩
  have chain (purpose : Purpose) : (s purpose).Chained
      [.fluent (.withParams [("name", .text 6 "Gadget")])] (t purpose) :=
    .snoc (m := { m with next := 7 }) .nil rfl
  have reach (purpose : Purpose) {st : Statement} {m₁ : Machine}
      (bare : exec ((t purpose).unsupplied.queryStatement (callAny (eval 8))) m = (.ok st, m₁)) :=
    parameters_reach_statement (chain purpose) rfl (machine purpose) (known purpose) rfl 8 bare
  obtain ⟨found, m₁, search, -⟩ := exec_of_check
    (x := (t .search).unsupplied.queryStatement (callAny (eval 8))) (m := m) (fun _ _ => true)
    (by decide +kernel)
  obtain ⟨deleted, m₂, delete, -⟩ := exec_of_check
    (x := (t .delete).unsupplied.queryStatement (callAny (eval 8))) (m := m) (fun _ _ => true)
    (by decide +kernel)
  obtain ⟨b, supplied, rfl, result, values, -⟩ := (reach .search search).2.2 rfl (by decide)
  refine ⟨⟨b, supplied, congrArg Prod.fst search, result, (values "name").trans rfl⟩,
    ⟨deleted, congrArg Prod.fst delete⟩, ?_⟩
  exact (reach .delete delete).2.1 (List.cons_ne_nil _ _) (.inl (by decide))

end FluentQuery
