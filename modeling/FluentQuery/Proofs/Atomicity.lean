import FluentQuery.Proofs.JoinConditions
import FluentQuery.Proofs.Parameters.Growth

/-! What is left of a call that a query context refused. Each call checks and looks up everything it
needs before it changes the context, at a single place and last, so nothing is left. One call goes on
too early: the join of a subquery from a correlated root that is no mapped class or alias adds its
target to the roots before it fails. -/

namespace FluentQuery

open Sql

variable {c : ContextId} {m m' n : Machine} {x y : Context} {e : Error} {call : Call}

/-- What adds to a machine without changing it may add in several steps. -/
instance : Inert Machine.Grows where
  refl _ := ⟨rfl, rfl, fun _ _ => rfl, fun _ _ => rfl⟩
  trans {a b _} hab hbc := by
    refine ⟨hbc.refs.trans hab.refs, hbc.contexts.trans hab.contexts, fun i hi => ?_, fun i hi => ?_⟩
    · have there : i < b.queries.length := by
        have held := (hab.queries i hi).trans (List.getElem?_eq_getElem hi)
        exact (List.getElem?_eq_some_iff.mp held).1
      exact (hbc.queries i there).trans (hab.queries i hi)
    · have there : i < b.mappings.length := by
        have held := (hab.mappings i hi).trans (List.getElem?_eq_getElem hi)
        exact (List.getElem?_eq_some_iff.mp held).1
      exact (hbc.mappings i there).trans (hab.mappings i hi)
  fresh _ := ⟨rfl, rfl, fun _ _ => rfl, fun _ _ => rfl⟩
  newMapping _ _ := ⟨rfl, rfl, fun _ _ => rfl, fun _ hi => List.getElem?_append_left hi⟩
  log _ _ := ⟨rfl, rfl, fun _ _ => rfl, fun _ _ => rfl⟩
  handle _ _ := ⟨rfl, rfl, fun _ _ => rfl, fun _ _ => rfl⟩

/-- If the computation fails, it changed nothing that was there before. -/
def Atomic {α : Type} (z : Run α) : Prop :=
  ∀ m m' e, exec z m = (.error e, m') → m.Grows m'

namespace Atomic

variable {α β : Type}

theorem of_keeps {z : Run α} (h : Keeps Machine.Grows z) : Atomic z := fun _ _ _ fails => h.of_exec fails

theorem fail (e : Error) : Atomic (fail e : Run α) := of_keeps (.fail e)

/-- What only adds may come before. -/
theorem bind {z : Run α} {f : α → Run β} (hz : Keeps Machine.Grows z) (hf : ∀ a, Atomic (f a)) :
    Atomic (z >>= f) := by
  intro m m' e h
  rcases ran : exec z m with ⟨err | a, m₁⟩
  · rw [exec_bind_of_error ran] at h
    obtain ⟨-, rfl⟩ := Prod.mk.inj h
    exact hz.of_exec ran
  · rw [exec_bind_of_ok ran] at h
    exact Inert.trans (hz.of_exec ran) (hf a _ _ _ h)

/-- What cannot fail may come behind. -/
theorem bind_pure {z : Run α} (hz : Atomic z) (f : α → β) : Atomic (z >>= fun a => pure (f a)) := by
  intro m m' e h
  rcases ran : exec z m with ⟨err | a, m₁⟩
  · rw [exec_bind_of_error ran] at h
    obtain ⟨-, rfl⟩ := Prod.mk.inj h
    exact hz _ _ _ ran
  · rw [exec_bind_of_ok ran] at h
    cases h

theorem guarded {p : Prop} [Decidable p] {e : Error} {k : Unit → Run α} {z : Run α}
    (hz : Atomic z) : Atomic (if p then FluentQuery.fail e >>= k else z) := by
  split
  · exact of_keeps (.fail_bind e k)
  · exact hz

theorem update (c : ContextId) (f : Context → Except Error Context) : Atomic (c.update f) := by
  intro m m' e h
  rw [ContextId.eq_of_update_eq_error h]
  exact Inert.refl m

theorem updateGet (c : ContextId) (f : Context → Except Error (Value × Context)) :
    Atomic (c.updateGet f) := by
  intro m m' e h
  rw [ContextId.eq_of_updateGet_eq_error h]
  exact Inert.refl m

theorem newContext (k : ContextKind) : Atomic (newContext k) := by
  intro m m' e h
  cases h

end Atomic

namespace ContextId

/-! ### Single operations -/

theorem growRoot_atomic (entity : Value) : Atomic (c.growRoot entity) :=
  .bind Inert.fresh fun _ => .updateGet c _

theorem growJoin_atomic (correlated : Bool) (o : Mapped) (r : Relationship) (outer : Value) :
    Atomic (c.growJoin correlated o r outer) :=
  .bind Inert.fresh fun _ => .bind .get fun _ => .updateGet c _

theorem addRoot_atomic (entity : Value) : Atomic (c.addRoot entity) := by
  unfold addRoot
  refine .bind c.read_keeps fun x => ?_
  split
  · exact .of_keeps (by grind)
  · exact growRoot_atomic entity

theorem assign_atomic (key v : Value) : Atomic (c.assign key v) := by
  unfold assign
  refine .bind c.read_keeps fun x => ?_
  split
  · refine .bind (resolveAttribute_keeps _ _) fun a => ?_
    split
    · exact .bind (register_keeps v) fun _ => .update c _
    · exact .fail _
  · exact .fail _

/-! ### Joins -/

/-- A join from a correlated root that is no mapped class or alias gets as far as adding its target: its
relationship `r` is found, neither outer nor through a pairing table. This leaves `n`. -/
structure AbandonsJoin (c : ContextId) (m : Machine) (owner key outer : Value) (x : Context)
    (r : Relationship) (n : Machine) : Prop where
  context : m.context? c = some x
  correlates : x.correlates owner = true
  unmapped : owner.source? = none
  related : ∃ own, exec (resolveRelationship owner key) m = (.ok (own, r), n)
  inner : outer.truth? n = some false
  direct : r.pairing? = none

/-- The machine after a join was abandoned: the target, a new alias, is the last root of the body. -/
def abandoned (c : ContextId) (x : Context) (b : SelectBody) (r : Relationship) (n : Machine) :
    Machine :=
  let grown := { b with roots := b.roots ++ [.mapped ⟨r.target, some n.next⟩] }
  { n with
    next := n.next + 1
    contexts := n.contexts.set c.index { x with kind := x.kind.withBody grown } }

variable {owner key outer : Value} {r : Relationship}

theorem isSubquery_of_correlates (h : x.correlates owner = true) : x.isSubquery = true := by
  unfold Context.correlates at h
  split at h
  · simp only [Context.isSubquery, ‹x.kind = _›]
  · cases h

/-- Adding the target of an inner join that is not through a pairing table is all that becomes of it. -/
theorem exec_joinUnmapped {b : SelectBody} (hx : n.context? c = some x) (sub : x.isSubquery = true)
    (hb : x.kind.body? = some b) (inner : outer.truth? n = some false) (direct : r.pairing? = none) :
    exec (c.joinUnmapped r outer) n = (.error .external, c.abandoned x b r n) := by
  have added : exec (c.addRoot (.mapped ⟨r.target, none⟩)) n =
      (.ok (.mapped ⟨r.target, some n.next⟩), c.abandoned x b r n) := by
    rw [exec_addRoot hx sub, growRoot, exec_bind_of_ok (exec_fresh n), exec_updateGet]
    have aliased : x.addRoot n.next (.mapped ⟨r.target, none⟩) =
        .ok (.mapped ⟨r.target, some n.next⟩, { x with
          kind := x.kind.withBody { b with roots := b.roots ++ [.mapped ⟨r.target, some n.next⟩] } }) := by
      unfold Context.addRoot Context.updateBody
      simp only [hb, sub, Bool.not_true, Bool.and_false, Bool.false_eq_true, ↓reduceIte]
      rfl
    have hx' : ({ n with next := n.next + 1 } : Machine).context? c = some x := hx
    simp only [hx', aliased]
    rfl
  unfold joinUnmapped
  rw [exec_bind_of_ok (exec_get n), inner]
  have dropped : discard (c.addRoot (.mapped ⟨r.target, none⟩)) = (do
      let _ ← c.addRoot (.mapped ⟨r.target, none⟩)
      return ()) := rfl
  cases link : r.link with
  | through pairing left right => simp [Relationship.pairing?, link] at direct
  | _ =>
    dsimp only
    rw [dropped, bind_assoc, exec_bind_of_ok added]
    rfl

theorem exec_join_of_abandons (h : c.AbandonsJoin m owner key outer x r n) :
    m.Grows n ∧ ∃ b, x.kind.body? = some b ∧
      exec (c.join owner key outer) m = (.error .external, c.abandoned x b r n) := by
  obtain ⟨own, related⟩ := h.related
  have grows : m.Grows n := Keeps.of_exec (resolveRelationship_keeps owner key) related
  have sub := isSubquery_of_correlates h.correlates
  have selecting := Context.isSelecting_of_isSubquery sub
  obtain ⟨b, hb⟩ := Option.isSome_iff_exists.mp selecting
  refine ⟨grows, b, hb, ?_⟩
  unfold join
  rw [exec_bind_of_ok (exec_readContext_of_some h.context), if_neg (by simp [selecting]),
    exec_bind_of_ok related]
  simp only [h.correlates, h.unmapped, Option.isNone_none, Bool.and_self, ↓reduceIte]
  exact exec_joinUnmapped ((grows.context? c).trans h.context) sub hb h.inner h.direct

theorem exec_read_of_none (hx : m.context? c = none) : exec c.read m = (.error .external, m) := by
  rw [exec_readContext, hx]

/-- A join that is refused changes nothing, unless it is abandoned. -/
theorem join_atomic_or_abandons (h : exec (c.join owner key outer) m = (.error e, m')) :
    m.Grows m' ∨ ∃ x r n, c.AbandonsJoin m owner key outer x r n := by
  unfold join at h
  rcases hx : m.context? c with _ | x
  · rw [exec_bind_of_error (exec_read_of_none hx)] at h
    obtain ⟨-, rfl⟩ := Prod.mk.inj h
    exact .inl (Inert.refl m)
  rw [exec_bind_of_ok (exec_readContext_of_some hx)] at h
  by_cases selecting : x.isSelecting = true
  · rw [if_neg (by simp [selecting])] at h
    rcases resolved : exec (resolveRelationship owner key) m with ⟨err | ⟨own, r⟩, n⟩
    · rw [exec_bind_of_error resolved] at h
      obtain ⟨-, rfl⟩ := Prod.mk.inj h
      exact .inl (Keeps.of_exec (resolveRelationship_keeps owner key) resolved)
    have grows : m.Grows n := Keeps.of_exec (resolveRelationship_keeps owner key) resolved
    rw [exec_bind_of_ok resolved] at h
    dsimp only at h
    split at h
    · rename_i unmapped
      obtain ⟨correlates, none⟩ := Bool.and_eq_true_iff.mp unmapped
      -- The refusals that come first change nothing; past them the join is abandoned.
      unfold joinUnmapped at h
      rw [exec_bind_of_ok (exec_get n)] at h
      split at h
      · cases h
        exact .inl grows
      · cases h
        exact .inl grows
      · cases h
        exact .inl grows
      · rename_i inner direct
        refine .inr ⟨x, r, n, hx, correlates, Option.isNone_iff_eq_none.mp none, ⟨own, resolved⟩,
          inner, ?_⟩
        cases link : r.link with
        | through pairing left right => exact absurd link (direct _ _ _)
        | _ => simp [Relationship.pairing?, link]
    · exact .inl (Inert.trans grows (growJoin_atomic _ own r outer _ _ _ h))
  · rw [if_pos (by simpa using selecting)] at h
    cases h
    exact .inl (Inert.refl m)

/-! ### Calls -/

/-- The methods by which a query context is told something. -/
def mutators : List String :=
  ["where", "from_", "join", "group_by", "having", "distinct", "select", "order_by", "correlate", "set"]

/-- A call of `join` that is abandoned. -/
def Abandons (c : ContextId) (m : Machine) (method : String) (a : ArgList) (x : Context)
    (r : Relationship) (n : Machine) : Prop :=
  method = "join" ∧ ∃ owner key outer,
    exec (a.bind ⟨["from_", "attribute"], [], ["outer"]⟩) m = (.ok [some owner, some key, outer], m) ∧
      c.AbandonsJoin m owner key (outer.getD (.bool false)) x r n

theorem exec_bindArgs {a : ArgList} {s : ArgList.Signature} {r : Except Error (List (Option Value))}
    (h : exec (a.bind s) m = (r, m')) : m' = m := by
  have kept : after (a.bind s) m = m := by
    unfold ArgList.bind
    dsimp only
    split
    · rfl
    · split
      · rfl
      · split <;> rfl
  rwa [after_eq h] at kept

theorem changed_atomic (f : Context → Except Error Context) (v : Value) :
    Atomic (do c.update f; return v) := .bind_pure (.update c f) fun _ => v

/-- A call that fails changed nothing that was there before, unless it was a join that is abandoned. -/
theorem invoke_atomic_or_abandons {method : String} {a : ArgList}
    (h : exec (c.invoke method a) m = (.error e, m')) :
    m.Grows m' ∨ ∃ x r n, c.Abandons m method a x r n := by
  have plain {z : Run Value} (hz : Atomic z) (h : exec z m = (.error e, m')) :
      m.Grows m' ∨ ∃ x r n, c.Abandons m method a x r n := .inl (hz _ _ _ h)
  unfold invoke at h
  rcases hx : m.context? c with _ | x
  · rw [exec_bind_of_error (exec_read_of_none hx)] at h
    obtain ⟨-, rfl⟩ := Prod.mk.inj h
    exact .inl (Inert.refl m)
  rw [exec_bind_of_ok (exec_readContext_of_some hx)] at h
  dsimp only at h
  split at h
  · exact plain (.bind (a.one_keeps _) fun v => changed_atomic _ _) h
  · exact plain (.bind a.requireNone_keeps fun _ => .newContext _) h
  · refine plain ?_ h
    split
    · exact .of_keeps (.fail_bind _ _)
    · exact .bind (a.one_keeps _) addRoot_atomic
  · exact plain (.bind (a.two_keeps _ _) fun v => .bind_pure (assign_atomic _ _) _) h
  · exact plain (.bind (a.one_keeps _) fun root => changed_atomic _ _) h
  · exact plain (.of_keeps (a.requireNone_keeps.bind fun _ => c.scalar_keeps)) h
  · exact plain (.of_keeps (a.requireNone_keeps.bind fun _ => c.existence_keeps)) h
  · exact plain (.guarded (.bind (a.one_keeps _) fun v => .bind (itemsOf_keeps v) fun items =>
      changed_atomic _ _)) h
  · by_cases selecting : x.isSelecting = true
    · rw [if_neg (by simp [selecting])] at h
      split at h
      · rcases bound : exec (a.bind ⟨["from_", "attribute"], [], ["outer"]⟩) m with ⟨err | vs, m₀⟩
        · obtain rfl := exec_bindArgs bound
          rw [exec_bind_of_error bound] at h
          obtain ⟨-, rfl⟩ := Prod.mk.inj h
          exact .inl (Inert.refl _)
        · obtain rfl := exec_bindArgs bound
          rw [exec_bind_of_ok bound] at h
          split at h
          · refine (join_atomic_or_abandons h).imp_right fun ⟨x, r, n, abandons⟩ => ?_
            exact ⟨x, r, n, rfl, _, _, _, bound, abandons⟩
          · cases h
            exact .inl (Inert.refl _)
      · exact plain (.bind (a.one_keeps _) fun v => .bind (itemsOf_keeps v) fun items =>
          changed_atomic _ _) h
      · exact plain (.bind (a.one_keeps _) fun v => changed_atomic _ _) h
      · refine plain (.bind (a.bind_keeps _) fun vs => ?_) h
        split
        · exact changed_atomic _ _
        · exact .fail _
      · exact plain (.bind (a.one_keeps _) fun v => changed_atomic _ _) h
      · exact plain (.fail _) h
    · rw [if_pos (by simpa using selecting)] at h
      cases h
      exact .inl (Inert.refl m)

theorem invoke_of_abandons {method : String} {a : ArgList} {r : Relationship}
    (h : c.Abandons m method a x r n) :
    m.Grows n ∧ ∃ b, m.context? c = some x ∧ x.kind.body? = some b ∧
      exec (c.invoke method a) m = (.error .external, c.abandoned x b r n) := by
  obtain ⟨rfl, owner, key, outer, bound, abandons⟩ := h
  obtain ⟨grows, b, hb, joined⟩ := exec_join_of_abandons abandons
  refine ⟨grows, b, abandons.context, hb, ?_⟩
  have selecting : x.isSelecting = true := by rw [Context.isSelecting, hb]; rfl
  unfold invoke
  rw [exec_bind_of_ok (exec_readContext_of_some abandons.context)]
  change exec (if (!x.isSelecting) = true then _ else (a.bind _ >>= _)) m = _
  rw [if_neg (by simp [selecting]), exec_bind_of_ok bound]
  exact joined

/-- The methods that tell a query context something are no properties of it. -/
theorem exec_invoke_of_mutates {method : String} (mutates : method ∈ mutators) (a : ArgList)
    (hx : m.context? c = some x) :
    exec (FluentQuery.invoke call (.context c) method a) m = exec (c.invoke method a) m := by
  have missing : exec (Value.property? (.context c) method) m = (.ok none, m) := by
    unfold Value.property?
    dsimp only
    rw [exec_bind_of_ok (exec_readContext_of_some hx)]
    simp only [mutators, List.mem_cons, List.not_mem_nil, or_false] at mutates
    rcases mutates with rfl | rfl | rfl | rfl | rfl | rfl | rfl | rfl | rfl | rfl <;>
      (unfold Context.property?; cases x.kind <;> rfl)
  unfold FluentQuery.invoke
  rw [exec_bind_of_ok missing]
  rfl

end ContextId

/-- Every query context is what it was before, and so is its statement. -/
structure Machine.SameContexts (m m' : Machine) : Prop where
  context? : ∀ c, m'.context? c = m.context? c
  statement : ∀ c x, m.context? c = some x → x.statement m' = x.statement m

theorem Machine.Grows.sameContexts {w : Moment} (h : m.Grows m') (hm : m.Known w) :
    m.SameContexts m' where
  context? := h.context?
  statement _ _ hx := Context.statement_grown h hm (hm.contexts _ (List.mem_of_getElem? hx))

theorem ContextId.not_sameContexts_abandoned {b : SelectBody} {r : Relationship}
    (hx : m.context? c = some x) (hb : x.kind.body? = some b) (grows : m.Grows n) :
    ¬m.SameContexts (c.abandoned x b r n) := by
  intro same
  have kept : (c.abandoned x b r n).context? c = some x := (same.context? c).trans hx
  have written := context?_set ((grows.context? c).trans hx) { x with
    kind := x.kind.withBody { b with roots := b.roots ++ [.mapped ⟨r.target, some n.next⟩] } }
  have kinds := congrArg Context.kind (Option.some.inj (written.symm.trans kept))
  have bodies := congrArg (fun k => (ContextKind.body? k).map (·.roots.length)) kinds
  cases hk : x.kind <;> rw [hk] at hb bodies <;> cases hb <;>
    simp [ContextKind.withBody, ContextKind.body?] at bodies

/-- A query context refuses what it is told without a trace: whatever it is, whatever was told to it
before and whatever it is called with, if the call fails all query contexts and their statements are as
they were. The one exception is a join that is abandoned; it leaves behind its target among the roots
of the subquery, and nothing else. -/
theorem refused_call_leaves_contexts {w : Moment} (hm : m.Known w) {method : String} {a : ArgList}
    (mutates : method ∈ ContextId.mutators)
    (h : exec (invoke call (.context c) method a) m = (.error e, m')) :
    (m.SameContexts m' ↔ ¬∃ x r n, c.Abandons m method a x r n) ∧
      ∀ x r n, c.Abandons m method a x r n → e = .external ∧ m.Grows n ∧
        ∃ b, m.context? c = some x ∧ x.kind.body? = some b ∧ m' = c.abandoned x b r n := by
  have abandoned : ∀ x r n, c.Abandons m method a x r n → e = .external ∧ m.Grows n ∧
      ∃ b, m.context? c = some x ∧ x.kind.body? = some b ∧ m' = c.abandoned x b r n := by
    intro x r n abandons
    obtain ⟨grows, b, hx, hb, failed⟩ := ContextId.invoke_of_abandons abandons
    rw [ContextId.exec_invoke_of_mutates mutates a hx, failed] at h
    obtain ⟨same, rfl⟩ := Prod.mk.inj h
    exact ⟨(Except.error.inj same).symm, grows, b, hx, hb, rfl⟩
  refine ⟨⟨fun same ⟨x, r, n, abandons⟩ => ?_, fun kept => ?_⟩, abandoned⟩
  · obtain ⟨-, grows, b, hx, hb, rfl⟩ := abandoned x r n abandons
    exact ContextId.not_sameContexts_abandoned hx hb grows same
  · rcases hx : m.context? c with _ | x
    · have unread : exec (Value.property? (.context c) method) m = (.error .external, m) := by
        unfold Value.property?
        dsimp only
        rw [exec_bind_of_error (ContextId.exec_read_of_none hx)]
      unfold invoke at h
      rw [exec_bind_of_error unread] at h
      obtain ⟨-, rfl⟩ := Prod.mk.inj h
      exact Machine.Grows.sameContexts (Inert.refl m) hm
    · rw [ContextId.exec_invoke_of_mutates mutates a hx] at h
      exact ((ContextId.invoke_atomic_or_abandons h).resolve_right kept).sameContexts hm

/-- A subquery that is correlated with another query, which selects the reviews of products. Null is
refused as its restriction without a trace, and so is a join of what the other query selects, which leaves
an alias of reviews among the roots. -/
theorem refused_call_leaves_contexts_selection :
    let reviews : Value := .member ⟨⟨.product, none⟩, .relationship .reviews⟩
    let q : ContextId := ⟨0⟩
    let sub : ContextId := ⟨1⟩
    let m : Machine := { Machine.start ⟨false, false, false⟩ with
      globals := []
      contexts := [.ofKind (.query { SelectBody.empty with selection := reviews } []),
        .ofKind (.subquery .empty (.context q) [.context q] [])] }
    let told (method : String) (args : List Value) :=
      exec (invoke (callAny (eval 8)) (.context sub) method ⟨args, []⟩) m
    (told "where" [.null]).1 = .error (.null "restriction") ∧
      m.SameContexts (told "where" [.null]).2 ∧
      (told "join" [.context q, .text 0 "selection"]).1 = .error .external ∧
      ¬m.SameContexts (told "join" [.context q, .text 0 "selection"]).2 := by
  intro reviews q sub m told
  let w : Moment := ⟨m.extent, fun _ => none⟩
  have selected : reviews.Known w := fun _ _ => rfl
  have body {v : Value} (hv : v.Known w) : { SelectBody.empty with selection := v }.Known w :=
    ⟨nofun, nofun, nofun, trivial, trivial, hv⟩
  have enclosing : (Value.context q).Known w := (by decide : 0 < 2)
  have contexts : ∀ x ∈ m.contexts, x.Known w := by
    simp only [m, List.forall_mem_cons]
    exact ⟨⟨trivial, body selected, nofun⟩,
      ⟨trivial, body trivial, enclosing, by simpa using enclosing, nofun⟩, nofun⟩
  have known : m.Known w :=
    ⟨⟨known_nil, known_nil, contexts, known_nil, known_nil, known_nil⟩, rfl, by decide⟩
  have refuses (method : String) (args : List Value) {e : Error} (mutates : method ∈ ContextId.mutators)
      (h : (told method args).1 = .error e) :=
    refused_call_leaves_contexts known mutates
      (show told method args = (.error e, (told method args).2) from Prod.ext h rfl)
  have unwritten : (told "where" [.null]).1 = .error (.null "restriction") := rfl
  have unjoined : (told "join" [.context q, .text 0 "selection"]).1 = .error .external := rfl
  have abandons : sub.Abandons m "join" ⟨[.context q, .text 0 "selection"], []⟩
      (.ofKind (.subquery .empty (.context q) [.context q] [])) .reviews m :=
    ⟨rfl, .context q, .text 0 "selection", none, rfl, rfl, rfl, rfl, ⟨⟨.product, none⟩, rfl⟩, rfl, rfl⟩
  refine ⟨unwritten, ?_, unjoined, fun same => ?_⟩
  · exact (refuses "where" [.null] (by decide) unwritten).1.mpr fun ⟨_, _, _, other, _⟩ =>
      absurd other (by decide)
  · exact (refuses "join" _ (by decide) unjoined).1.mp same ⟨_, _, _, abandons⟩

end FluentQuery
