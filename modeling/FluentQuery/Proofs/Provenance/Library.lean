import FluentQuery.Proofs.Builds
import FluentQuery.Proofs.Provenance.Statements

/-! Properties of known values are known, and so is what query contexts are told by the operations
of the library. -/

namespace FluentQuery

open Sql

variable {w w' : Moment}

/-! ### Frames -/

theorem Frame.Known.builder {f : Frame} (h : f.Known w) : f.builder.Known w := by cases f; exact h.2.1

theorem Frame.Known.query {f : Frame} (h : f.Known w) : f.query.Known w := by cases f; exact h.2.2

theorem QueryType.Known.entity {t : QueryType} (h : t.Known w) : t.entity.Known w := by
  cases t; exact h.2

theorem Frame.subquery_sound {f : Frame} (hf : f.Known w) : Sound w f.subquery := by
  have query := hf.query
  unfold subquery
  split
  · rename_i c hc
    rw [hc] at query
    exact c.read_sound.bind fun _ le _ _ => .ite (.pure (le.address query)) (.fail _)
  · exact .fail _

theorem Frame.isSubquery_sound (f : Frame) : Sound w f.isSubquery := by
  unfold isSubquery
  split
  · exact (ContextId.read_sound _).bind fun _ _ _ _ => .pure trivial
  · exact .pure trivial

theorem currentSubquery_sound : Sound w currentSubquery :=
  currentFrame_sound.bind fun _ _ _ hf => Frame.subquery_sound hf

/-! ### Properties -/

/-- A property that is there. -/
theorem some_sound {v : Value} (hv : v.Known w) : Sound (α := Option Value) w (pure (some v)) :=
  .pure fun _ h => by cases h; exact hv

theorem none_sound : Sound (α := Option Value) w (pure none) := .pure fun _ h => by cases h

theorem present_sound {x : Run Value} (hx : Sound w x) :
    Sound (α := Option Value) w (do return some (← x)) :=
  hx.bind fun _ _ _ hv => some_sound hv

theorem Context.property?_sound {c : Context} (hc : c.Known w) (name : String) :
    Sound w (c.property? name) := by
  have body {b : SelectBody} (h : c.kind.body? = some b) : b.Known w := by
    have kind := hc.kind
    cases hk : c.kind <;> rw [hk] at h kind <;> cases h
    · exact kind
    · exact kind.1
    · exact kind.1
  have statement : Sound (α := Option Value) w (do
      let s ← liftExcept (c.statement (← get))
      return some (.statement (← fresh) s)) := by
    refine .get fun m hm => (liftExcept_sound (α := Statement) fun s hs ρ hρ => ?_).bind ?_
    · exact c.statement_fixed (hc.fixed hρ) hs
    · exact fun _ _ s hs => fresh_sound.bind fun _ le _ hid =>
        some_sound ⟨hid, hs.mono le.extent⟩
  unfold property?
  split
  · exact some_sound hc.restriction
  · rename_i b hb
    exact present_sound (newTuple_sound (body hb).roots)
  · rename_i b hb
    exact present_sound (newTuple_sound (body hb).groupBy)
  · rename_i b hb
    exact some_sound (body hb).having
  · rename_i b hb
    exact some_sound (body hb).distinct
  · rename_i b hb
    exact some_sound (body hb).selection
  · exact .ite statement none_sound
  · have kind := hc.kind
    split
    · rename c.kind = _ => hk
      rw [hk] at kind
      exact present_sound (newTuple_sound kind.2)
    · rename c.kind = _ => hk
      rw [hk] at kind
      exact some_sound kind.2.1
    · rename c.kind = _ => hk
      rw [hk] at kind
      exact present_sound (newTuple_sound kind.2.2.1)
    · rename c.kind = _ => hk
      rw [hk] at kind
      exact some_sound kind
    · rename c.kind = _ => hk
      rw [hk] at kind
      exact some_sound kind.1
    · rename c.kind = _ => hk
      rw [hk] at kind
      exact present_sound (newMapping_sound fun x hx => ⟨trivial, kind.2 x hx⟩)
    · exact none_sound

/-- A row bound is a number of outside data. -/
theorem Bound.toValue_known (positive : 0 < w.extent.next) (b : Bound) : b.toValue.Known w := by
  cases b <;> first | exact positive | trivial

theorem Stream.property?_sound {s : Stream} (hs : s.PartsKnown w) (name : String) :
    Sound w (s.property? name) := by
  have bound (b : Bound) : Sound (α := Option Value) w (pure (some b.toValue)) :=
    .positive fun positive => some_sound (b.toValue_known positive)
  unfold property?
  split
  · exact some_sound hs.session
  · exact some_sound hs.queryType
  · exact some_sound hs.configurer
  · exact bound _
  · exact bound _
  · exact present_sound (newMapping_sound hs.params)
  · exact present_sound (newMapping_sound hs.options)
  · exact none_sound

/-- A number and the one after it. -/
theorem fresh_twice_sound {α : Type} [Knowable α] {f : Nat → Run α}
    (hf : ∀ w', w.Le w' → ∀ n, w'.Given n → w'.Given (n + 1) → Sound w' (f n)) :
    Sound w (do
      let n ← fresh
      discard fresh
      f n) := by
  intro m hm
  obtain ⟨w₁, le₁, known₁, given₁⟩ := fresh_sound m hm
  obtain ⟨w₂, le₂, known₂, given₂⟩ := fresh_sound (after fresh m) known₁
  obtain ⟨w₃, le₃, known₃, given₃⟩ := hf w₂ (le₁.trans le₂) m.next (le₂.given (given₁ _ rfl))
    (given₂ _ rfl) _ known₂
  exact ⟨w₃, (le₁.trans le₂).trans le₃, known₃, given₃⟩

theorem Executable.statementValue_sound (q : Executable) : Sound w q.statementValue := by
  refine fresh_twice_sound fun w₁ le₁ next first second => .get fun m hm => ?_
  refine (liftExcept_sound (α := Statement) fun s hs ρ hρ => ?_).bind fun w₂ le₂ s hs => ?_
  · exact statement_fixed hρ hm.toStoresKnown (hρ.number _ first) (hρ.number _ second) hs
  · exact fresh_sound.bind fun _ le _ hid => .pure ⟨hid, hs.mono le.extent⟩

theorem Executable.property?_sound {q : Executable} (hq : q.Known w) (name : String) :
    Sound w (q.property? name) := by
  have bound (b : Bound) : Sound (α := Option Value) w (pure (some b.toValue)) :=
    .positive fun positive => some_sound (b.toValue_known positive)
  unfold property?
  split
  · exact some_sound hq.session
  · exact some_sound hq.query
  · exact some_sound hq.params
  · exact some_sound hq.options
  · exact bound _
  · exact bound _
  · split
    · exact none_sound
    · exact present_sound q.statementValue_sound
  · exact none_sound

theorem Value.rowItem?_known {items : List Value} (h : ∀ v ∈ items, v.Known w) (name : String) :
    FluentQuery.Known w (rowItem? items name) := by
  intro v hv
  obtain ⟨⟨u, i⟩, found, rfl⟩ := Option.map_eq_some_iff.mp hv
  obtain ⟨_, eq⟩ := List.mem_zipIdx' (List.mem_of_find?_eq_some found)
  exact eq ▸ h _ (List.getElem_mem _)

theorem Value.property?_sound {v : Value} (hv : v.Known w) (name : String) :
    Sound w (v.property? name) := by
  have outside (s : String) : Sound (α := Option Value) w (pure (some (.text 0 s))) :=
    .positive fun positive => some_sound (v := .text 0 s) positive
  have tested {c : Prop} [Decidable c] {u : Value} (hu : u.Known w) :
      Sound (α := Option Value) w (return if c then some u else none) := by
    split
    · exact some_sound hu
    · exact none_sound
  unfold property?
  split
  · rename_i m
    split
    · exact outside _
    · exact outside _
    · refine .pure fun u hu => ?_
      obtain ⟨a, ha, rfl⟩ := Option.map_eq_some_iff.mp hu
      intro ρ hρ
      have renamed := m.attribute?_rename (ρ := ρ) name
      have fixed : m.rename ρ = m := (show Made w.extent m from hv) ρ hρ
      rw [fixed, ha] at renamed
      exact (Option.some.inj renamed).symm
  · exact .pure (rowItem?_known (Value.allKnown_iff.mp hv.2) name)
  · split
    · exact outside _
    · exact none_sound
  · exact (ContextId.read_sound _).bind fun _ _ x hx => Context.property?_sound hx name
  · exact Stream.property?_sound (Stream.Known.parts hv) name
  · exact (QueryId.read_sound _).bind fun _ _ x hx => Executable.property?_sound hx name
  · exact tested (QueryType.Known.entity hv)
  · exact tested hv.2
  · rename_i f
    have hf : f.Known w := hv
    split
    · exact some_sound hf.builder
    · exact some_sound hf.query
    · exact (Frame.subquery_sound hf).bind fun _ _ c hc => some_sound (v := .context c) hc
    · exact f.isSubquery_sound.bind fun _ _ _ _ => some_sound trivial
    · exact none_sound
  · exact none_sound

theorem resolveAttribute_sound {selection : Value} (hs : selection.Known w) (key : Value) :
    Sound w (resolveAttribute selection key) := by
  have refused {w' : Moment} (e : String → Error) (v : Value) :
      Sound (α := Value) w' (do fail (e (← shownNow v))) :=
    (shownNow_sound v).bind fun _ _ _ _ => .fail _
  unfold resolveAttribute
  refine .guarded ?_
  split
  · exact refused _ _
  · refine (Value.property?_sound hs _).bind fun w₁ le v hv => ?_
    split
    · exact refused (Error.noAttribute · _) _
    · exact refused (Error.noAttribute · _) _
    · exact .pure (hv _ rfl)

theorem resolveRelationship_sound {owner : Value} (ho : owner.Known w) (key : Value) :
    Sound w (resolveRelationship owner key) := by
  refine (resolveAttribute_sound ho key).bind fun w₁ le v hv => ?_
  split
  · exact .pure ⟨Attribute.owner_made hv, trivial⟩
  · exact (shownNow_sound _).bind fun _ _ _ _ => .fail _

/-! ### Query contexts -/

theorem Value.asContext_sound {v : Value} (hv : v.Known w) : Sound w v.asContext := by
  cases v with
  | context c => exact .pure hv
  | _ => exact .fail _

theorem Value.requireBuilder_sound (v : Value) : Sound w v.requireBuilder := by
  cases v with
  | criteriaBuilder => exact .pure trivial
  | _ => exact .fail _

theorem SelectBody.Known.empty : SelectBody.empty.Known w where
  roots _ h := by cases h
  joins _ h := by cases h
  groupBy _ h := by cases h
  having := trivial
  distinct := trivial
  selection := trivial

theorem Context.ofKind_known {k : ContextKind} (h : k.Known w) : (Context.ofKind k).Known w :=
  ⟨trivial, h⟩

namespace ContextKind

variable {k : ContextKind} {b : SelectBody}

theorem Known.body (h : k.Known w) (hb : k.body? = some b) : b.Known w := by
  cases k <;> cases hb
  · exact h
  · exact h.1
  · exact h.1

theorem Known.withBody (h : k.Known w) (hb : b.Known w) : (k.withBody b).Known w := by
  cases k with
  | abstract => exact hb
  | query => exact ⟨hb, h.2⟩
  | subquery => exact ⟨hb, h.2⟩
  | _ => exact h

end ContextKind

namespace Context

variable {c c' : Context}

/-- Changing its body to a known one leaves a query context known. -/
theorem updateBody_known (hc : c.Known w) {f : SelectBody → SelectBody}
    (hf : ∀ b, b.Known w → (f b).Known w) (h : c.updateBody f = .ok c') : c'.Known w := by
  obtain ⟨b, hb, rfl⟩ := updateBody_eq_ok.mp h
  exact ⟨hc.restriction, hc.kind.withBody (hf b (hc.kind.body hb))⟩

theorem restrict_known (hc : c.Known w) {r : Value} (hr : r.Known w) (h : c.restrict r = .ok c') :
    c'.Known w := by
  obtain ⟨-, rfl⟩ := restrict_eq_ok h
  exact ⟨hr, hc.kind⟩

theorem groupBy_known (hc : c.Known w) {items : List Value} (hi : ∀ v ∈ items, v.Known w)
    (h : c.groupBy items = .ok c') : c'.Known w := by
  refine updateBody_known hc (fun b hb => ?_) h
  exact { hb with groupBy := hi }

theorem having_known (hc : c.Known w) {r : Value} (hr : r.Known w) (h : c.having r = .ok c') :
    c'.Known w := by
  refine updateBody_known hc (fun b hb => ?_) (having_eq_ok h)
  exact { hb with having := hr }

theorem distinct_known (hc : c.Known w) {v : Value} (hv : v.Known w) (h : c.distinct v = .ok c') :
    c'.Known w := by
  refine updateBody_known hc (fun b hb => ?_) h
  exact { hb with distinct := hv }

theorem select_known (hc : c.Known w) {v : Value} (hv : v.Known w) (h : c.select v = .ok c') :
    c'.Known w := by
  refine updateBody_known hc (fun b hb => ?_) (select_eq_ok h).2
  exact { hb with selection := hv }

theorem orderBy_known (hc : c.Known w) {items : List Value} (hi : ∀ v ∈ items, v.Known w)
    (h : c.orderBy items = .ok c') : c'.Known w := by
  obtain ⟨b, orders, hk, rfl⟩ := orderBy_eq_ok h
  have kind := hc.kind
  rw [hk] at kind
  exact ⟨hc.restriction, kind.1, hi⟩

theorem correlate_known (hc : c.Known w) {root : Value} (hr : root.Known w)
    (h : c.correlate root = .ok c') : c'.Known w := by
  obtain ⟨b, parent, correlated, conditions, hk, rfl⟩ := correlate_eq_ok h
  have kind := hc.kind
  rw [hk] at kind
  refine ⟨hc.restriction, kind.1, kind.2.1, ?_, kind.2.2.2⟩
  split
  · exact kind.2.2.1
  · exact List.forall_mem_append.mpr ⟨kind.2.2.1, List.forall_mem_singleton.mpr hr⟩

theorem assign_known (hc : c.Known w) (key : String) {v : Value} (hv : v.Known w)
    (h : c.assign key v = .ok c') : c'.Known w := by
  obtain ⟨target, assignments, hk, rfl⟩ := assign_eq_ok h
  have kind := hc.kind
  rw [hk] at kind
  exact ⟨hc.restriction, kind.1,
    fun x hx => (known_assoc hv (fun y hy => ⟨trivial, kind.2 y hy⟩) x hx).2⟩

/-- An alias with a number that has been given away. -/
theorem alias_made (e : Entity) {n : Nat} (hn : w.Given n) : Made w.extent (Mapped.mk e (some n)) :=
  fun _ hρ => congrArg (fun n => Mapped.mk e (some n)) (hρ.number n hn)

theorem addRoot_known (hc : c.Known w) {n : Nat} (hn : w.Given n) {entity v : Value}
    (he : entity.Known w) (h : c.addRoot n entity = .ok (v, c')) : v.Known w ∧ c'.Known w := by
  obtain ⟨-, updated, b, -, made⟩ := addRoot_eq_ok h
  have root : v.Known w := by
    split at made
    · rwa [made]
    · obtain ⟨o, ho, rfl⟩ := made
      unfold aliasOf? at ho
      split at ho
      · obtain rfl := Option.some.inj ho
        exact alias_made _ hn
      · obtain rfl := Option.some.inj ho
        exact alias_made _ hn
      · cases ho
  refine ⟨root, updateBody_known hc (fun b hb => ?_) updated⟩
  exact { hb with roots := known_append hb.roots root }

theorem join_known (hc : c.Known w) {n : Nat} (hn : w.Given n) {correlated : Bool} {owner : Mapped}
    (ho : Made w.extent owner) {r : Relationship} {outer : Value} (hu : outer.Known w)
    {truth : Option Bool} {v : Value} (h : c.join n correlated owner r outer truth = .ok (v, c')) :
    v.Known w ∧ c'.Known w := by
  obtain ⟨rfl, joined⟩ := join_eq_ok h
  have target := alias_made r.target hn
  refine ⟨target, ?_⟩
  cases joined with
  | planned same hy =>
    obtain rfl := same
    refine updateBody_known hc (fun b hb => ?_) hy
    refine { hb with joins := List.forall_mem_append.mpr ⟨hb.joins, ?_⟩ }
    exact List.forall_mem_singleton.mpr ⟨ho, target, hu⟩
  | correlated same hk =>
    obtain rfl := same
    have kind := hc.kind
    rw [hk] at kind
    have condition : Made w.extent
        (r.condition owner.source (Mapped.mk r.target (some n)).source
          (Mapped.mk r.target (some n)).source) := fun ρ hρ => by
      have owner_eq : owner.rename ρ = owner := ho ρ hρ
      have target_eq : (Mapped.mk r.target (some n)).rename ρ = _ := target ρ hρ
      have renamed := r.condition_rename (ρ := ρ) owner.source
        (Mapped.mk r.target (some n)).source (Mapped.mk r.target (some n)).source
      rw [← Mapped.rename_source, ← Mapped.rename_source, owner_eq, target_eq] at renamed
      exact renamed.symm
    have roots := known_append kind.1.roots (x := Value.mapped ⟨r.target, some n⟩) target
    exact ⟨hc.restriction, { kind.1 with roots }, kind.2.1, kind.2.2.1,
      known_append kind.2.2.2 condition⟩

theorem Known.target? (hc : c.Known w) {v : Value} (h : c.target? = some v) : v.Known w := by
  have kind := hc.kind
  unfold Context.target? at h
  split at h
  · rename c.kind = _ => hk
    rw [hk] at kind
    obtain rfl := Option.some.inj h
    exact kind
  · rename c.kind = _ => hk
    rw [hk] at kind
    obtain rfl := Option.some.inj h
    exact kind.1
  · cases h

end Context

namespace ContextId

variable (c : ContextId)

theorem addRoot_sound {entity : Value} (he : entity.Known w) : Sound w (c.addRoot entity) := by
  refine c.read_sound.bind fun w₁ le₁ x hx => ?_
  split
  · rename_i target ht
    refine .ite (.pure (Context.Known.target? hx ht)) ?_
    refine (shownNow_sound _).bind fun _ _ _ _ => ?_
    exact (shownNow_sound _).bind fun _ _ _ _ => .fail _
  · refine fresh_sound.bind fun w₂ le₂ id hid => c.updateGet_sound fun w₃ le₃ x v y hx h => ?_
    exact Context.addRoot_known hx (le₃.given hid) (he.mono ((le₁.trans le₂).trans le₃)) h

theorem joinUnmapped_sound (r : Relationship) (outer : Value) :
    Sound w (c.joinUnmapped r outer) := by
  refine .get fun m hm => ?_
  split
  · exact .fail _
  · exact .fail _
  · exact .fail _
  · have plain : (Value.mapped ⟨r.target, none⟩).Known w := fun _ _ => rfl
    exact (c.addRoot_sound plain).discard.bind fun _ _ _ _ => .fail _

theorem join_sound {owner : Value} (ho : owner.Known w) (key : Value) {outer : Value}
    (hu : outer.Known w) : Sound w (c.join owner key outer) := by
  refine c.read_sound.bind fun w₁ le₁ x hx => .guarded ?_
  refine (resolveRelationship_sound (ho.mono le₁) key).bind fun w₂ le₂ (m, r) hm => ?_
  refine .ite (c.joinUnmapped_sound r outer) ?_
  refine fresh_sound.bind fun w₃ le₃ id hid => .get fun _ _ => ?_
  refine c.updateGet_sound fun w₄ le₄ x v y hx h => ?_
  have later := (le₁.trans le₂).trans (le₃.trans le₄)
  exact Context.join_known hx (le₄.given hid) (hm.1.mono (le₃.trans le₄).extent) (hu.mono later) h

theorem assign_sound (key : Value) {v : Value} (hv : v.Known w) : Sound w (c.assign key v) := by
  refine c.read_sound.bind fun w₁ le₁ x hx => ?_
  split
  · rename_i target values hk
    have kind := hx.kind
    rw [hk] at kind
    refine (resolveAttribute_sound kind.1 key).bind fun w₂ le₂ a _ => ?_
    split
    · refine (register_sound (hv.mono (le₁.trans le₂))).bind fun w₃ le₃ _ _ => ?_
      refine c.update_sound fun w₄ le₄ x y hx h => ?_
      exact Context.assign_known hx _ (hv.mono ((le₁.trans le₂).trans (le₃.trans le₄))) h
    · exact .fail _
  · exact .fail _

end ContextId

/-! ### Frames around a query context -/

theorem withFrame_sound {α : Type} [Knowable α] {builder query : Value} (hb : builder.Known w)
    (hq : query.Known w) {body : Frame → Run α}
    (h : ∀ w', w.Le w' → ∀ f : Frame, f.Known w' → Sound w' (body f)) :
    Sound w (withFrame builder query body) := by
  have inside {w' : Moment} (le : w.Le w') (name : String) : Sound w' (do
      if builder.isNull then fail (.null "builder")
      let frame : Frame := ⟨← fresh, builder, query⟩
      let stack := frame :: (← get).stack
      let entered := "Entered " ++ name ++ " construction (depth " ++ toString stack.length ++ ")"
      let inside : Run α := do logLine (pure entered); body frame
      ensuring (onStack stack inside) (logLine (pure ("Left " ++ name ++ " construction")))) := by
    refine .guarded (fresh_sound.bind fun w₁ le₁ id hid => .get fun m hm => ?_)
    have frame : Frame.Known w₁ ⟨id, builder, query⟩ :=
      ⟨hid, hb.mono (le.trans le₁), hq.mono (le.trans le₁)⟩
    have stack : Known w₁ ((⟨id, builder, query⟩ : Frame) :: m.stack) :=
      List.forall_mem_cons.mpr ⟨frame, hm.stack⟩
    have line {w' : Moment} (s : String) : Sound w' (logLine (pure s)) :=
      logLine_sound (.pure trivial)
    refine ensuring_sound (onStack_sound stack ((line _).bind fun w₂ le₂ _ _ => ?_)) fun _ _ => line _
    exact h w₂ ((le.trans le₁).trans le₂) _ (frame.mono le₂)
  refine (classNow_sound query).bind fun w₁ le₁ name _ => ?_
  cases query with
  | context c => exact inside le₁ name
  | _ => exact .fail_bind _ _

end FluentQuery
