import FluentQuery.Proofs.Moments
import FluentQuery.Proofs.Roots.Listings

/-! How query contexts come to list what they do. Machines follow one another by steps that enter
nothing, by new query contexts, and by calls that enter something. Whatever a computation does, the
machine it leaves follows the one it began on, and so does every machine on the way. -/

namespace FluentQuery

/-- Calls on query contexts and what they entered there, oldest first. -/
abbrev Calls := List (ContextId × Listing.Item)

variable {m m' m₀ : Machine} {c d : ContextId} {l : Listing} {item : Listing.Item} {calls more : Calls}

/-- What the query context at an address lists. -/
def Machine.listing? (m : Machine) (c : ContextId) : Option Listing := (m.context? c).map (·.listing)

/-! ### Calls -/

/-- A call on this query context succeeds and enters this there. -/
inductive ContextId.Enters (c : ContextId) (m : Machine) : Listing.Item → Machine → Prop
  | root {entity given m'} (h : exec (c.growRoot entity) m = (.ok given, m')) :
      Enters c m (.root entity given) m'
  | join {correlated owner r outer target m'}
      (h : exec (c.growJoin correlated owner r outer) m = (.ok (.mapped target), m')) :
      Enters c m (.join correlated target) m'
  | correlate {root m'} (h : exec (c.update (·.correlate root)) m = (.ok (), m')) :
      Enters c m (.correlate root) m'

namespace ContextId

theorem exec_growRoot_eq_ok {entity given : Value} (h : exec (c.growRoot entity) m = (.ok given, m')) :
    ∃ x y, m.context? c = some x ∧ x.addRoot m.next entity = .ok (given, y) ∧
      m' = { m with next := m.next + 1, contexts := m.contexts.set c.index y } := by
  unfold growRoot at h
  rw [exec_bind_of_ok (exec_fresh m)] at h
  exact exec_updateGet_eq_ok.mp h

theorem exec_growJoin_eq_ok {correlated : Bool} {owner : Mapped} {r : Relationship} {outer v : Value}
    (h : exec (c.growJoin correlated owner r outer) m = (.ok v, m')) :
    ∃ x y truth, m.context? c = some x ∧
      x.join m.next correlated owner r outer truth = .ok (v, y) ∧
      m' = { m with next := m.next + 1, contexts := m.contexts.set c.index y } := by
  unfold growJoin at h
  rw [exec_bind_of_ok (exec_fresh m), exec_bind_of_ok (exec_get _)] at h
  obtain ⟨x, y, hx, hy, rfl⟩ := exec_updateGet_eq_ok.mp h
  exact ⟨x, y, _, hx, hy, rfl⟩

theorem eq_of_update_eq_error {f : Context → Except Error Context} {e : Error}
    (h : exec (c.update f) m = (.error e, m')) : m' = m := by
  rw [exec_update] at h
  split at h
  · cases h
    rfl
  · split at h <;> cases h
    rfl

theorem eq_of_updateGet_eq_error {f : Context → Except Error (Value × Context)} {e : Error}
    (h : exec (c.updateGet f) m = (.error e, m')) : m' = m := by
  rw [exec_updateGet] at h
  split at h
  · cases h
    rfl
  · split at h <;> cases h
    rfl

theorem listing?_set {x y : Context} (h : m.context? c = some x) {m' : Machine}
    (hm : m'.contexts = m.contexts.set c.index y) (d : ContextId) :
    m'.listing? d = if d = c then some y.listing else m.listing? d := by
  have told : m'.context? d = { m with contexts := m.contexts.set c.index y }.context? d :=
    congrArg (·[d.index]?) hm
  rw [Machine.listing?, told]
  split
  · rename_i hd
    rw [hd, context?_set h]
    rfl
  · rename_i hd
    rw [context?_set_of_ne hd]
    rfl

/-- A call enters what it may into the listing of its query context, and changes no other. -/
theorem Enters.spec (h : c.Enters m item m') :
    ∃ l, m.listing? c = some l ∧ item.Proper l m.next ∧
      ∀ d, m'.listing? d = if d = c then some (l.enter item) else m.listing? d := by
  have told {x : Context} (hx : m.context? c = some x) : m.listing? c = some x.listing := by
    rw [Machine.listing?, hx]
    rfl
  cases h with
  | root h =>
    obtain ⟨x, y, hx, hy, rfl⟩ := exec_growRoot_eq_ok h
    obtain ⟨proper, entered⟩ := Context.addRoot_listing hy
    exact ⟨x.listing, told hx, proper, entered ▸ listing?_set hx rfl⟩
  | join h =>
    obtain ⟨x, y, truth, hx, hy, rfl⟩ := exec_growJoin_eq_ok h
    obtain ⟨given, proper, entered⟩ := Context.join_listing hy
    obtain rfl := Value.mapped.inj given
    exact ⟨x.listing, told hx, proper, entered ▸ listing?_set hx rfl⟩
  | correlate h =>
    obtain ⟨x, y, hx, hy, rfl⟩ := exec_update_eq_ok.mp h
    obtain ⟨proper, entered⟩ := Context.correlate_listing m.next hy
    exact ⟨x.listing, told hx, proper, entered ▸ listing?_set hx rfl⟩

/-- A call that enters an object gives the next number away. -/
theorem Enters.next (h : c.Enters m item m') :
    m.next ≤ m'.next ∧ (item.object?.isSome → m.next < m'.next) := by
  cases h with
  | root h =>
    obtain ⟨x, y, -, -, rfl⟩ := exec_growRoot_eq_ok h
    exact ⟨Nat.le_succ _, fun _ => Nat.lt_succ_self _⟩
  | join h =>
    obtain ⟨x, y, truth, -, -, rfl⟩ := exec_growJoin_eq_ok h
    exact ⟨Nat.le_succ _, fun _ => Nat.lt_succ_self _⟩
  | correlate h =>
    obtain ⟨x, y, -, -, rfl⟩ := exec_update_eq_ok.mp h
    exact ⟨Nat.le_refl _, fun object => by cases object⟩

/-- A call creates nothing, or an alias that is given the next number and listed where it is entered. -/
theorem Enters.created (h : c.Enters m item m') (hl : m'.listing? d = some l) :
    ∃ k, m.listing? d = some k ∧ (l.created = k.created ∨ d = c ∧ m.next < m'.next ∧
      ∃ e, item.object? = some (.mapped ⟨e, some m.next⟩) ∧
        l.created.Perm (.mapped ⟨e, some m.next⟩ :: k.created)) := by
  obtain ⟨k, hk, proper, entered⟩ := h.spec
  rw [entered] at hl
  split at hl
  · rename_i hd
    obtain rfl := Option.some.inj hl
    refine ⟨k, hd ▸ hk, ?_⟩
    rcases Listing.created_enter proper with same | ⟨e, object, created⟩
    · exact .inl same
    · exact .inr ⟨hd, h.next.2 (by rw [object]; rfl), e, object, created⟩
  · exact ⟨l, hl, .inl rfl⟩

end ContextId

/-! ### Steps that enter nothing -/

/-- Every query context lists what it did, and numbers are not given twice. -/
structure Idling (m m' : Machine) : Prop where
  next : m.next ≤ m'.next
  listing? : ∀ c, m'.listing? c = m.listing? c

namespace Idling

theorem of_contexts (next : m.next ≤ m'.next) (h : m'.contexts = m.contexts) : Idling m m' :=
  ⟨next, fun c => by rw [Machine.listing?, Machine.listing?, Machine.context?, Machine.context?, h]⟩

theorem of_set {x y : Context} (hx : m.context? c = some x) (hy : y.listing = x.listing) :
    Idling m { m with contexts := m.contexts.set c.index y } := by
  refine ⟨Nat.le_refl _, fun d => ?_⟩
  rw [ContextId.listing?_set hx rfl]
  split
  · rename_i hd
    rw [hd, hy, Machine.listing?, hx]
    rfl
  · rfl

instance : Inert Idling := .of_contexts of_contexts fun h h' =>
  ⟨h.next.trans h'.next, fun c => (h'.listing? c).trans (h.listing? c)⟩

end Idling

/-! ### Histories -/

/-- The second machine came of the first, and these are the calls that entered something on the
way. -/
inductive Machine.Follows (m₀ : Machine) : Calls → Machine → Prop
  | start : Follows m₀ [] m₀
  | idle {calls : Calls} {m m' : Machine} (before : Follows m₀ calls m) (h : Idling m m') :
      Follows m₀ calls m'
  | opened {calls : Calls} {m : Machine} {x : Context} (before : Follows m₀ calls m) (h : x.Blank) :
      Follows m₀ calls (after (ContextId.new x) m)
  | called {calls : Calls} {m m' : Machine} {c : ContextId} {item : Listing.Item}
      (before : Follows m₀ calls m) (h : c.Enters m item m') : Follows m₀ (calls ++ [(c, item)]) m'

/-- The items that the calls entered on a query context. -/
def itemsAt (c : ContextId) (calls : Calls) : List Listing.Item :=
  calls.filterMap fun call => if call.1 = c then some call.2 else none

theorem itemsAt_concat (c d : ContextId) (calls : Calls) (item : Listing.Item) :
    itemsAt c (calls ++ [(d, item)]) = if d = c then itemsAt c calls ++ [item] else itemsAt c calls := by
  unfold itemsAt
  split <;> simp [*]

theorem Machine.listing?_new {x : Context} (hx : x.Blank) (m : Machine) (d : ContextId) :
    (after (ContextId.new x) m).listing? d =
      if d = m.nextContext then some (.blank x.isSubquery) else m.listing? d := by
  change ((m.contexts ++ [x])[d.index]?).map _ = _
  split
  · rename_i hd
    rw [hd, nextContext, List.getElem?_concat_length, Option.map_some, hx.listing]
  · rename_i hd
    have differ : d.index ≠ m.contexts.length := fun same => hd (by cases d; cases same; rfl)
    rcases Nat.lt_or_gt_of_ne differ with old | new
    · rw [List.getElem?_append_left old]
      rfl
    · rw [List.getElem?_eq_none (by simpa using Nat.succ_le_of_lt new), listing?, context?,
        List.getElem?_eq_none (Nat.le_of_lt new)]

theorem Machine.listing?_nextContext (m : Machine) : m.listing? m.nextContext = none := by
  rw [listing?, context?, nextContext, List.getElem?_eq_none (Nat.le_refl _)]
  rfl

namespace Machine.Follows

theorem trans (h : m₀.Follows calls m) (h' : m.Follows more m') : m₀.Follows (calls ++ more) m' := by
  induction h' with
  | start => rwa [List.append_nil]
  | idle _ idling ih => exact ih.idle idling
  | opened _ blank ih => exact ih.opened blank
  | called _ enters ih =>
    rw [← List.append_assoc]
    exact ih.called enters

theorem next (h : m₀.Follows calls m) : m₀.next ≤ m.next := by
  induction h with
  | start => exact Nat.le_refl _
  | idle _ idling ih => exact ih.trans idling.next
  | opened _ _ ih => exact ih
  | called _ enters ih => exact ih.trans enters.next.1

/-- A query context stays of its kind, and what it lists is only added to. -/
theorem grows (h : m₀.Follows calls m) (hl : m₀.listing? c = some l) :
    ∃ l', m.listing? c = some l' ∧ l.Grows l' := by
  induction h with
  | start => exact ⟨l, hl, .refl l⟩
  | idle _ idling ih =>
    rw [idling.listing?]
    exact ih
  | @opened _ m x _ blank ih =>
    rw [listing?_new blank]
    split
    · rename_i hc
      obtain ⟨l', hl', -⟩ := ih
      rw [hc, m.listing?_nextContext] at hl'
      cases hl'
    · exact ih
  | called _ enters ih =>
    obtain ⟨l', hl', grown⟩ := ih
    obtain ⟨l₁, hl₁, -, entered⟩ := enters.spec
    rw [entered]
    split
    · rename_i hc
      rw [← hc, hl'] at hl₁
      obtain rfl := Option.some.inj hl₁
      exact ⟨_, rfl, grown.trans (l'.grows_enter _)⟩
    · exact ⟨l', hl', grown⟩

/-- Each query context lists what the calls on it entered. -/
theorem records (h : m₀.Follows calls m) (none : m₀.contexts = []) (c : ContextId) :
    (∀ l, m.listing? c = some l → l.Records (itemsAt c calls)) ∧
      (m.listing? c = .none → itemsAt c calls = []) := by
  induction h with
  | start => simp [listing?, context?, none, itemsAt]
  | idle _ idling ih =>
    rw [idling.listing?]
    exact ih
  | @opened calls m x _ blank ih =>
    rw [listing?_new blank]
    split
    · rename_i hc
      refine ⟨fun l hl => ?_, fun absent => by cases absent⟩
      obtain rfl := Option.some.inj hl
      rw [ih.2 (by rw [hc, m.listing?_nextContext])]
      exact .blank _
    · exact ih
  | @called calls m m' d item _ enters ih =>
    obtain ⟨l₁, hl₁, proper, entered⟩ := enters.spec
    rw [entered, itemsAt_concat]
    by_cases hc : c = d
    · subst hc
      simp only [↓reduceIte]
      refine ⟨fun l hl => ?_, fun absent => by cases absent⟩
      obtain rfl := Option.some.inj hl
      exact (ih.1 l₁ hl₁).enter proper
    · rw [if_neg hc, if_neg fun same => hc same.symm]
      exact ih

end Machine.Follows

/-! ### Aliases that are made -/

/-- On the way a call on this query context entered the alias, which has the number that the call
gave away. -/
def Machine.Mints (m₀ : Machine) (calls : Calls) (m : Machine) (c : ContextId) (v : Value) : Prop :=
  ∃ before item behind m₁ m₂ e, calls = before ++ (c, item) :: behind ∧ m₀.Follows before m₁ ∧
    c.Enters m₁ item m₂ ∧ m₂.Follows behind m ∧ item.object? = some v ∧
    v = .mapped ⟨e, some m₁.next⟩ ∧ m₁.next < m₂.next

namespace Machine

theorem Mints.behind {v : Value} (h : m₀.Mints calls m c v) (later : m.Follows more m') :
    m₀.Mints (calls ++ more) m' c v := by
  obtain ⟨before, item, behind, m₁, m₂, e, rfl, first, enters, rest, minted⟩ := h
  refine ⟨before, item, behind ++ more, m₁, m₂, e, ?_, first, enters, rest.trans later, minted⟩
  rw [List.append_assoc, List.cons_append]

theorem Mints.numbered {v : Value} (h : m₀.Mints calls m c v) :
    ∃ e n, v = .mapped ⟨e, some n⟩ ∧ m₀.next ≤ n ∧ n < m.next := by
  obtain ⟨before, item, behind, m₁, m₂, e, rfl, first, enters, rest, -, rfl, minted⟩ := h
  exact ⟨e, m₁.next, rfl, first.next, Nat.lt_of_lt_of_le minted rest.next⟩

/-- What is listed now and was not, but for the first root of a query that is no subquery, was made
on the way. -/
theorem Follows.mints (h : m₀.Follows calls m) (hl : m.listing? c = some l) {v : Value}
    (hv : v ∈ l.created) (new : ∀ l₀, m₀.listing? c = some l₀ → v ∉ l₀.created) :
    m₀.Mints calls m c v := by
  induction h generalizing l with
  | start => exact absurd hv (new l hl)
  | @idle calls m m' before idling ih =>
    rw [idling.listing?] at hl
    simpa using (ih hl hv).behind (.idle .start idling)
  | @opened calls m x before blank ih =>
    rw [listing?_new blank] at hl
    split at hl
    · obtain rfl := Option.some.inj hl
      simp at hv
    · simpa using (ih hl hv).behind (.opened .start blank)
  | @called calls m m' d item before enters ih =>
    have later : m.Follows [(d, item)] m' := .called .start enters
    obtain ⟨k, hk, same | ⟨rfl, next, e, object, perm⟩⟩ := enters.created hl
    · exact (ih hk (same ▸ hv)).behind later
    · rcases List.mem_cons.mp (perm.mem_iff.mp hv) with rfl | old
      · exact ⟨calls, item, [], m, m', e, rfl, before, enters, .start, object, rfl, next⟩
      · exact (ih hk old).behind later

/-- What query contexts list, but for the first root of one that is no subquery, are aliases with
numbers that were given away, and no two of these are one. -/
structure Apart (m : Machine) : Prop where
  numbered : ∀ c l, m.listing? c = some l → ∀ v ∈ l.created,
    ∃ e n, v = .mapped ⟨e, some n⟩ ∧ n < m.next
  nodup : ∀ c l, m.listing? c = some l → l.created.Nodup
  disjoint : ∀ c d l k, m.listing? c = some l → m.listing? d = some k → c ≠ d →
    l.created.Disjoint k.created

namespace Apart

theorem of_contexts (h : m.contexts = []) : m.Apart := by
  have none (c : ContextId) : m.listing? c = none := by simp [listing?, context?, h]
  constructor <;> simp [none]

theorem idle (h : m.Apart) (idling : Idling m m') : m'.Apart := by
  refine ⟨fun c l hl v hv => ?_, fun c l hl => ?_, fun c d l k hl hk => ?_⟩
  all_goals simp only [idling.listing?] at *
  · obtain ⟨e, n, hv, hn⟩ := h.numbered c l hl v hv
    exact ⟨e, n, hv, Nat.lt_of_lt_of_le hn idling.next⟩
  · exact h.nodup c l hl
  · exact h.disjoint c d l k hl hk

theorem opened {x : Context} (h : m.Apart) (blank : x.Blank) :
    (after (ContextId.new x) m).Apart := by
  -- A new query context lists nothing.
  have told {c : ContextId} {l : Listing} (hl : (after (ContextId.new x) m).listing? c = some l) :
      l.created = [] ∨ m.listing? c = some l := by
    rw [listing?_new blank] at hl
    split at hl
    · obtain rfl := Option.some.inj hl
      exact .inl (Listing.created_blank _)
    · exact .inr hl
  refine ⟨fun c l hl v hv => ?_, fun c l hl => ?_, fun c d l k hl hk differ => ?_⟩
  · rcases told hl with empty | old
    · rw [empty] at hv
      cases hv
    · exact h.numbered c l old v hv
  · rcases told hl with empty | old
    · rw [empty]
      exact .nil
    · exact h.nodup c l old
  · rcases told hl with empty | hl
    · simp [empty]
    · rcases told hk with empty | hk
      · simp [empty]
      · exact h.disjoint c d l k hl hk differ

theorem called (h : m.Apart) (enters : c.Enters m item m') : m'.Apart := by
  have absent {d : ContextId} {k : Listing} (hk : m.listing? d = some k) (e : Entity) :
      .mapped ⟨e, some m.next⟩ ∉ k.created := by
    intro hv
    obtain ⟨_, n, hv, hn⟩ := h.numbered d k hk _ hv
    cases hv
    exact Nat.lt_irrefl _ hn
  refine ⟨fun d l hl v hv => ?_, fun d l hl => ?_, fun d d' l l' hl hl' differ v hv hv' => ?_⟩
  · obtain ⟨k, hk, same | ⟨-, next, e, -, perm⟩⟩ := enters.created hl
    · obtain ⟨e, n, hv, hn⟩ := h.numbered d k hk v (same ▸ hv)
      exact ⟨e, n, hv, Nat.lt_of_lt_of_le hn enters.next.1⟩
    · rcases List.mem_cons.mp (perm.mem_iff.mp hv) with rfl | old
      · exact ⟨e, m.next, rfl, next⟩
      · obtain ⟨e, n, hv, hn⟩ := h.numbered d k hk v old
        exact ⟨e, n, hv, hn.trans next⟩
  · obtain ⟨k, hk, same | ⟨-, -, e, -, perm⟩⟩ := enters.created hl
    · rw [same]
      exact h.nodup d k hk
    · exact perm.nodup_iff.mpr (List.nodup_cons.mpr ⟨absent hk e, h.nodup d k hk⟩)
  · obtain ⟨k, hk, told⟩ := enters.created hl
    obtain ⟨k', hk', told'⟩ := enters.created hl'
    have apart := h.disjoint d d' k k' hk hk' differ
    rcases told with same | ⟨rfl, -, e, -, perm⟩
    · rw [same] at hv
      rcases told' with same' | ⟨-, -, e, -, perm⟩
      · exact apart hv (same' ▸ hv')
      · rcases List.mem_cons.mp (perm.mem_iff.mp hv') with rfl | old
        · exact absent hk e hv
        · exact apart hv old
    · rcases told' with same' | ⟨rfl, -, -⟩
      · rw [same'] at hv'
        rcases List.mem_cons.mp (perm.mem_iff.mp hv) with rfl | old
        · exact absent hk' e hv'
        · exact apart old hv'
      · exact differ rfl

/-- What a nested query shares with another query is the first root of that one, which is not nested
then. -/
theorem shared {k : Listing} {v : Value} (h : m.Apart) (hl : m.listing? c = some l)
    (hk : m.listing? d = some k) (differ : c ≠ d) (nested : l.nested = true) (hv : v ∈ l.objects)
    (hv' : v ∈ k.objects) : k.nested = false ∧ k.roots.head? = some v := by
  rw [Listing.objects_eq_created nested] at hv
  rcases Listing.mem_created hv' with created | first
  · exact (h.disjoint c d l k hl hk differ hv created).elim
  · exact first

end Apart

theorem Follows.apart (h : m₀.Follows calls m) (start : m₀.Apart) : m.Apart := by
  induction h with
  | start => exact start
  | idle _ idling ih => exact ih.idle idling
  | opened _ blank ih => exact ih.opened blank
  | called _ enters ih => exact ih.called enters

/-! ### Runs -/

/-- The machine follows another one by some calls. -/
def Onward (m m' : Machine) : Prop := ∃ calls, m.Follows calls m'

namespace Onward

theorem of_idling (h : Idling m m') : m.Onward m' := ⟨[], .idle .start h⟩

theorem of_contexts (next : m.next ≤ m'.next) (h : m'.contexts = m.contexts) : m.Onward m' :=
  of_idling (.of_contexts next h)

theorem trans (h : m₀.Onward m) (h' : m.Onward m') : m₀.Onward m' := by
  obtain ⟨calls, h⟩ := h
  obtain ⟨more, h'⟩ := h'
  exact ⟨_, h.trans h'⟩

instance : Inert Onward := .of_contexts of_contexts trans

theorem change (c : ContextId) {f : Context → Except Error Context} (hf : Context.Change f) :
    Keeps Onward (c.update f) := by
  intro m
  rcases h : exec (c.update f) m with ⟨e | u, m'⟩ <;> rw [after, h]
  · rw [ContextId.eq_of_update_eq_error h]
    exact Inert.refl m
  · obtain ⟨x, y, hx, hy, rfl⟩ := exec_update_eq_ok.mp h
    rcases hf.listing hy with ⟨root, rfl⟩ | same
    · exact ⟨_, .called .start (.correlate h)⟩
    · exact of_idling (.of_set hx same)

theorem growRoot (c : ContextId) (entity : Value) : Keeps Onward (c.growRoot entity) := by
  intro m
  rcases h : exec (c.growRoot entity) m with ⟨e | given, m'⟩ <;> rw [after, h]
  · unfold ContextId.growRoot at h
    rw [exec_bind_of_ok (exec_fresh m)] at h
    rw [ContextId.eq_of_updateGet_eq_error h]
    exact Inert.fresh m
  · exact ⟨_, .called .start (.root h)⟩

theorem growJoin (c : ContextId) (correlated : Bool) (owner : Mapped) (r : Relationship)
    (outer : Value) : Keeps Onward (c.growJoin correlated owner r outer) := by
  intro m
  rcases h : exec (c.growJoin correlated owner r outer) m with ⟨e | v, m'⟩ <;> rw [after, h]
  · unfold ContextId.growJoin at h
    rw [exec_bind_of_ok (exec_fresh m), exec_bind_of_ok (exec_get _)] at h
    rw [ContextId.eq_of_updateGet_eq_error h]
    exact Inert.fresh m
  · obtain ⟨x, y, truth, -, joined, -⟩ := ContextId.exec_growJoin_eq_ok h
    obtain ⟨rfl, -⟩ := Context.join_listing joined
    exact ⟨_, .called .start (.join h)⟩

instance : Guarantee Onward where
  toCreating := .of_contexts of_contexts fun blank _ => ⟨_, .opened .start blank⟩
  change := change
  growRoot := growRoot
  growJoin := growJoin

end Onward

/-- Whatever the machine does, it follows those it followed before. -/
instance (m₀ : Machine) : Invariant (Onward m₀) :=
  .of_guarantee (fun later before => before.trans later) fun _ _ _ _ before =>
    before.trans (.of_contexts (Nat.le_refl _) rfl)

end Machine

end FluentQuery
