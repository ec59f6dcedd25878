import FluentQuery.Proofs.Preview.Runs

/-! Builds over one entity, from what each kind of query sets up to what it leaves. -/

namespace FluentQuery

open Sql

variable {F : Footprint} {b m n : Machine} {c : ContextId}

/-! ### Where a build starts -/

/-- The machine on which a build of this type configures its query, inside the frame of a new one. -/
def QueryType.begun (t : QueryType) (m : Machine) : Machine :=
  (after t.createContext { m with next := m.next + 1 }).entered (.criteriaBuilder m.next) m.nextQuery

theorem QueryType.begun_context? (t : QueryType) (m : Machine) :
    (t.begun m).context? m.nextContext = some t.blank :=
  (congrArg (·[_]?) (Machine.contexts_logged _ _)).trans List.getElem?_concat_length

/-- The machine on which filters are applied on their own: inside the frame of a context that has
nothing but a restriction. -/
def Machine.rehearsing (b : Machine) : Machine :=
  let blank : Machine := { b with next := b.next + 1, contexts := b.contexts ++ [.ofKind .common] }
  blank.entered (.criteriaBuilder b.next) b.nextQuery

theorem Machine.Known.entered {w : Moment} (h : m.Known w) {builder : Value} (hb : builder.Known w)
    (hc : (Value.context c).Known w) : ∃ w', w.Le w' ∧ (m.entered builder (.context c)).Known w' := by
  let inside : Machine :=
    { m with next := m.next + 1, stack := ⟨m.next, builder, .context c⟩ :: m.stack }
  have le : w.Le (w.onwards inside) :=
    h.onwards ⟨Nat.le_succ _, fun space => by cases space <;> exact Nat.le_refl _⟩
  have stores := h.toStoresKnown.mono le
  have frame : Frame.Known (w.onwards inside) ⟨m.next, builder, .context c⟩ :=
    ⟨Nat.lt_succ_self m.next, hb.mono le, hc.mono le⟩
  have known : inside.Known (w.onwards inside) := { stores with
    stack := List.forall_mem_cons.mpr ⟨frame, stores.stack⟩
    extent := rfl
    positive := Nat.succ_pos _ }
  refine ⟨_, le, ?_⟩
  unfold Machine.entered Machine.logged
  split
  · exact { known with }
  · exact known

/-- A build starts where filters on their own start, as far as restrictions go. -/
theorem Follows.begun {W₀ W : Moment} (made : b.Known W₀) (covers : F.Covers b)
    (retains : b.Retains F m) (known : m.Known W) {t : QueryType} (ht : t.Known W) :
    ∃ w ρ, W.Le w ∧ (Value.criteriaBuilder m.next).Known w ∧ m.nextQuery.Known w ∧
      Follows F b w b.nextContext m.nextContext (.criteriaBuilder b.next) (.criteriaBuilder m.next)
        b.rehearsing (t.begun m) ρ w := by
  obtain ⟨w₁, le₁, known₁, given⟩ := fresh_sound m known
  obtain ⟨w₂, le₂, known₂, address⟩ := QueryType.createContext_sound (ht.mono le₁) _ known₁
  have builder : (Value.criteriaBuilder m.next).Known w₂ := le₂.given (given m.next rfl)
  have query : m.nextQuery.Known w₂ := address m.nextContext rfl
  obtain ⟨w₃, le₃, known₃⟩ := known₂.entered builder query
  let ρ := Renaming.resume b.extent m.extent retains.extent made.positive
  have alike : Alike false ρ F b m := covers.alike made.wellMade retains
  have blank : Context.Seen Context.bare ρ F (.ofKind .common) t.blank := by
    unfold QueryType.blank
    cases t.purpose <;> exact ⟨rfl, trivial, trivial⟩
  have created : Tracks false false Context.bare ρ F b.nextContext m.nextContext
      { b with next := b.next + 1, contexts := b.contexts ++ [.ofKind .common] }
      (after t.createContext { m with next := m.next + 1 }) :=
    { alike with
      next := fun k => (Nat.add_assoc b.next 1 k ▸ alike.next (1 + k)).trans
        (Nat.add_assoc m.next 1 k).symm
      contexts := fun contextual => absurd contextual covers.apart
      seen := ⟨_, _, List.getElem?_concat_length, List.getElem?_concat_length, blank⟩
      frames := nofun }
  have renamed : (Value.criteriaBuilder b.next).rename ρ = .criteriaBuilder m.next :=
    congrArg Value.criteriaBuilder (alike.next 0)
  have within : (Value.criteriaBuilder b.next).Within F := trivial
  have entered := created.entered covers.apart within
  rw [renamed] at entered
  exact ⟨w₃, ρ, (le₁.trans le₂).trans le₃, builder.mono le₃, query.mono le₃, { entered with
    fixes := Renaming.resume_fixes retains.extent made.positive
    known := known₃
    since := .refl w₃
    built := renamed.symm }⟩

/-- What a query of this type consists of once it has its root. -/
def QueryType.rooted (t : QueryType) : ContextKind :=
  match t.purpose with
  | .search => .query { SelectBody.empty with roots := [t.entity] } []
  | .delete => .delete t.entity
  | .update => .update t.entity []

/-- The root of a new query is the entity itself, whichever kind of query it is. -/
theorem QueryType.exec_root (t : QueryType) (call : Call) (builder : Value)
    (hn : n.context? c = some t.blank) (he : t.entity.isNull = false)
    (same : t.entity.same t.entity) :
    ∃ o, exec (Origin.select call builder (.context c) (.root t.entity)) n = (.ok t.entity, o) ∧
      n.Retains F o ∧ o.context? c = some ⟨.null, t.rooted⟩ := by
  have there : exec (Origin.select call builder (.context c) (.root t.entity)) n =
      exec (c.addRoot t.entity) n := rfl
  rw [there]
  unfold blank rooted at *
  cases hp : t.purpose with
  | search =>
    rw [hp] at hn
    refine ⟨_, exec_addRoot_query hn he, ?_, context?_set hn _⟩
    have grown : n.extent.Le { n with
        next := n.next + 1
        contexts := n.contexts.set c.index
          ⟨.null, .query { SelectBody.empty with roots := [t.entity] } []⟩ }.extent :=
      ⟨Nat.le_succ _, fun space => by cases space <;> simp [Machine.extent]⟩
    exact { Machine.Retains.refl F n with extent := grown }
  | delete | update =>
    rw [hp] at hn
    refine ⟨n, ?_, .refl F n, hn⟩
    unfold ContextId.addRoot
    rw [exec_bind_of_ok (exec_readContext_of_some hn)]
    simp [Context.ofKind, Context.target?, same]

/-- A build that goes on to its root is still followed. -/
theorem Follows.rooted {W w : Moment} {l : Machine} {ρ : Renaming} {builder builder' : Value}
    {t : QueryType} (h : Follows F b W c m.nextContext builder builder' l (t.begun m) ρ w)
    (covers : F.Covers b) (le : b.extent.Le W.extent) (hb : builder'.Known W)
    (query : m.nextQuery.Known W) (known : t.entity.Known W) (he : t.entity.isNull = false)
    (same : t.entity.same t.entity) (depth : Nat) :
    ∃ o σ w', exec (Origin.select (callAny (eval depth)) builder' m.nextQuery (.root t.entity))
        (t.begun m) = (.ok t.entity, o) ∧
      o.context? m.nextContext = some ⟨.null, t.rooted⟩ ∧
      Follows F b W c m.nextContext builder builder' l o σ w' := by
  obtain ⟨o, run, retains, root⟩ :=
    t.exec_root (F := F) (callAny (eval depth)) builder' (t.begun_context? m) he same
  have sound : Sound w (Origin.select (callAny (eval depth)) builder' m.nextQuery (.root t.entity)) :=
    Origin.select_sound (callAny_eval_sound depth) (hb.mono h.since) (query.mono h.since)
      (known.mono h.since)
  have stack : SameStack (t.begun m) o :=
    (Origin.select_keeps (callAny_eval_keeps depth) _ _ _).of_exec run
  have unrestricted : SameRestriction m.nextContext (t.begun m) o :=
    (ContextId.addRoot_same (c := m.nextContext) (d := m.nextContext) t.entity).of_exec run
  obtain ⟨σ, w', follows⟩ := h.aside covers le hb sound run retains stack unrestricted
  exact ⟨o, σ, w', run, root, follows⟩

/-! ### What filters leave -/

/-- A filter restricts its query and tells it nothing else. -/
theorem Step.filter_restricts {call : Call} {t : QueryType} {p : Projection} {builder v w : Value}
    {x : Context} (spares : Keeps (Spares (c.index + 1)) (p.read call v)) (hx : m.context? c = some x)
    (h : exec ((filter (.queryType t) p).apply call builder (.context c) v) m = (.ok w, n)) :
    ∃ r, n.context? c = some { x with restriction := r } := by
  obtain ⟨e, m₁, he, h⟩ := exec_bind_eq_ok.mp h
  rw [exec_bind_of_ok (exec_asContext c m₁)] at h
  obtain ⟨joint, m₂, hj, h⟩ := exec_bind_eq_ok.mp h
  obtain ⟨_, m₃, hs, h⟩ := exec_bind_eq_ok.mp h
  obtain ⟨-, rfl⟩ := exec_pure_eq_ok.mp h
  obtain ⟨-, y, hy, rfl⟩ := exec_restrict hs
  have joined : Spares (c.index + 1) m₁ m₂ := (conjoin_keeps _ _ _).of_exec hj
  obtain rfl := Option.some.inj ((joined.context? ((spares.of_exec he).context? hx)).symm.trans hy)
  exact ⟨joint, context?_set hy _⟩

/-- A query that is only filtered stays, but for its restriction, as it was. -/
theorem StandAside.restricts {depth : Nat} {builder v w : Value} {steps : List Step} {x : Context}
    (filters : ∀ step ∈ steps, step.filtering?.isSome)
    (aside : StandAside F depth builder c v steps m) (hx : m.context? c = some x)
    (h : exec (Step.applyAll (callAny (eval depth)) builder (.context c) v steps) m = (.ok w, n)) :
    ∃ r, n.context? c = some { x with restriction := r } := by
  induction steps generalizing v m x with
  | nil =>
    obtain ⟨-, rfl⟩ := exec_pure_eq_ok.mp h
    exact ⟨x.restriction, hx⟩
  | cons step steps ih =>
    obtain ⟨first, rest⟩ := aside
    obtain ⟨isFilter, others⟩ := List.forall_mem_cons.mp filters
    obtain ⟨p, hp⟩ := Option.isSome_iff_exists.mp isFilter
    obtain ⟨t, rfl⟩ := Step.exists_filter hp
    rw [hp] at first
    obtain ⟨u, m₁, hs, h⟩ := exec_bind_eq_ok.mp h
    have spares : Keeps (Spares (c.index + 1)) (p.read (aloofCall depth) v) :=
      p.read_keeps ((aloofCall_discreet depth).spares _) v
    obtain ⟨r, hr⟩ :=
      Step.filter_restricts spares hx ((Step.exec_filter_congr first).symm.trans hs)
    obtain ⟨r', hr'⟩ := ih others (rest u m₁ hs) hr h
    exact ⟨r', hr'⟩

/-- What a query of this type consists of when it was filtered, and given assignments. -/
def QueryType.IsRooted (t : QueryType) (k : ContextKind) : Prop :=
  match t.purpose with
  | .search | .delete => k = t.rooted
  | .update => ∃ assignments, k = .update t.entity assignments

theorem StandAside.isRooted {depth : Nat} {t : QueryType} {builder v w : Value} {steps : List Step}
    (filters : ∀ step ∈ steps, step.filtering?.isSome ∨ t.purpose = .update)
    (aside : StandAside F depth builder c v steps m) (hx : m.context? c = some ⟨.null, t.rooted⟩)
    (h : exec (Step.applyAll (callAny (eval depth)) builder (.context c) v steps) m = (.ok w, n)) :
    ∃ x, n.context? c = some x ∧ t.IsRooted x.kind := by
  cases hp : t.purpose with
  | search | delete =>
    obtain ⟨r, hr⟩ := aside.restricts (fun step hs => (filters step hs).resolve_right (by simp [hp]))
      hx h
    refine ⟨_, hr, ?_⟩
    unfold QueryType.IsRooted
    rw [hp]
  | update =>
    have lasts : Lasting m n :=
      (Step.applyAll_keeps (callAny_eval_keeps depth) _ _ _ _).of_exec h
    have created : m.created? c = some (.ofKind (.update t.entity [])) := by
      rw [Machine.created?, hx, QueryType.rooted, hp]
      rfl
    obtain ⟨⟨r, k⟩, hn, same⟩ := Option.map_eq_some_iff.mp (lasts c _ created)
    refine ⟨_, hn, ?_⟩
    unfold QueryType.IsRooted
    rw [hp]
    cases k with
    | update target assignments =>
      cases same
      exact ⟨assignments, rfl⟩
    | _ => cases same

/-- The query is one over the rows of `entity`: a search has it as its only root and selects it, and a
bulk statement has it as its target. -/
def ContextKind.IsOver (purpose : Purpose) (entity : Value) (k : ContextKind) : Prop :=
  match purpose with
  | .search => k = .query { SelectBody.empty with roots := [entity], selection := entity } []
  | .delete => k = .delete entity
  | .update => ∃ assignments, k = .update entity assignments

/-- What a build selects in the end leaves the restriction. -/
theorem QueryType.exec_select_isOver {t : QueryType} {x : Context} (hx : m.context? c = some x)
    (rooted : t.IsRooted x.kind) (he : t.entity.isNull = false) :
    ∃ y m', exec (t.select (.context c) t.entity) m = (.ok (.context c), m') ∧
      m'.context? c = some y ∧ y.restriction = x.restriction ∧
      y.kind.IsOver t.purpose t.entity := by
  obtain ⟨restriction, kind⟩ := x
  unfold IsRooted at rooted
  unfold ContextKind.IsOver
  cases hp : t.purpose with
  | search =>
    simp only [hp, QueryType.rooted] at rooted
    subst rooted
    exact ⟨_, _, exec_select_search hp hx he, context?_set hx _, rfl, rfl⟩
  | delete =>
    simp only [hp, QueryType.rooted] at rooted
    unfold select
    rw [hp]
    exact ⟨_, m, rfl, hx, rfl, rooted⟩
  | update =>
    rw [hp] at rooted
    unfold select
    rw [hp]
    exact ⟨_, m, rfl, hx, rfl, rooted⟩

end FluentQuery
