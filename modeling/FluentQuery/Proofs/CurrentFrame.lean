import FluentQuery.Proofs.Balance
import FluentQuery.Proofs.Builds
import FluentQuery.Proofs.Order

/-! The frame a build configures its query in. Whenever the build calls a function, the stack is
the one the build started on with one frame on top, which holds the builder and the query
context of this build. So what is built as a subquery there becomes one of that query. -/

namespace FluentQuery

variable {α β : Type}

/-! ### Contexts as they were created -/

/-- The context as it was before it was told anything. -/
def Context.created (x : Context) : Context :=
  match x.kind with
  | .common => .ofKind .common
  | .abstract _ => .ofKind (.abstract .empty)
  | .query _ _ => .query
  | .subquery _ parent _ _ => .subquery parent
  | .delete target => .ofKind (.delete target)
  | .update target _ => .ofKind (.update target [])

namespace Context

variable {x y : Context}

theorem Blank.created (h : x.Blank) : x.created = x := by
  cases h <;> rfl

theorem created_updateBody {f : SelectBody → SelectBody} (h : x.updateBody f = .ok y) :
    y.created = x.created := by
  obtain ⟨b, hb, rfl⟩ := updateBody_eq_ok.mp h
  obtain ⟨restriction, kind⟩ := x
  cases kind <;> rfl

theorem Change.created {f : Context → Except Error Context} (hf : Change f) (h : f x = .ok y) :
    y.created = x.created := by
  cases hf.changed h with
  | restriction r => rfl
  | body h _ => exact created_updateBody h
  | orders hk items => simp [Context.created, hk]
  | correlated hk roots => simp [Context.created, hk]
  | assignments hk fields => simp [Context.created, hk]

theorem created_addRoot {fresh : Nat} {entity root : Value}
    (h : x.addRoot fresh entity = .ok (root, y)) : y.created = x.created :=
  created_updateBody (addRoot_eq_ok h).2.1

theorem created_join {fresh : Nat} {correlated : Bool} {owner : Mapped} {r : Relationship}
    {outer v : Value} {truth : Option Bool}
    (h : x.join fresh correlated owner r outer truth = .ok (v, y)) : y.created = x.created := by
  obtain ⟨-, joined⟩ := join_eq_ok h
  cases joined with
  | planned _ hy => exact created_updateBody hy
  | correlated _ hk => simp [Context.created, hk]

end Context

/-- The context at an address as it was created. -/
def Machine.created? (m : Machine) (c : ContextId) : Option Context :=
  (m.context? c).map (·.created)

/-- Every query context is still there, and of the kind it was created as: a subquery has the parent
it was created with. -/
def Lasting (m m' : Machine) : Prop := ∀ c x, m.created? c = some x → m'.created? c = some x

namespace Lasting

theorem of_contexts {m m' : Machine} (h : m'.contexts = m.contexts) : Lasting m m' := by
  intro c x hx
  rw [← hx, Machine.created?, Machine.created?, Machine.context?, Machine.context?, h]

theorem of_set {m : Machine} {c : ContextId} {x y : Context} (h : m.context? c = some x)
    {m' : Machine} (hc : m'.contexts = m.contexts.set c.index y) (hy : y.created = x.created) :
    Lasting m m' := by
  intro d z hz
  have told : m'.context? d = { m with contexts := m.contexts.set c.index y }.context? d :=
    congrArg (·[d.index]?) hc
  rw [← hz, Machine.created?, Machine.created?, told]
  by_cases hd : d = c
  · rw [hd, context?_set h, h, Option.map_some, Option.map_some, hy]
  · rw [context?_set_of_ne hd]

instance : Inert Lasting :=
  .of_contexts (fun _ => of_contexts) fun hab hbc c x h => hbc c x (hab c x h)

theorem newContext (x : Context) : Keeps Lasting (ContextId.new x) := by
  intro m c y hy
  obtain ⟨z, hz, hzy⟩ := Option.map_eq_some_iff.mp hy
  have old : c.index < m.contexts.length := (List.getElem?_eq_some_iff.mp hz).1
  have told : (after (ContextId.new x) m).context? c = m.context? c :=
    List.getElem?_append_left old
  rw [Machine.created?, told]
  exact hy

theorem change (c : ContextId) {f : Context → Except Error Context} (hf : Context.Change f) :
    Keeps Lasting (c.update f) :=
  .update fun hx hy => of_set hx rfl (hf.created hy)

theorem updateGet (c : ContextId) {f : Context → Except Error (Value × Context)}
    (hf : ∀ {x v y}, f x = .ok (v, y) → y.created = x.created) : Keeps Lasting (c.updateGet f) :=
  .updateGet fun hx hy => of_set hx rfl (hf hy)

instance : Guarantee Lasting where
  toCreating := .of_contexts (fun _ => of_contexts) fun _ => newContext _
  change := change
  growRoot c _ := Keeps.bind Inert.fresh fun _ => updateGet c Context.created_addRoot
  growJoin c _ _ _ _ := Keeps.bind Inert.fresh fun _ => Keeps.bind .get fun _ =>
    updateGet c Context.created_join

theorem exists_context {m m' : Machine} (h : Lasting m m') {c : ContextId} {x : Context}
    (hx : m.context? c = some x) : ∃ y, m'.context? c = some y := by
  have last := h c x.created (by rw [Machine.created?, hx]; rfl)
  obtain ⟨y, hy, -⟩ := Option.map_eq_some_iff.mp last
  exact ⟨y, hy⟩

end Lasting

/-! ### Two relations at once -/

/-- Both relations hold. -/
structure Both (R S : Machine → Machine → Prop) (m m' : Machine) : Prop where
  left : R m m'
  right : S m m'

namespace Both

variable {R S : Machine → Machine → Prop}

instance [Inert R] [Inert S] : Inert (Both R S) where
  refl m := ⟨Inert.refl m, Inert.refl m⟩
  trans h h' := ⟨Inert.trans h.left h'.left, Inert.trans h.right h'.right⟩
  fresh m := ⟨Inert.fresh m, Inert.fresh m⟩
  newMapping fields m := ⟨Inert.newMapping fields m, Inert.newMapping fields m⟩
  log line m := ⟨Inert.log line m, Inert.log line m⟩
  handle v m := ⟨Inert.handle v m, Inert.handle v m⟩

instance [Composing R] [Composing S] : Composing (Both R S) where
  newContext h m := ⟨Composing.newContext h m, Composing.newContext h m⟩
  change c _ h m := ⟨Composing.change c h m, Composing.change c h m⟩
  growRoot c entity m := ⟨Composing.growRoot c entity m, Composing.growRoot c entity m⟩
  growJoin c k o r v m := ⟨Composing.growJoin c k o r v m, Composing.growJoin c k o r v m⟩

end Both

/-! ### Between the events of a run -/

/-- A relation that calls and bindings uphold leads over every event. -/
theorem Event.Happens.keeps {R : Machine → Machine → Prop} [Creating R] {call : Call} {e : Event}
    (hc : ∀ f args, Keeps R (call f args)) (h : e.Happens call) : R e.before e.after := by
  unfold Happens at h
  split at h
  · exact (hc _ _).of_exec h
  · obtain ⟨v, -, h⟩ := h
    exact (Creating.bind _ v).of_exec h

/-- A relation that holds over every event and between any two leads from the start to each. -/
theorem Linked.to_before {L R : Machine → Machine → Prop} [Inert R] (le : ∀ a b, L a b → R a b)
    {m m' : Machine} {es : List Event} (h : Linked L m es m')
    (kept : ∀ e ∈ es, R e.before e.after) : ∀ e ∈ es, R m e.before := by
  induction h with
  | nil => simp
  | cons hl _ ih =>
    obtain ⟨first, rest⟩ := List.forall_mem_cons.mp kept
    refine List.forall_mem_cons.mpr ⟨le _ _ hl, fun e he => ?_⟩
    exact Inert.trans (le _ _ hl) (Inert.trans first (ih rest e he))

/-! ### What a build sets up -/

namespace Opening

theorem inside_stack (o : Opening) (m : Machine) :
    (o.inside m).stack = ⟨o.machine.next, o.builder, m.nextQuery⟩ :: o.machine.stack := by
  unfold Opening.inside Machine.entered Machine.logged
  split <;> rfl

theorem inside_lasts (o : Opening) (m : Machine) : Lasting o.machine (o.inside m) :=
  .of_contexts (Machine.contexts_logged _ _)

end Opening

namespace Terminal

variable {T : Terminal} {s : Stream} {m : Machine} {o : Opening}

/-- A build sets up a new context, which has not been told anything, on the stack it found. -/
theorem opening_spec (h : T.opening s m = .ok o) : o.builder.isNull = false ∧
    o.machine.stack = m.stack ∧ ∃ x, x.Blank ∧ o.machine.context? m.nextContext = some x := by
  have last (n : Machine) (x : Context) :
      (after (ContextId.new x) n).context? n.nextContext = some x :=
    List.getElem?_concat_length
  cases hT : T.nests with
  | false =>
    obtain ⟨t, -, rfl⟩ := opening_of_not_nests hT h
    refine ⟨rfl, rfl, _, ?_, last { m with next := m.next + 1 } _⟩
    cases t.purpose
    · exact .query
    · exact .delete _
    · exact .update _
  | true =>
    obtain ⟨f, rest, -, builder, rfl⟩ := opening_of_nests hT h
    exact ⟨builder, rfl, _, .subquery f.query, last m _⟩

/-- A build in a frame is one of a subquery of the query in that frame. -/
theorem opening_of_stack {f : Frame} {rest : List Frame} (hs : m.stack = f :: rest)
    (hb : f.builder.isNull = false) (hT : T = .subquery ∨ T = .existence) :
    T.opening s m = .ok ⟨f.builder, after (ContextId.new (.subquery f.query)) m⟩ := by
  rcases hT with rfl | rfl <;> simp [opening, hs, hb]

end Terminal

/-! ### From what a build sets up to its end -/

theorem after_bind_of_ok {x : Run α} {f : α → Run β} {m m' : Machine} {a : α}
    (h : exec x m = (.ok a, m')) : after (x >>= f) m = after (f a) m' := by
  rw [after, exec_bind_of_ok h, after]

section Builds

variable {R : Machine → Machine → Prop} [Guarantee R] {call : Call}
  (hc : ∀ f args, Keeps R (call f args)) {s : Stream} {m : Machine} {o : Opening}

omit [Guarantee R] in
theorem Keeps.over_rest [Inert R] {x : Run α} {f : α → Run β} (hf : ∀ a, Keeps R (f a))
    {n : Machine} (h : R n (after x m)) : R n (after (x >>= f) m) := by
  rcases hx : exec x m with ⟨e | a, m'⟩
  · rw [after, exec_bind_of_error hx]
    rwa [after, hx] at h
  · rw [after_bind_of_ok hx]
    rw [after, hx] at h
    exact Inert.trans h (hf a m')

include hc

theorem Stream.toContext_after (ho : Terminal.criteria.opening s m = .ok o) :
    R o.machine (after (s.toContext call) m) := by
  obtain ⟨t, ht, rfl⟩ := Terminal.exists_queryType ho
  unfold toContext
  simp only [ht]
  rw [after_bind_of_ok (exec_fresh m), after_bind_of_ok (t.exec_createContext _)]
  refine Keeps.bind (withFrame_keeps _ _ fun _ => ?_) (fun v => ?_) _
  · exact (configure_keeps hc _ _ _).bind fun v => QueryType.select_keeps _ _ _
  · refine (logLine_keeps ?_).bind fun _ => .pure _
    exact (shownNow_keeps _).bind fun _ => (shownNow_keeps _).bind fun _ => .pure _

theorem Stream.toQuery_after (ho : Terminal.query.opening s m = .ok o) :
    R o.machine (after (s.toQuery call) m) := by
  have context := toContext_after hc (s := s) ho
  obtain ⟨t, ht, -⟩ := Terminal.exists_queryType ho
  unfold toQuery
  simp only [ht]
  exact Keeps.over_rest (fun v => by grind) context

theorem Stream.toSubquery_after (ho : Terminal.subquery.opening s m = .ok o) :
    R o.machine (after (s.toSubquery call) m) := by
  obtain ⟨f, rest, stack, -, rfl⟩ := Terminal.exists_frame ho
  unfold toSubquery
  rw [after_bind_of_ok (exec_currentFrame stack), after_bind_of_ok (ContextId.exec_new _ m)]
  refine Keeps.bind (withFrame_keeps _ _ fun _ => ?_) (fun _ => .pure _) _
  exact (configure_keeps hc _ _ _).bind fun v => Guarantee.change _ (.select _)

/-- What every elementary step upholds holds from what a build sets up to its end. -/
theorem Terminal.run_after {T : Terminal} (ho : T.opening s m = .ok o) :
    R o.machine (after (T.run call s) m) := by
  cases T with
  | criteria => exact Stream.toContext_after hc ho
  | query => exact Stream.toQuery_after hc ho
  | subquery => exact Keeps.over_rest (fun c => c.scalar_keeps) (Stream.toSubquery_after hc ho)
  | existence => exact Keeps.over_rest (fun c => c.existence_keeps) (Stream.toSubquery_after hc ho)

end Builds

/-! ### The current frame -/

/-- Whenever a build calls a function, at whatever depth the program is and whatever was built,
failed or caught before, the stack is the one the build started on with one frame on top. The frame
holds the builder of this build and the context it created, which is still there and still of the
kind it was created as. A subquery that is built on this stack gets that context as its parent,
which it keeps, and is configured with that builder. -/
theorem calls_see_own_frame (depth : Nat) (T : Terminal) (s : Stream) (m : Machine) :
    let call := callAny (eval depth)
    ∃ es r m', exec (T.run call s) m = (r, m') ∧ Makes Silent call (fun k => T.run k s) m es r m' ∧
      ∀ e ∈ es, ∃ o x, T.opening s m = .ok o ∧ o.machine.context? m.nextContext = some x ∧
        e.before.stack = ⟨o.machine.next, o.builder, m.nextQuery⟩ :: m.stack ∧
        e.before.created? m.nextContext = some x ∧
        ∀ (n : Machine) (u : Stream) (U : Terminal),
          n.stack = e.before.stack → U = .subquery ∨ U = .existence →
            ∃ o', U.opening u n = .ok o' ∧ o'.builder = o.builder ∧
              o'.machine.context? n.nextContext = some (.subquery m.nextQuery) ∧
              (after (U.run call u) n).created? n.nextContext = some (.subquery m.nextQuery) := by
  intro call
  rcases opening : T.opening s m with err | o
  · obtain ⟨m', makes⟩ := T.run_makes_of_error call opening
    exact ⟨[], .error err, m', makes.exec_eq, makes, by simp⟩
  obtain ⟨hb, stack, x, blank, hx⟩ := Terminal.opening_spec opening
  obtain ⟨es, r₁, m₁, inside⟩ := configure_makes (L := Both Idle Lasting) call s.configurer
    o.builder m.nextQuery (o.inside m)
  obtain ⟨r, m', makes, -, -⟩ := T.run_leads opening (inside.mono fun _ _ h => h.left)
  have reaches {R : Machine → Machine → Prop} [Guarantee R]
      (le : ∀ a b, Both Idle Lasting a b → R a b) : ∀ e ∈ es, R (o.inside m) e.before :=
    inside.linked.to_before le fun e he => (inside.happens e he).keeps (callAny_eval_keeps depth)
  refine ⟨es, r, m', makes.exec_eq, makes, fun e he => ?_⟩
  have top : e.before.stack = ⟨o.machine.next, o.builder, m.nextQuery⟩ :: m.stack := by
    have same := reaches (R := SameStack) (fun _ _ h => h.left.stack) e he
    rw [same, Opening.inside_stack, stack]
  have lasts : Lasting o.machine e.before :=
    Inert.trans (Opening.inside_lasts o m) (reaches (fun _ _ h => h.right) e he)
  have new : o.machine.created? m.nextContext = some x := by
    rw [Machine.created?, hx, Option.map_some, blank.created]
  refine ⟨o, x, rfl, hx, top, lasts _ _ new, fun n u U hn hU => ?_⟩
  have nested := Terminal.opening_of_stack (s := u) (hn.trans top) hb hU
  have child : (after (ContextId.new (.subquery m.nextQuery)) n).context? n.nextContext =
      some (.subquery m.nextQuery) := List.getElem?_concat_length
  refine ⟨_, nested, rfl, child, ?_⟩
  refine Terminal.run_after (R := Lasting) (callAny_eval_keeps depth) nested _ _ ?_
  rw [Machine.created?, child]
  rfl

end FluentQuery
