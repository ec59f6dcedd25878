import FluentQuery.Interface
import FluentQuery.Proofs.Provenance.Building

/-! Calls of the library by name come to known values, and so does running executable queries. -/

namespace FluentQuery

open Sql

variable {w w' : Moment}

/-! ### Plain data -/

mutual

theorem Value.ofDatum_sound :
    ∀ (d : Datum) {w : Moment}, 0 < w.extent.next → Sound w (Value.ofDatum d)
  | .null, _, _ => .pure (a := Value.null) trivial
  | .bool b, _, _ => .pure (a := Value.bool b) trivial
  | .int n, _, positive => .pure (a := Value.int 0 n) positive
  | .float x, _, positive => .pure (a := Value.float 0 x) positive
  | .text s, _, positive => .pure (a := Value.text 0 s) positive
  | .list items, _, positive => (Value.ofData_sound items positive).bind fun _ _ _ hv => newList_sound hv
  | .mapping fields, _, positive =>
    (Value.ofFields_sound fields positive).bind fun _ _ _ hf => newMapping_sound hf

theorem Value.ofData_sound :
    ∀ (ds : List Datum) {w : Moment}, 0 < w.extent.next → Sound w (Value.ofDatum.ofData ds)
  | [], _, _ => .pure known_nil
  | d :: ds, _, positive => (Value.ofDatum_sound d positive).bind fun _ le₁ _ hv =>
    (Value.ofData_sound ds (le₁.given positive)).bind fun _ le₂ _ hvs =>
      .pure (List.forall_mem_cons.mpr ⟨Knowable.mono le₂ hv, hvs⟩)

theorem Value.ofFields_sound :
    ∀ (fields : List (String × Datum)) {w : Moment}, 0 < w.extent.next →
      Sound w (Value.ofDatum.ofFields fields)
  | [], _, _ => .pure known_nil
  | (_, d) :: rest, _, positive => (Value.ofDatum_sound d positive).bind fun _ le₁ _ hv =>
    (Value.ofFields_sound rest (le₁.given positive)).bind fun _ le₂ _ hf =>
      .pure (List.forall_mem_cons.mpr ⟨⟨trivial, Knowable.mono le₂ hv⟩, hf⟩)

end

theorem Value.written_sound (d : Datum) : Sound w (Value.written d) := by
  unfold Value.written
  split
  · exact newInt_sound _
  · exact newFloat_sound _
  · exact newText_sound _
  · exact .positive fun positive => Value.ofDatum_sound d positive

/-! ### Execution -/

theorem requireSession_sound {v : Value} (hv : v.Known w) : Sound w (requireSession v) := by
  cases v with
  | session s => exact .pure hv
  | _ => exact .fail _

theorem sendTo_sound (session : Session) (s : Statement) (options : MappingId) :
    Sound w (sendTo session s options) := by
  refine .get fun m _ => .orExternal_bind _ fun statement => .orExternal_bind _ fun fields => ?_
  refine (note_sound _).bind fun _ _ _ _ => ?_
  split
  · exact .fail _
  · exact .pure (a := Answer.rows _) trivial
  · exact .pure (a := Answer.count _) trivial

theorem isSingle_sound (s : Statement) : Sound w (isSingle s) := by
  cases s with
  | select s => exact .pure trivial
  | _ => exact .fail _

theorem element_sound (single : Bool) (row : List Datum) : Sound w (element single row) := by
  refine .ite (.orExternal_bind _ fun d => .positive fun positive => ?_) ?_
  · exact Value.ofDatum_sound d positive
  · refine fresh_sound.bind fun w₁ _ id hid => ?_
    refine (Sound.mapM (fun _ _ => trivial) fun w₂ _ d _ => ?_).bind fun _ le vs hvs => ?_
    · exact .positive fun positive => Value.ofDatum_sound d positive
    · exact .pure (a := Value.row id vs) ⟨le.given hid, Value.allKnown_iff.mpr hvs⟩

namespace QueryId

variable (q : QueryId)

theorem found_sound {x : Executable} (hx : x.Known w) (s : Statement) : Sound w (q.found sendTo x s) := by
  refine (logLine_sound ((shownNow_sound _).bind fun _ _ _ _ => .pure trivial)).bind fun _ le _ _ => ?_
  refine (requireSession_sound (hx.session.mono le)).bind fun _ _ session _ => ?_
  refine (sendTo_sound _ s _).bind fun _ _ answer _ => (isSingle_sound s).bind fun _ _ single _ => ?_
  cases answer with
  | rows rows => exact .pure ⟨trivial, fun _ _ _ _ => trivial⟩
  | count n? => exact .fail _

theorem typed_sound : Sound w q.typed := by
  refine q.read_sound.bind fun _ _ x hx => ?_
  split
  · exact .pure hx
  · exact .fail _

/-- What follows may do with the statement as it likes. -/
theorem currentStatement_bind {α : Type} [Knowable α] (x : Executable) {f : Statement → Run α}
    (hf : ∀ s, Sound w (f s)) : Sound w (currentStatement x >>= f) := by
  unfold currentStatement
  simp only [bind_assoc]
  exact .get fun _ _ => .liftExcept_bind _ hf

theorem fetch_sound : Sound w (q.fetch sendTo) := by
  refine q.typed_sound.bind fun w₁ _ x hx => currentStatement_bind x fun s => ?_
  refine (q.found_sound hx s).bind fun w₂ _ (single, rows) _ => ?_
  refine (Sound.mapM (fun _ _ _ _ => trivial) fun _ _ row _ =>
    element_sound single row).bind fun w₃ _ vs hvs => ?_
  exact (logLine_sound (.pure trivial)).bind fun _ le _ _ => newList_sound (Knowable.mono le hvs)

theorem first_sound : Sound w (q.first sendTo) := by
  refine q.typed_sound.bind fun w₁ _ x hx => .ite (.pure trivial) (currentStatement_bind x fun s => ?_)
  cases s with
  | select s =>
    refine .get fun m _ => (q.found_sound hx _).bind fun w₂ _ (single, rows) _ => ?_
    cases rows with
    | nil => exact .pure trivial
    | cons row rows => exact element_sound single row
  | _ => exact .fail _

theorem one_sound : Sound w (q.one sendTo) := by
  refine q.typed_sound.bind fun w₁ _ x hx => currentStatement_bind x fun s => ?_
  refine (q.found_sound hx s).bind fun w₂ _ (single, rows) _ => ?_
  match rows with
  | [] => exact .fail _
  | [row] => exact element_sound single row
  | _ :: _ :: _ => exact .fail _

theorem restriction_sound (x : Executable) : Sound w (restriction x) := by
  unfold restriction
  split
  · exact (ContextId.read_sound _).bind fun _ _ _ hc => .pure hc.restriction
  · exact .fail _

theorem execute_sound : Sound w q.execute := by
  refine .positive fun positive => q.read_sound.bind fun w₁ le₁ x hx => ?_
  split
  · refine .guarded ((restriction_sound x).bind fun w₂ le₂ r _ => .get fun m _ => ?_)
    refine .ite ((shownNow_sound _).bind fun _ _ _ _ => .fail_bind _ _) ?_
    refine (logLine_sound ((shownNow_sound _).bind fun _ _ _ _ => .pure trivial)).bind fun w₃ le₃ _ _ => ?_
    have session := hx.session.mono (le₂.trans le₃)
    refine (requireSession_sound session).bind fun w₄ le₄ session _ => ?_
    refine currentStatement_bind x fun s => (sendTo_sound _ s _).bind fun w₅ le₅ answer _ => ?_
    have positive := (((le₁.trans le₂).trans le₃).trans (le₄.trans le₅)).given positive
    split
    · exact .pure (a := Value.int 0 0) positive
    · exact .pure (a := Value.int 0 0) positive
    · exact Value.ofDatum_sound _ positive
  · exact .fail _

theorem setBound_sound (b : Bounding) (v : Value) : Sound w (q.setBound b v) := by
  refine q.read_sound.bind fun w₁ _ x hx => (requireBound_sound b v).bind fun w₂ le bound _ => ?_
  have hx : x.Known w₂ := Knowable.mono le hx
  refine q.write_sound ?_
  cases b <;> exact ⟨hx.session, hx.query, hx.params, hx.options⟩

theorem ofParts_sound (kind : QueryKind) {session query params options : Value}
    (hs : session.Known w) (hq : query.Known w) (hp : params.Known w) (ho : options.Known w) :
    Sound w (ofParts kind session query params options) := by
  refine .guarded (.guarded ?_)
  refine (fieldsOf_sound hp).bind fun w₁ le₁ ps hps => ?_
  refine (fieldsOf_sound (ho.mono le₁)).bind fun w₂ le₂ os hos => ?_
  refine (registerAll_sound (Knowable.mono le₂ hps)).bind fun w₃ le₃ _ _ => ?_
  refine (MappingId.new_sound (Knowable.mono (le₂.trans le₃) hps)).bind fun w₄ le₄ p hp => ?_
  refine (MappingId.new_sound (Knowable.mono (le₃.trans le₄) hos)).bind fun w₅ le₅ o ho => ?_
  have le := (le₁.trans le₂).trans ((le₃.trans le₄).trans le₅)
  exact QueryId.new_sound ⟨hs.mono le, hq.mono le, le₅.address hp, ho⟩

end QueryId

/-! ### Arguments -/

instance : Knowable ArgList :=
  ⟨fun w a => Known w a.positional ∧ Known w a.keyword,
    fun le _ h => ⟨Knowable.mono le h.1, Knowable.mono le h.2⟩⟩

namespace ArgList

variable {a : ArgList} (ha : FluentQuery.Known w a)

include ha

theorem bind_sound (s : Signature) : Sound w (a.bind s) := by
  refine .guarded (.guarded (.guarded (.pure fun o ho v hv => ?_)))
  obtain ⟨⟨name, i⟩, _, rfl⟩ := List.mem_map.mp ho
  dsimp only at hv
  split at hv
  · exact ha.1 v (List.mem_of_getElem? hv)
  · exact known_of_lookup (fun x hx => (ha.2 x hx).2) hv

theorem exactly_sound (required : List String) : Sound w (a.exactly required) :=
  (bind_sound ha _).bind fun _ _ _ hv => .pure fun v h =>
    have ⟨o, ho, found⟩ := List.mem_filterMap.mp h
    hv o ho v found

theorem requireNone_sound : Sound w a.requireNone := (exactly_sound ha []).discard

theorem one_sound (name : String) : Sound w (a.one name) := by
  refine (exactly_sound ha [name]).bind fun _ _ vs hv => ?_
  match vs with
  | [] | _ :: _ :: _ => exact .fail _
  | [v] => exact .pure (hv v (by simp))

theorem two_sound (first second : String) : Sound w (a.two first second) := by
  refine (exactly_sound ha [first, second]).bind fun _ _ vs hv => ?_
  match vs with
  | [] | [_] | _ :: _ :: _ :: _ => exact .fail _
  | [v, u] => exact .pure (a := (v, u)) ⟨hv v (by simp), hv u (by simp)⟩

theorem rest_sound : Sound w a.rest := .ite (.pure ha.1) (.fail _)

theorem ownFields_sound : Sound w a.ownFields :=
  Sound.bind (.ite (.pure ha.2) (.fail _)) fun _ _ _ hf => .guarded (.pure hf)

/-- A call with one argument that must be given and one that may be left out. -/
theorem withOptional_sound (s : Signature) {k : Value → Option Value → Run Value}
    (h : ∀ w', w.Le w' → ∀ (v : Value) (o : Option Value), v.Known w' → Known w' o →
      Sound w' (k v o)) :
    Sound w (do
      match ← a.bind s with
      | [some v, o] => k v o
      | _ => fail .external) := by
  refine (bind_sound ha s).bind fun _ le vs hv => ?_
  match vs with
  | [] => exact .fail _
  | [v] | v :: _ :: _ :: _ => cases v <;> exact .fail _
  | [none, _] => exact .fail _
  | [some v, o] => exact h _ le v o (hv (some v) (by simp) v rfl) (hv o (by simp))

end ArgList

/-- An argument that may be left out. -/
theorem known_getD {o : Option Value} (ho : Known w o) {d : Value} (hd : d.Known w) :
    (o.getD d).Known w := by
  cases o with
  | none => exact hd
  | some v => exact ho v rfl

/-! ### Refs, builders, contexts and streams -/

/-- A stream that a call gives. -/
theorem givenStream_sound {x : Run Stream} (h : Sound w x) :
    Sound w (do return Value.stream (← x)) :=
  h.bind fun _ _ s hs => .pure (a := Value.stream s) hs

section Methods

theorem newContext_sound {k : ContextKind} (hk : k.Known w) : Sound w (newContext k) :=
  (ContextId.new_sound (Context.ofKind_known hk)).bind fun _ _ c hc => .pure (a := Value.context c) hc

theorem newBulk_sound (kind : Value → ContextKind)
    (known : ∀ {v : Value}, v.Known w → (kind v).Known w) {entity : Value} (he : entity.Known w) :
    Sound w (newBulk kind entity) :=
  .guarded (newContext_sound (known he))

theorem newUpdate_sound {entity : Value} (he : entity.Known w) :
    Sound w (newBulk (.update · []) entity) :=
  newBulk_sound (.update · []) (fun h => ⟨h, fun _ h => by cases h⟩) he

theorem newSearch_sound : Sound w (newContext (.query .empty [])) :=
  newContext_sound (k := .query .empty []) ⟨.empty, fun _ h => by cases h⟩

theorem newSubquery_sound (parent : Value) (hp : parent.Known w) :
    Sound w (newContext (.subquery .empty parent [] [])) :=
  newContext_sound (k := .subquery .empty parent [] []) ⟨.empty, hp, known_nil, known_nil⟩

variable {a : ArgList} (ha : FluentQuery.Known w a)

include ha

theorem RefId.invoke_sound (r : RefId) (method : String) : Sound w (r.invoke method a) := by
  have null {w' : Moment} : Sound w' (pure Value.null) := .pure (a := Value.null) trivial
  unfold RefId.invoke
  split
  · exact (ArgList.one_sound ha _).bind fun _ _ v hv => (r.bind_sound hv).bind fun _ _ _ _ => null
  · exact (ArgList.requireNone_sound ha).bind fun _ _ _ _ => r.read_sound
  · refine (ArgList.requireNone_sound ha).bind fun _ _ _ _ => r.isBound_sound.bind fun _ _ b _ => ?_
    exact .pure (a := Value.bool b) trivial
  · exact (ArgList.requireNone_sound ha).bind fun _ _ _ _ => r.unbind_sound.bind fun _ _ _ _ => null
  · exact .fail _

theorem invokeBuilder_sound (method : String) : Sound w (invokeBuilder method a) := by
  have rows {w' : Moment} : Sound w' (Expression.call "count" []) :=
    Expression.call_sound "count" known_nil
  unfold invokeBuilder
  split
  · exact (ArgList.rest_sound ha).bind fun _ _ _ hv => Expression.connect_sound .and hv
  · exact (ArgList.one_sound ha _).bind fun _ _ _ hv => Expression.sorted_sound .asc hv
  · exact (ArgList.one_sound ha _).bind fun _ _ _ hv => Expression.sorted_sound .desc hv
  · refine (ArgList.two_sound ha _ _).bind fun _ _ (v, ascending) hv => ?_
    exact (truth_sound _).bind fun _ le _ _ => Expression.sorted_sound _ (Value.Known.mono le hv.1)
  · refine (ArgList.bind_sound ha _).bind fun _ _ vs hv => ?_
    match vs with
    | [] | [none] | none :: _ :: _ | some _ :: _ :: _ => exact rows
    | [some v] =>
      refine .ite rows (Expression.call_sound "count" (List.forall_mem_singleton.mpr ?_))
      exact hv (some v) (by simp) v rfl
  · exact (ArgList.one_sound ha _).bind fun _ _ _ hv => Expression.countDistinct_sound hv
  · exact (ArgList.requireNone_sound ha).bind fun _ _ _ _ => newSearch_sound
  · exact (ArgList.one_sound ha _).bind fun _ _ _ hv => newBulk_sound .delete (fun h => h) hv
  · exact (ArgList.one_sound ha _).bind fun _ _ _ hv => newUpdate_sound hv
  · exact .fail _

theorem ContextId.invoke_sound {c : ContextId} (hc : Known w c) (method : String) :
    Sound w (c.invoke method a) := by
  have changed {w' : Moment} (le : w.Le w') {f : Context → Except Error Context}
      (h : ∀ w'', w'.Le w'' → ∀ {x y : Context}, x.Known w'' → f x = .ok y → y.Known w'') :
      Sound w' (do c.update f; return Value.context c) :=
    (c.update_sound h).bind fun _ le' _ _ => .pure (a := Value.context c) ((le.trans le').address hc)
  unfold ContextId.invoke
  refine c.read_sound.bind fun w₁ le₁ x _ => ?_
  replace ha := Knowable.mono le₁ ha
  split
  · refine (ArgList.one_sound ha _).bind fun w₂ le₂ v hv => changed (le₁.trans le₂) fun _ le _ _ hx h => ?_
    exact Context.restrict_known hx (Value.Known.mono le hv) h
  · refine (ArgList.requireNone_sound ha).bind fun _ le₂ _ _ => ?_
    exact newSubquery_sound (.context c) ((le₁.trans le₂).address hc)
  · exact .guarded ((ArgList.one_sound ha _).bind fun _ _ v hv => c.addRoot_sound hv)
  · refine (ArgList.two_sound ha _ _).bind fun _ le₂ (key, v) hv => ?_
    refine (c.assign_sound key hv.2).bind fun _ le₃ _ _ => ?_
    exact .pure (a := Value.context c) (((le₁.trans le₂).trans le₃).address hc)
  · refine (ArgList.one_sound ha _).bind fun _ _ root hv => ?_
    refine (c.update_sound fun _ le _ _ hx h => ?_).bind fun _ le _ _ => .pure (Value.Known.mono le hv)
    exact Context.correlate_known hx (Value.Known.mono le hv) h
  · exact (ArgList.requireNone_sound ha).bind fun _ _ _ _ => c.scalar_sound
  · exact (ArgList.requireNone_sound ha).bind fun _ _ _ _ => c.existence_sound
  · refine .guarded ((ArgList.one_sound ha _).bind fun _ le₂ v hv => ?_)
    refine (itemsOf_sound hv).bind fun _ le₃ items hi => ?_
    refine changed ((le₁.trans le₂).trans le₃) fun _ le _ _ hx h => ?_
    exact Context.orderBy_known hx (Knowable.mono le hi) h
  · refine .guarded ?_
    split
    · refine (ArgList.bind_sound ha _).bind fun _ _ vs hv => ?_
      match vs with
      | [] | [none] | none :: _ :: _ | [some _] | [some _, none] | some _ :: none :: _ :: _
      | [some _, some _] | some _ :: some _ :: _ :: _ :: _ => exact .fail _
      | [some owner, some key, outer] =>
        exact c.join_sound (hv (some owner) (by simp) owner rfl) key
          (known_getD (hv outer (by simp)) (d := .bool false) trivial)
    · refine (ArgList.one_sound ha _).bind fun _ le₂ v hv => ?_
      refine (itemsOf_sound hv).bind fun _ le₃ items hi => ?_
      refine changed ((le₁.trans le₂).trans le₃) fun _ le _ _ hx h => ?_
      exact Context.groupBy_known hx (Knowable.mono le hi) h
    · refine (ArgList.one_sound ha _).bind fun _ le₂ v hv => changed (le₁.trans le₂) fun _ le _ _ hx h => ?_
      exact Context.having_known hx (Value.Known.mono le hv) h
    · refine (ArgList.bind_sound ha _).bind fun _ le₂ vs hv => ?_
      match vs with
      | [] | _ :: _ :: _ => exact .fail _
      | [v] =>
        refine changed (le₁.trans le₂) fun _ le _ _ hx h => Context.distinct_known hx ?_ h
        exact (known_getD (hv v (by simp)) (d := .bool true) trivial).mono le
    · refine (ArgList.one_sound ha _).bind fun _ le₂ v hv => changed (le₁.trans le₂) fun _ le _ _ hx h => ?_
      exact Context.select_known hx (Value.Known.mono le hv) h
    · exact .fail _

theorem QueryType.invoke_sound {t : QueryType} (ht : t.Known w) (method : String) :
    Sound w (t.invoke method a) := by
  unfold QueryType.invoke
  split
  · refine (ArgList.one_sound ha _).bind fun _ le₁ builder _ => .guarded ?_
    refine (Value.requireBuilder_sound builder).bind fun _ le₂ _ _ => ?_
    refine (createContext_sound (ht.mono (le₁.trans le₂))).bind fun _ _ c hc => ?_
    exact .pure (a := Value.context c) hc
  · refine (ArgList.two_sound ha _ _).bind fun _ _ (session, query) hv => ?_
    exact (t.createQuery_sound hv.1 hv.2).bind fun _ _ q hq => .pure (a := Value.query q) hq
  · refine (ArgList.two_sound ha _ _).bind fun _ _ (query, restriction) hv => ?_
    exact (restrict_sound hv.1 hv.2).bind fun _ _ _ _ => .pure (a := Value.null) trivial
  · exact (ArgList.two_sound ha _ _).bind fun _ _ (query, selection) hv => t.select_sound hv.1 hv.2
  · exact .fail _

theorem QueryId.invoke_sound (q : QueryId) (method : String) : Sound w (q.invoke method a) := by
  unfold QueryId.invoke
  split
  · exact (ArgList.requireNone_sound ha).bind fun _ _ _ _ => q.fetch_sound
  · exact (ArgList.requireNone_sound ha).bind fun _ _ _ _ => q.first_sound
  · exact (ArgList.requireNone_sound ha).bind fun _ _ _ _ => q.one_sound
  · exact (ArgList.requireNone_sound ha).bind fun _ _ _ _ => q.execute_sound
  · exact .fail _

theorem invokeQueryBuilder_sound {session : Value} (hs : session.Known w) (method : String) :
    Sound w (invokeQueryBuilder session method a) := by
  have entity (purpose : Purpose) (name : String) : Sound w (do
      return Value.stream (← Stream.ofEntity purpose session (← a.one name))) :=
    (ArgList.one_sound ha name).bind fun _ le _ hv =>
      givenStream_sound (Stream.ofEntity_sound purpose (hs.mono le) hv)
  unfold invokeQueryBuilder
  split
  · exact entity .search _
  · exact entity .delete _
  · exact entity .update _
  · exact (ArgList.one_sound ha _).bind fun _ le _ hv =>
      givenStream_sound (Stream.ofRoot_sound (hs.mono le) hv)
  · exact .fail _

omit ha in
theorem MappingId.merge_sound (i : MappingId) {given : List Value} (hg : Known w given)
    {keyword : List (String × Value)} (hk : Known w keyword) : Sound w (i.merge given keyword) := by
  have add {w' : Moment} {x : String × Value} (hx : Known w' x) :
      Sound w' (do register x.2; i.update [x]) :=
    (register_sound hx.2).bind fun _ le _ _ =>
      i.update_sound (List.forall_mem_singleton.mpr (Knowable.mono le hx))
  have rest {w' : Moment} (le : w.Le w') :
      Sound w' (keyword.forM fun x => do register x.2; i.update [x]) :=
    .forM (Knowable.mono le hk) fun _ _ x hx => add hx
  have listed {v : Value} (hv : v.Known w) : Sound w (do
      (← itemsOf v).forM fun item => do
        let x ← fieldOf item
        register x.2
        i.update [x]
      keyword.forM fun x => do register x.2; i.update [x]) := by
    refine (itemsOf_sound hv).bind fun _ le₁ items hi => .bind (.forM hi fun _ _ u hu => ?_) fun _ le₂ _ _ =>
      rest (le₁.trans le₂)
    exact (fieldOf_sound hu).bind fun _ _ x hx => add hx
  unfold merge
  match given with
  | [] => exact rest (.refl w)
  | [v] =>
    have hv := hg v (by simp)
    cases v with
    | mapping j =>
      refine j.read_sound.bind fun _ le₁ fields hf => .bind ?_ fun _ le₂ _ _ => rest (le₁.trans le₂)
      exact .forM hf fun _ _ x hx => add hx
    | _ => exact listed hv
  | v :: _ :: _ => cases v <;> exact .fail _

end Methods

section Streams

variable {call : Call}
  (hc : ∀ {w f args}, f.Known w → (∀ v ∈ args, v.Known w) → Sound w (call f args))
  {s : Stream} (hs : s.Known w) {a : ArgList} (ha : FluentQuery.Known w a)

include hc hs ha

theorem Stream.invokeSearch_sound (method : String) : Sound w (s.invokeSearch call method a) := by
  unfold Stream.invokeSearch
  split
  · exact (ArgList.requireNone_sound ha).bind fun _ le _ _ => givenStream_sound (distinct_sound (hs.mono le))
  · refine ArgList.withOptional_sound ha _ fun _ le v o hv ho => ?_
    exact givenStream_sound (orderBy_sound (hs.mono le) hv (known_getD ho (d := .bool true) trivial))
  · exact (ArgList.rest_sound ha).bind fun _ le _ hv =>
      givenStream_sound (orderByAttributes_sound (hs.mono le) hv)
  · exact (ArgList.one_sound ha _).bind fun _ le _ hv => givenStream_sound (orderByListed_sound (hs.mono le) hv)
  · exact (ArgList.one_sound ha _).bind fun _ le _ hv => givenStream_sound (groupBy_sound (hs.mono le) hv)
  · exact (ArgList.one_sound ha _).bind fun _ le _ hv => givenStream_sound (groupByListed_sound (hs.mono le) hv)
  · exact (ArgList.one_sound ha _).bind fun _ le _ hv => givenStream_sound (having_sound (hs.mono le) hv)
  · exact (ArgList.two_sound ha _ _).bind fun _ le _ hv =>
      givenStream_sound (addRoot_sound (hs.mono le) hv.1 hv.2)
  · refine ArgList.withOptional_sound ha _ fun _ le v o hv ho => ?_
    exact givenStream_sound (join_sound (hs.mono le) hv (known_getD ho (d := .bool false) trivial))
  · exact (ArgList.one_sound ha _).bind fun _ le _ hv => givenStream_sound (map_sound (hs.mono le) hv)
  · exact (ArgList.requireNone_sound ha).bind fun _ le _ _ => givenStream_sound (count_sound (hs.mono le))
  · exact (ArgList.requireNone_sound ha).bind fun _ le _ _ => asSubquery_sound (hs.mono le) hc
  · exact (ArgList.requireNone_sound ha).bind fun _ le _ _ => existence_sound (hs.mono le) hc
  · exact .fail _

theorem Stream.invoke_sound (method : String) : Sound w (s.invoke call method a) := by
  unfold Stream.invoke
  split
  · exact (ArgList.two_sound ha _ _).bind fun _ le _ hv =>
      configure_sound hc hv.1 hv.2 (hs.parts.configurer.mono le)
  · exact .fail _
  · exact (ArgList.requireNone_sound ha).bind fun _ le _ _ => toContext_sound (hs.mono le) hc
  · exact (ArgList.requireNone_sound ha).bind fun _ le _ _ => toQuery_sound (hs.mono le) hc
  · refine ArgList.withOptional_sound ha _ fun _ le v o hv ho => ?_
    exact givenStream_sound (bind_sound (hs.mono le) hv (known_getD ho (d := .null) trivial))
  · exact (ArgList.one_sound ha _).bind fun _ le _ hv => givenStream_sound (peek_sound (hs.mono le) hv)
  · exact (ArgList.one_sound ha _).bind fun _ le _ hv => givenStream_sound (filter_sound (hs.mono le) hv)
  · exact (ArgList.one_sound ha _).bind fun _ le v _ => givenStream_sound (limit_sound (hs.mono le) v)
  · exact (ArgList.one_sound ha _).bind fun _ le v _ => givenStream_sound (skip_sound (hs.mono le) v)
  · exact (ArgList.ownFields_sound ha).bind fun _ le _ hf => givenStream_sound (withParams_sound (hs.mono le) hf)
  · exact (ArgList.ownFields_sound ha).bind fun _ le _ hf => givenStream_sound (withOptions_sound (hs.mono le) hf)
  · exact invokeSearch_sound hc hs ha _
  · exact (ArgList.two_sound ha _ _).bind fun _ le _ hv =>
      givenStream_sound (assign_sound (hs.mono le) hv.1 hv.2)
  · exact .fail _

end Streams

/-! ### Constructors and functions -/

section Constructors

variable {a : ArgList} (ha : FluentQuery.Known w a)

include ha

theorem newStream_sound (kind : StreamKind) : Sound w (newStream kind a) := by
  refine (ArgList.bind_sound ha _).bind fun _ _ vs hv => ?_
  rcases vs with _ | ⟨_ | session, _ | ⟨_ | queryType, _ | ⟨_ | configurer, _ | ⟨first,
    _ | ⟨max, _ | ⟨params, _ | ⟨options, _ | _⟩⟩⟩⟩⟩⟩⟩
  all_goals try exact .fail _
  have hs := hv (some session) (by simp) session rfl
  have ht := hv (some queryType) (by simp) queryType rfl
  have hc := hv (some configurer) (by simp) configurer rfl
  have hp := known_getD (hv params (by simp)) (d := .null) trivial
  have ho := known_getD (hv options (by simp)) (d := .null) trivial
  exact givenStream_sound (Stream.new_sound kind _ _ hs ht hc hp ho)

theorem newQuery_sound (kind : QueryKind) : Sound w (newQuery kind a) := by
  refine (ArgList.bind_sound ha _).bind fun _ _ vs hv => ?_
  rcases vs with _ | ⟨_ | session, _ | ⟨_ | query, _ | ⟨params, _ | ⟨options, _ | _⟩⟩⟩⟩
  all_goals try exact .fail _
  have hs := hv (some session) (by simp) session rfl
  have hq := hv (some query) (by simp) query rfl
  have hp := known_getD (hv params (by simp)) (d := .null) trivial
  have ho := known_getD (hv options (by simp)) (d := .null) trivial
  exact (QueryId.ofParts_sound kind hs hq hp ho).bind fun _ _ q hq => .pure (a := Value.query q) hq

theorem newQueryType_sound (purpose : Purpose) : Sound w (newQueryType purpose a) :=
  (ArgList.one_sound ha _).bind fun _ _ _ hv => (QueryType.new_sound purpose hv).bind fun _ _ t ht =>
    .pure (a := Value.queryType t) ht

theorem construct_sound (className : String) : Sound w (construct className a) := by
  unfold construct
  split
  · exact (ArgList.requireNone_sound ha).bind fun _ _ _ _ => RefId.new_sound.bind fun _ _ r hr =>
      .pure (a := Value.ref r) hr
  · refine (ArgList.one_sound ha _).bind fun _ _ v hv => .guarded (fresh_sound.bind fun _ le id hid => ?_)
    exact .pure (a := Value.queryBuilder id v) ⟨hid, Value.Known.mono le hv⟩
  · exact (ArgList.requireNone_sound ha).bind fun _ _ _ _ => fresh_sound.bind fun _ _ id hid =>
      .pure (a := Value.criteriaBuilder id) hid
  · exact (ArgList.requireNone_sound ha).bind fun _ _ _ _ => newContext_sound (k := .common) trivial
  · exact (ArgList.requireNone_sound ha).bind fun _ _ _ _ =>
      newContext_sound (k := .abstract .empty) SelectBody.Known.empty
  · exact (ArgList.requireNone_sound ha).bind fun _ _ _ _ => newSearch_sound
  · exact (ArgList.one_sound ha _).bind fun _ _ v hv => .guarded (newSubquery_sound _ hv)
  · exact (ArgList.one_sound ha _).bind fun _ _ _ hv => newBulk_sound .delete (fun h => h) hv
  · exact (ArgList.one_sound ha _).bind fun _ _ _ hv => newUpdate_sound hv
  · exact newQueryType_sound ha .search
  · exact newQueryType_sound ha .delete
  · exact newQueryType_sound ha .update
  · exact newQuery_sound ha .base
  · exact newQuery_sound ha .typed
  · exact newQuery_sound ha .bulk
  · exact newStream_sound ha .base
  · exact newStream_sound ha .common
  · exact newStream_sound ha _
  · exact newStream_sound ha _
  · exact newStream_sound ha _
  · refine (ArgList.two_sound ha _ _).bind fun _ _ (builder, query) hv => .guarded (.guarded ?_)
    refine fresh_sound.bind fun _ le id hid => .pure (a := Value.frame ⟨id, builder, query⟩) ?_
    exact ⟨hid, Value.Known.mono le hv.1, Value.Known.mono le hv.2⟩
  · exact .fail _

theorem extendConfigurer_sound (what : String) (step : Value → Step)
    (known : ∀ {w : Moment} {v : Value}, v.Known w → (step v).Known w) :
    Sound w (extendConfigurer what step a) :=
  (ArgList.two_sound ha _ _).bind fun _ _ _ hv =>
    .guarded (.guarded (Configurer.extend_sound hv.1 (known hv.2)))

theorem resolve_sound : Sound w (resolve a) :=
  (ArgList.two_sound ha _ _).bind fun _ _ x hv => resolveAttribute_sound hv.1 x.2

end Constructors

theorem setProperty_sound (v : Value) (name : String) (x : Value) : Sound w (setProperty v name x) := by
  unfold setProperty
  split
  · exact QueryId.setBound_sound _ .skip x
  · exact QueryId.setBound_sound _ .limit x
  · exact .fail _

/-! ### Calls by name -/

section Calls

variable {call : Call}
  (hc : ∀ {w f args}, f.Known w → (∀ v ∈ args, v.Known w) → Sound w (call f args))
  {v : Value} (hv : v.Known w) {a : ArgList} (ha : FluentQuery.Known w a)

include hc hv ha

theorem invokeMethod_sound (method : String) : Sound w (invokeMethod call v method a) := by
  cases v with
  | ref r => exact r.invoke_sound ha method
  | criteriaBuilder id => exact invokeBuilder_sound ha method
  | context c => exact ContextId.invoke_sound ha hv method
  | stream s => exact Stream.invoke_sound hc hv ha method
  | queryType t => exact QueryType.invoke_sound ha hv method
  | query q => exact q.invoke_sound ha method
  | queryBuilder id session => exact invokeQueryBuilder_sound ha hv.2 method
  | mapping i =>
    unfold invokeMethod
    dsimp only
    split
    · exact (i.merge_sound ha.1 ha.2).bind fun _ _ _ _ => .pure (a := Value.null) trivial
    · exact .fail _
  | _ => exact .fail _

theorem invoke_sound (name : String) : Sound w (invoke call v name a) := by
  refine (Value.property?_sound hv name).bind fun _ le f hf => ?_
  replace ha := Knowable.mono le ha
  cases f with
  | none => exact invokeMethod_sound hc (hv.mono le) ha name
  | some f => exact (ArgList.rest_sound ha).bind fun _ le vs hvs => hc ((hf f rfl).mono le) hvs

end Calls

end FluentQuery
