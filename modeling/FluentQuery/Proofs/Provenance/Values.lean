import FluentQuery.Proofs.Renaming.Library

/-! Where values come from. By any moment of a run some numbers and addresses have been given away,
and some streams have been made; a value is known by then if it leads to nothing else. -/

namespace FluentQuery

open Sql

/-! ### Numbers and addresses -/

/-- How many numbers and addresses have been given away. -/
@[ext] structure Extent where
  next : Nat
  length : Space → Nat

def Machine.extent (m : Machine) : Extent where
  next := m.next
  length
    | .refs => m.refs.length
    | .contexts => m.contexts.length
    | .queries => m.queries.length
    | .mappings => m.mappings.length

/-- More has been given away. -/
structure Extent.Le (e e' : Extent) : Prop where
  next : e.next ≤ e'.next
  length : ∀ space, e.length space ≤ e'.length space

theorem Extent.Le.refl (e : Extent) : e.Le e := ⟨Nat.le_refl _, fun _ => Nat.le_refl _⟩

theorem Extent.Le.trans {a b c : Extent} (hab : a.Le b) (hbc : b.Le c) : a.Le c :=
  ⟨Nat.le_trans hab.next hbc.next, fun s => Nat.le_trans (hab.length s) (hbc.length s)⟩

/-- What was given away before keeps its numbers and addresses. -/
structure Renaming.Fixes (ρ : Renaming) (e : Extent) : Prop where
  number : ∀ n < e.next, ρ.number n = n
  address : ∀ space, ∀ i < e.length space, ρ.address space i = i

theorem Renaming.Fixes.mono {ρ : Renaming} {e e' : Extent} (h : ρ.Fixes e') (le : e.Le e') :
    ρ.Fixes e :=
  ⟨fun n hn => h.number n (Nat.lt_of_lt_of_le hn le.next),
    fun s i hi => h.address s i (Nat.lt_of_lt_of_le hi (le.length s))⟩

/-- Nothing in it has a number or an address that had not been given away by then. -/
def Made (e : Extent) {α : Type} [Renamable α] (a : α) : Prop :=
  ∀ ρ : Renaming, ρ.Fixes e → rename ρ a = a

theorem Made.mono {e e' : Extent} (le : e.Le e') {α : Type} [Renamable α] {a : α}
    (h : Made e a) : Made e' a :=
  fun ρ hρ => h ρ (hρ.mono le)

namespace Made

variable {e : Extent} {α β γ : Type} [Renamable α] [Renamable β] [Renamable γ]

/-- What a function that commutes with renamings makes of something. -/
theorem map {f : α → β} (hf : ∀ ρ a, f (rename ρ a) = rename ρ (f a)) {a : α} (ha : Made e a) :
    Made e (f a) := by
  intro ρ hρ
  rw [← hf, ha ρ hρ]

theorem map₂ {f : α → β → γ} (hf : ∀ ρ a b, f (rename ρ a) (rename ρ b) = rename ρ (f a b))
    {a : α} {b : β} (ha : Made e a) (hb : Made e b) : Made e (f a b) := by
  intro ρ hρ
  rw [← hf, ha ρ hρ, hb ρ hρ]

theorem ok {a : α} (h : Made e (Except.ok a : Except Error α)) : Made e a :=
  fun ρ hρ => Except.ok.inj (h ρ hρ)

theorem some {a : α} (h : Made e (some a)) : Made e a :=
  fun ρ hρ => Option.some.inj (h ρ hρ)

end Made

/-! ### Streams -/

/-- A moment of a run: what has been given away, and the streams made so far by their numbers. -/
structure Moment where
  extent : Extent
  stream? : Nat → Option Stream

/-- A later moment: the streams made before are still the same. -/
structure Moment.Le (w w' : Moment) : Prop where
  extent : w.extent.Le w'.extent
  stream? : ∀ n < w.extent.next, w'.stream? n = w.stream? n

namespace Moment.Le

theorem refl (w : Moment) : w.Le w := ⟨.refl _, fun _ _ => rfl⟩

theorem trans {a b c : Moment} (hab : a.Le b) (hbc : b.Le c) : a.Le c where
  extent := hab.extent.trans hbc.extent
  stream? n hn := by
    rw [hbc.stream? n (Nat.lt_of_lt_of_le hn hab.extent.next), hab.stream? n hn]

end Moment.Le

/-! ### Known values -/

instance : Renamable Attribute := ⟨Attribute.rename, fun _ _ => True⟩

/-- The number has been given away. -/
def Moment.Given (w : Moment) (n : Nat) : Prop := n < w.extent.next

mutual

/-- The value leads to numbers, addresses and streams of before alone. -/
def Value.Known (w : Moment) : Value → Prop
  | .null | .bool _ => True
  | .int id _ | .float id _ | .text id _ | .criteriaBuilder id => w.Given id
  | .list id items | .tuple id items | .row id items => w.Given id ∧ Value.AllKnown w items
  | .mapped m => Made w.extent m
  | .member a => Made w.extent a
  | .term id t => w.Given id ∧ Made w.extent t
  | .statement id s => w.Given id ∧ Made w.extent s
  | .closure c => c.Known w
  | .configurer c => c.Known w
  | .stream s => s.Known w
  | .queryType t => t.Known w
  | .queryBuilder id session => w.Given id ∧ session.Known w
  | .session s => w.Given s.id
  | .frame f => f.Known w
  | .ref r => r.index < w.extent.length .refs
  | .context c => c.index < w.extent.length .contexts
  | .query q => q.index < w.extent.length .queries
  | .mapping i => i.index < w.extent.length .mappings

def Value.AllKnown (w : Moment) : List Value → Prop
  | [] => True
  | v :: vs => v.Known w ∧ Value.AllKnown w vs

def Value.FieldsKnown (w : Moment) : List (String × Value) → Prop
  | [] => True
  | (_, v) :: fields => v.Known w ∧ Value.FieldsKnown w fields

def Closure.Known (w : Moment) : Closure → Prop
  | .mk id _ _ scope => w.Given id ∧ Value.FieldsKnown w scope

def QueryType.Known (w : Moment) : QueryType → Prop
  | .mk id _ entity => w.Given id ∧ entity.Known w

def Frame.Known (w : Moment) : Frame → Prop
  | .mk id builder query => w.Given id ∧ builder.Known w ∧ query.Known w

def Projection.Known (w : Moment) : Projection → Prop
  | .whole => True
  | .named key => key.Known w
  | .function f => f.Known w
  | .held r => r.index < w.extent.length .refs

def Projection.KeysKnown (w : Moment) : List (Projection × Value) → Prop
  | [] => True
  | (p, v) :: keys => (p.Known w ∧ v.Known w) ∧ Projection.KeysKnown w keys

def Ordering.Known (w : Moment) : Ordering → Prop
  | .keys ks => Projection.KeysKnown w ks
  | .listed f => f.Known w

def Grouping.Known (w : Moment) : Grouping → Prop
  | .key p => p.Known w
  | .listed f => f.Known w

def Step.Known (w : Moment) : Step → Prop
  | .filter queryType p => queryType.Known w ∧ p.Known w
  | .peek f | .modify f | .transform f => f.Known w
  | .bind r p => r.index < w.extent.length .refs ∧ p.Known w
  | .distinct | .count | .bounded _ => True
  | .sort o => o.Known w
  | .group g => g.Known w
  | .having p | .map p => p.Known w
  | .addRoot r entity => r.index < w.extent.length .refs ∧ entity.Known w
  | .join key outer => key.Known w ∧ outer.Known w
  | .assign key value => key.Known w ∧ value.Known w

def Step.AllKnown (w : Moment) : List Step → Prop
  | [] => True
  | step :: steps => step.Known w ∧ Step.AllKnown w steps

def Origin.Known (w : Moment) : Origin → Prop
  | .root v | .correlated v | .function v => v.Known w

def Configurer.Known (w : Moment) : Configurer → Prop
  | .mk id origin steps => w.Given id ∧ origin.Known w ∧ Step.AllKnown w steps

/-- A stream is known as the one that was made with its number. -/
def Stream.Known (w : Moment) : Stream → Prop
  | .mk id kind session queryType configurer firstResult maxResults params options =>
    (w.Given id ∧ w.stream? id =
      some ⟨id, kind, session, queryType, configurer, firstResult, maxResults, params, options⟩) ∧
    session.Known w ∧ queryType.Known w ∧ configurer.Known w ∧ Value.FieldsKnown w params ∧
      Value.FieldsKnown w options

end

variable {w w' : Moment}

@[simp] theorem Value.allKnown_iff {vs : List Value} :
    Value.AllKnown w vs ↔ ∀ v ∈ vs, v.Known w := by
  induction vs with
  | nil => simp [Value.AllKnown]
  | cons v vs ih => simp [Value.AllKnown, ih]

@[simp] theorem Value.fieldsKnown_iff {fields : List (String × Value)} :
    Value.FieldsKnown w fields ↔ ∀ x ∈ fields, x.2.Known w := by
  induction fields with
  | nil => simp [Value.FieldsKnown]
  | cons x fields ih => simp [Value.FieldsKnown, ih]

@[simp] theorem Projection.keysKnown_iff {keys : List (Projection × Value)} :
    Projection.KeysKnown w keys ↔ ∀ x ∈ keys, x.1.Known w ∧ x.2.Known w := by
  induction keys with
  | nil => simp [Projection.KeysKnown]
  | cons x keys ih => simp [Projection.KeysKnown, ih]

@[simp] theorem Step.allKnown_iff {steps : List Step} :
    Step.AllKnown w steps ↔ ∀ step ∈ steps, step.Known w := by
  induction steps with
  | nil => simp [Step.AllKnown]
  | cons step steps ih => simp [Step.AllKnown, ih]

/-! ### What is known stays known -/

theorem Moment.Le.given (le : w.Le w') {n : Nat} (h : w.Given n) : w'.Given n :=
  Nat.lt_of_lt_of_le h le.extent.next

theorem Moment.Le.address (le : w.Le w') {space : Space} {i : Nat}
    (h : i < w.extent.length space) : i < w'.extent.length space :=
  Nat.lt_of_lt_of_le h (le.extent.length space)

mutual

theorem Value.Known.mono (le : w.Le w') : ∀ {v : Value}, v.Known w → v.Known w'
  | .null, _ | .bool _, _ => trivial
  | .int .., h | .float .., h | .text .., h | .criteriaBuilder _, h | .session _, h => le.given h
  | .list _ _, h | .tuple _ _, h | .row _ _, h => ⟨le.given h.1, Value.AllKnown.mono le h.2⟩
  | .mapped _, h => Made.mono le.extent h
  | .member _, h => Made.mono le.extent h
  | .term .., h => ⟨le.given h.1, h.2.mono le.extent⟩
  | .statement .., h => ⟨le.given h.1, h.2.mono le.extent⟩
  | .closure c, h => Closure.Known.mono le (c := c) h
  | .configurer c, h => Configurer.Known.mono le (c := c) h
  | .stream s, h => Stream.Known.mono le (s := s) h
  | .queryType t, h => QueryType.Known.mono le (t := t) h
  | .queryBuilder _ _, h => ⟨le.given h.1, Value.Known.mono le h.2⟩
  | .frame f, h => Frame.Known.mono le (f := f) h
  | .ref _, h | .context _, h | .query _, h | .mapping _, h => le.address h

theorem Value.AllKnown.mono (le : w.Le w') : ∀ {vs : List Value}, Value.AllKnown w vs → Value.AllKnown w' vs
  | [], _ => trivial
  | _ :: _, h => ⟨Value.Known.mono le h.1, Value.AllKnown.mono le h.2⟩

theorem Value.FieldsKnown.mono (le : w.Le w') :
    ∀ {fields : List (String × Value)}, Value.FieldsKnown w fields → Value.FieldsKnown w' fields
  | [], _ => trivial
  | (_, _) :: _, h => ⟨Value.Known.mono le h.1, Value.FieldsKnown.mono le h.2⟩

theorem Closure.Known.mono (le : w.Le w') : ∀ {c : Closure}, c.Known w → c.Known w'
  | .mk .., h => ⟨le.given h.1, Value.FieldsKnown.mono le h.2⟩

theorem QueryType.Known.mono (le : w.Le w') : ∀ {t : QueryType}, t.Known w → t.Known w'
  | .mk .., h => ⟨le.given h.1, Value.Known.mono le h.2⟩

theorem Frame.Known.mono (le : w.Le w') : ∀ {f : Frame}, f.Known w → f.Known w'
  | .mk .., h => ⟨le.given h.1, Value.Known.mono le h.2.1, Value.Known.mono le h.2.2⟩

theorem Projection.Known.mono (le : w.Le w') : ∀ {p : Projection}, p.Known w → p.Known w'
  | .whole, _ => trivial
  | .named key, h => Value.Known.mono le (v := key) h
  | .function f, h => Value.Known.mono le (v := f) h
  | .held _, h => le.address h

theorem Projection.KeysKnown.mono (le : w.Le w') :
    ∀ {keys : List (Projection × Value)}, Projection.KeysKnown w keys → Projection.KeysKnown w' keys
  | [], _ => trivial
  | (_, _) :: _, h =>
    ⟨⟨Projection.Known.mono le h.1.1, Value.Known.mono le h.1.2⟩, Projection.KeysKnown.mono le h.2⟩

theorem Ordering.Known.mono (le : w.Le w') : ∀ {o : Ordering}, o.Known w → o.Known w'
  | .keys _, h => (Projection.KeysKnown.mono le h :)
  | .listed f, h => Value.Known.mono le (v := f) h

theorem Grouping.Known.mono (le : w.Le w') : ∀ {g : Grouping}, g.Known w → g.Known w'
  | .key p, h => Projection.Known.mono le (p := p) h
  | .listed f, h => Value.Known.mono le (v := f) h

theorem Step.Known.mono (le : w.Le w') : ∀ {step : Step}, step.Known w → step.Known w'
  | .filter _ _, h => ⟨Value.Known.mono le h.1, Projection.Known.mono le h.2⟩
  | .peek f, h | .modify f, h | .transform f, h => Value.Known.mono le (v := f) h
  | .bind _ _, h => ⟨le.address h.1, Projection.Known.mono le h.2⟩
  | .distinct, _ | .count, _ | .bounded _, _ => trivial
  | .sort o, h => Ordering.Known.mono le (o := o) h
  | .group g, h => Grouping.Known.mono le (g := g) h
  | .having p, h | .map p, h => Projection.Known.mono le (p := p) h
  | .addRoot _ _, h => ⟨le.address h.1, Value.Known.mono le h.2⟩
  | .join _ _, h | .assign _ _, h => ⟨Value.Known.mono le h.1, Value.Known.mono le h.2⟩

theorem Step.AllKnown.mono (le : w.Le w') : ∀ {steps : List Step}, Step.AllKnown w steps → Step.AllKnown w' steps
  | [], _ => trivial
  | _ :: _, h => ⟨Step.Known.mono le h.1, Step.AllKnown.mono le h.2⟩

theorem Origin.Known.mono (le : w.Le w') : ∀ {o : Origin}, o.Known w → o.Known w'
  | .root v, h | .correlated v, h | .function v, h => Value.Known.mono le (v := v) h

theorem Configurer.Known.mono (le : w.Le w') : ∀ {c : Configurer}, c.Known w → c.Known w'
  | .mk .., h => ⟨le.given h.1, Origin.Known.mono le h.2.1, Step.AllKnown.mono le h.2.2⟩

theorem Stream.Known.mono (le : w.Le w') : ∀ {s : Stream}, s.Known w → s.Known w'
  | .mk .., ⟨⟨given, made⟩, session, type, configurer, params, options⟩ =>
    ⟨⟨le.given given, by rw [le.stream? _ given, made]⟩, Value.Known.mono le session,
      Value.Known.mono le type, Value.Known.mono le configurer, Value.FieldsKnown.mono le params,
      Value.FieldsKnown.mono le options⟩

end

/-! ### What is known is fixed -/

section Fixed

variable {ρ : Renaming}

mutual

theorem Value.Known.fixed (hρ : ρ.Fixes w.extent) : ∀ {v : Value}, v.Known w → v.rename ρ = v
  | .null, _ | .bool _, _ => rfl
  | .int _ n, h => congrArg (Value.int · n) (hρ.number _ h)
  | .float _ x, h => congrArg (Value.float · x) (hρ.number _ h)
  | .text _ s, h => congrArg (Value.text · s) (hρ.number _ h)
  | .criteriaBuilder _, h => congrArg Value.criteriaBuilder (hρ.number _ h)
  | .session s, h => congrArg (Value.session ⟨·, s.spec⟩) (hρ.number _ h)
  | .list .., h => congrArg₂ Value.list (hρ.number _ h.1) (Value.AllKnown.fixed hρ h.2)
  | .tuple .., h => congrArg₂ Value.tuple (hρ.number _ h.1) (Value.AllKnown.fixed hρ h.2)
  | .row .., h => congrArg₂ Value.row (hρ.number _ h.1) (Value.AllKnown.fixed hρ h.2)
  | .mapped _, h => congrArg Value.mapped (h ρ hρ)
  | .member _, h => congrArg Value.member (h ρ hρ)
  | .term .., h => congrArg₂ Value.term (hρ.number _ h.1) (h.2 ρ hρ)
  | .statement .., h => congrArg₂ Value.statement (hρ.number _ h.1) (h.2 ρ hρ)
  | .closure c, h => congrArg Value.closure (Closure.Known.fixed hρ (c := c) h)
  | .configurer c, h => congrArg Value.configurer (Configurer.Known.fixed hρ (c := c) h)
  | .stream s, h => congrArg Value.stream (Stream.Known.fixed hρ (s := s) h)
  | .queryType t, h => congrArg Value.queryType (QueryType.Known.fixed hρ (t := t) h)
  | .queryBuilder .., h =>
    congrArg₂ Value.queryBuilder (hρ.number _ h.1) (Value.Known.fixed hρ h.2)
  | .frame f, h => congrArg Value.frame (Frame.Known.fixed hρ (f := f) h)
  | .ref _, h => congrArg (Value.ref ⟨·⟩) (hρ.address _ _ h)
  | .context _, h => congrArg (Value.context ⟨·⟩) (hρ.address _ _ h)
  | .query _, h => congrArg (Value.query ⟨·⟩) (hρ.address _ _ h)
  | .mapping _, h => congrArg (Value.mapping ⟨·⟩) (hρ.address _ _ h)

theorem Value.AllKnown.fixed (hρ : ρ.Fixes w.extent) :
    ∀ {vs : List Value}, Value.AllKnown w vs → Value.renameAll ρ vs = vs
  | [], _ => rfl
  | _ :: _, h => congrArg₂ List.cons (Value.Known.fixed hρ h.1) (Value.AllKnown.fixed hρ h.2)

theorem Value.FieldsKnown.fixed (hρ : ρ.Fixes w.extent) :
    ∀ {fields : List (String × Value)}, Value.FieldsKnown w fields →
      Value.renameFields ρ fields = fields
  | [], _ => rfl
  | (k, _) :: _, h =>
    congrArg₂ (fun v fields => (k, v) :: fields) (Value.Known.fixed hρ h.1)
      (Value.FieldsKnown.fixed hρ h.2)

theorem Closure.Known.fixed (hρ : ρ.Fixes w.extent) : ∀ {c : Closure}, c.Known w → c.rename ρ = c
  | .mk _ params body _, h =>
    congrArg₂ (Closure.mk · params body ·) (hρ.number _ h.1) (Value.FieldsKnown.fixed hρ h.2)

theorem QueryType.Known.fixed (hρ : ρ.Fixes w.extent) :
    ∀ {t : QueryType}, t.Known w → t.rename ρ = t
  | .mk _ purpose _, h =>
    congrArg₂ (QueryType.mk · purpose ·) (hρ.number _ h.1) (Value.Known.fixed hρ h.2)

theorem Frame.Known.fixed (hρ : ρ.Fixes w.extent) : ∀ {f : Frame}, f.Known w → f.rename ρ = f
  | .mk .., h => by
    rw [Frame.rename, hρ.number _ h.1, Value.Known.fixed hρ h.2.1, Value.Known.fixed hρ h.2.2]

theorem Projection.Known.fixed (hρ : ρ.Fixes w.extent) :
    ∀ {p : Projection}, p.Known w → p.rename ρ = p
  | .whole, _ => rfl
  | .named key, h => congrArg Projection.named (Value.Known.fixed hρ (v := key) h)
  | .function f, h => congrArg Projection.function (Value.Known.fixed hρ (v := f) h)
  | .held _, h => congrArg (Projection.held ⟨·⟩) (hρ.address _ _ h)

theorem Projection.KeysKnown.fixed (hρ : ρ.Fixes w.extent) :
    ∀ {keys : List (Projection × Value)}, Projection.KeysKnown w keys →
      Projection.renameKeys ρ keys = keys
  | [], _ => rfl
  | (_, _) :: _, h => by
    rw [Projection.renameKeys, Projection.Known.fixed hρ h.1.1, Value.Known.fixed hρ h.1.2,
      Projection.KeysKnown.fixed hρ h.2]

theorem Ordering.Known.fixed (hρ : ρ.Fixes w.extent) :
    ∀ {o : Ordering}, o.Known w → o.rename ρ = o
  | .keys _, h => congrArg Ordering.keys (Projection.KeysKnown.fixed hρ h)
  | .listed f, h => congrArg Ordering.listed (Value.Known.fixed hρ (v := f) h)

theorem Grouping.Known.fixed (hρ : ρ.Fixes w.extent) :
    ∀ {g : Grouping}, g.Known w → g.rename ρ = g
  | .key p, h => congrArg Grouping.key (Projection.Known.fixed hρ (p := p) h)
  | .listed f, h => congrArg Grouping.listed (Value.Known.fixed hρ (v := f) h)

theorem Step.Known.fixed (hρ : ρ.Fixes w.extent) :
    ∀ {step : Step}, step.Known w → step.rename ρ = step
  | .filter .., h => congrArg₂ Step.filter (Value.Known.fixed hρ h.1) (Projection.Known.fixed hρ h.2)
  | .peek f, h => congrArg Step.peek (Value.Known.fixed hρ (v := f) h)
  | .modify f, h => congrArg Step.modify (Value.Known.fixed hρ (v := f) h)
  | .transform f, h => congrArg Step.transform (Value.Known.fixed hρ (v := f) h)
  | .bind .., h =>
    congrArg₂ (Step.bind ⟨·⟩ ·) (hρ.address _ _ h.1) (Projection.Known.fixed hρ h.2)
  | .distinct, _ | .count, _ | .bounded _, _ => rfl
  | .sort o, h => congrArg Step.sort (Ordering.Known.fixed hρ (o := o) h)
  | .group g, h => congrArg Step.group (Grouping.Known.fixed hρ (g := g) h)
  | .having p, h => congrArg Step.having (Projection.Known.fixed hρ (p := p) h)
  | .map p, h => congrArg Step.map (Projection.Known.fixed hρ (p := p) h)
  | .addRoot .., h =>
    congrArg₂ (Step.addRoot ⟨·⟩ ·) (hρ.address _ _ h.1) (Value.Known.fixed hρ h.2)
  | .join .., h => congrArg₂ Step.join (Value.Known.fixed hρ h.1) (Value.Known.fixed hρ h.2)
  | .assign .., h => congrArg₂ Step.assign (Value.Known.fixed hρ h.1) (Value.Known.fixed hρ h.2)

theorem Step.AllKnown.fixed (hρ : ρ.Fixes w.extent) :
    ∀ {steps : List Step}, Step.AllKnown w steps → Step.renameAll ρ steps = steps
  | [], _ => rfl
  | _ :: _, h => congrArg₂ List.cons (Step.Known.fixed hρ h.1) (Step.AllKnown.fixed hρ h.2)

theorem Origin.Known.fixed (hρ : ρ.Fixes w.extent) : ∀ {o : Origin}, o.Known w → o.rename ρ = o
  | .root v, h => congrArg Origin.root (Value.Known.fixed hρ (v := v) h)
  | .correlated v, h => congrArg Origin.correlated (Value.Known.fixed hρ (v := v) h)
  | .function v, h => congrArg Origin.function (Value.Known.fixed hρ (v := v) h)

theorem Configurer.Known.fixed (hρ : ρ.Fixes w.extent) :
    ∀ {c : Configurer}, c.Known w → c.rename ρ = c
  | .mk .., h => by
    rw [Configurer.rename, hρ.number _ h.1, Origin.Known.fixed hρ h.2.1,
      Step.AllKnown.fixed hρ h.2.2]

theorem Stream.Known.fixed (hρ : ρ.Fixes w.extent) : ∀ {s : Stream}, s.Known w → s.rename ρ = s
  | .mk .., ⟨⟨given, _⟩, session, type, configurer, params, options⟩ => by
    rw [Stream.rename, hρ.number _ given, Value.Known.fixed hρ session, Value.Known.fixed hρ type,
      Value.Known.fixed hρ configurer, Value.FieldsKnown.fixed hρ params,
      Value.FieldsKnown.fixed hρ options]

end

end Fixed

theorem Value.Known.made {v : Value} (h : v.Known w) : Made w.extent v := fun _ hρ => h.fixed hρ

end FluentQuery
