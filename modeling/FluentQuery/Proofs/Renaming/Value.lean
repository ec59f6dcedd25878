import FluentQuery.Evaluation
import FluentQuery.Proofs.Renaming.Syntax

/-! What a renaming does to the values of a program, and which values stay within a footprint: those
that lead to no other variables and addresses. -/

namespace FluentQuery

open Sql

/-! ### Values -/

def RefId.rename (ρ : Renaming) (r : RefId) : RefId := ⟨ρ.address .refs r.index⟩

def ContextId.rename (ρ : Renaming) (c : ContextId) : ContextId := ⟨ρ.address .contexts c.index⟩

def QueryId.rename (ρ : Renaming) (q : QueryId) : QueryId := ⟨ρ.address .queries q.index⟩

def MappingId.rename (ρ : Renaming) (i : MappingId) : MappingId := ⟨ρ.address .mappings i.index⟩

def Session.rename (ρ : Renaming) (s : Session) : Session := ⟨ρ.number s.id, s.spec⟩

mutual

def Value.rename (ρ : Renaming) : Value → Value
  | .null => .null
  | .bool b => .bool b
  | .int id n => .int (ρ.number id) n
  | .float id x => .float (ρ.number id) x
  | .text id s => .text (ρ.number id) s
  | .list id items => .list (ρ.number id) (Value.renameAll ρ items)
  | .tuple id items => .tuple (ρ.number id) (Value.renameAll ρ items)
  | .row id items => .row (ρ.number id) (Value.renameAll ρ items)
  | .mapped m => .mapped (m.rename ρ)
  | .member a => .member (a.rename ρ)
  | .term id t => .term (ρ.number id) (t.rename ρ)
  | .statement id s => .statement (ρ.number id) (s.rename ρ)
  | .closure c => .closure (c.rename ρ)
  | .configurer c => .configurer (c.rename ρ)
  | .stream s => .stream (s.rename ρ)
  | .queryType t => .queryType (t.rename ρ)
  | .queryBuilder id session => .queryBuilder (ρ.number id) (session.rename ρ)
  | .criteriaBuilder id => .criteriaBuilder (ρ.number id)
  | .session s => .session (s.rename ρ)
  | .frame f => .frame (f.rename ρ)
  | .ref r => .ref (r.rename ρ)
  | .context c => .context (c.rename ρ)
  | .query q => .query (q.rename ρ)
  | .mapping i => .mapping (i.rename ρ)

def Value.renameAll (ρ : Renaming) : List Value → List Value
  | [] => []
  | v :: vs => v.rename ρ :: Value.renameAll ρ vs

def Value.renameFields (ρ : Renaming) : List (String × Value) → List (String × Value)
  | [] => []
  | (k, v) :: fields => (k, v.rename ρ) :: Value.renameFields ρ fields

def Closure.rename (ρ : Renaming) : Closure → Closure
  | .mk id params body scope => ⟨ρ.number id, params, body, Value.renameFields ρ scope⟩

def QueryType.rename (ρ : Renaming) : QueryType → QueryType
  | .mk id purpose entity => ⟨ρ.number id, purpose, entity.rename ρ⟩

def Frame.rename (ρ : Renaming) : Frame → Frame
  | .mk id builder query => ⟨ρ.number id, builder.rename ρ, query.rename ρ⟩

def Projection.rename (ρ : Renaming) : Projection → Projection
  | .whole => .whole
  | .named key => .named (key.rename ρ)
  | .function f => .function (f.rename ρ)
  | .held r => .held (r.rename ρ)

def Projection.renameKeys (ρ : Renaming) : List (Projection × Value) → List (Projection × Value)
  | [] => []
  | (p, v) :: keys => (p.rename ρ, v.rename ρ) :: Projection.renameKeys ρ keys

def Ordering.rename (ρ : Renaming) : Ordering → Ordering
  | .keys ks => .keys (Projection.renameKeys ρ ks)
  | .listed f => .listed (f.rename ρ)

def Grouping.rename (ρ : Renaming) : Grouping → Grouping
  | .key p => .key (p.rename ρ)
  | .listed f => .listed (f.rename ρ)

def Step.rename (ρ : Renaming) : Step → Step
  | .filter queryType p => .filter (queryType.rename ρ) (p.rename ρ)
  | .peek f => .peek (f.rename ρ)
  | .bind r p => .bind (r.rename ρ) (p.rename ρ)
  | .distinct => .distinct
  | .sort o => .sort (o.rename ρ)
  | .group g => .group (g.rename ρ)
  | .having p => .having (p.rename ρ)
  | .addRoot r entity => .addRoot (r.rename ρ) (entity.rename ρ)
  | .join key outer => .join (key.rename ρ) (outer.rename ρ)
  | .map p => .map (p.rename ρ)
  | .count => .count
  | .assign key value => .assign (key.rename ρ) (value.rename ρ)
  | .bounded b => .bounded b
  | .modify f => .modify (f.rename ρ)
  | .transform f => .transform (f.rename ρ)

def Step.renameAll (ρ : Renaming) : List Step → List Step
  | [] => []
  | step :: steps => step.rename ρ :: Step.renameAll ρ steps

def Origin.rename (ρ : Renaming) : Origin → Origin
  | .root entity => .root (entity.rename ρ)
  | .correlated root => .correlated (root.rename ρ)
  | .function f => .function (f.rename ρ)

def Configurer.rename (ρ : Renaming) : Configurer → Configurer
  | .mk id origin steps => ⟨ρ.number id, origin.rename ρ, Step.renameAll ρ steps⟩

def Stream.rename (ρ : Renaming) : Stream → Stream
  | .mk id kind session queryType configurer firstResult maxResults params options =>
    ⟨ρ.number id, kind, session.rename ρ, queryType.rename ρ, configurer.rename ρ, firstResult,
      maxResults, Value.renameFields ρ params, Value.renameFields ρ options⟩

end

attribute [simp] Value.rename Closure.rename QueryType.rename Frame.rename Projection.rename
  Ordering.rename Grouping.rename Step.rename Origin.rename Configurer.rename Stream.rename

variable {ρ : Renaming}

@[simp] theorem Value.renameAll_eq (vs : List Value) :
    Value.renameAll ρ vs = vs.map (Value.rename ρ) := by
  induction vs with
  | nil => rfl
  | cons v vs ih => rw [Value.renameAll, ih, List.map_cons]

/-- Values by name, renamed. -/
def Value.renameEntries (ρ : Renaming) (values : List (String × Value)) : List (String × Value) :=
  values.map fun x => (x.1, x.2.rename ρ)

@[simp] theorem Value.renameFields_eq (fields : List (String × Value)) :
    Value.renameFields ρ fields = Value.renameEntries ρ fields := by
  induction fields with
  | nil => rfl
  | cons x fields ih => exact congrArg (_ :: ·) ih

@[simp] theorem Projection.renameKeys_eq (keys : List (Projection × Value)) :
    Projection.renameKeys ρ keys = keys.map fun x => (x.1.rename ρ, x.2.rename ρ) := by
  induction keys with
  | nil => rfl
  | cons x keys ih => rw [Projection.renameKeys, ih, List.map_cons]

@[simp] theorem Step.renameAll_eq (steps : List Step) :
    Step.renameAll ρ steps = steps.map (Step.rename ρ) := by
  induction steps with
  | nil => rfl
  | cons step steps ih => rw [Step.renameAll, ih, List.map_cons]

/-! ### Parts of a renamed value -/

@[simp] theorem Closure.rename_params (c : Closure) : (c.rename ρ).params = c.params := by
  cases c; rfl

@[simp] theorem Closure.rename_body (c : Closure) : (c.rename ρ).body = c.body := by
  cases c; rfl

@[simp] theorem Closure.rename_scope (c : Closure) :
    (c.rename ρ).scope = Value.renameEntries ρ c.scope := by
  cases c; simp

@[simp] theorem QueryType.rename_purpose (t : QueryType) : (t.rename ρ).purpose = t.purpose := by
  cases t; rfl

@[simp] theorem QueryType.rename_entity (t : QueryType) :
    (t.rename ρ).entity = t.entity.rename ρ := by
  cases t; rfl

@[simp] theorem Frame.rename_builder (f : Frame) : (f.rename ρ).builder = f.builder.rename ρ := by
  cases f; rfl

@[simp] theorem Frame.rename_query (f : Frame) : (f.rename ρ).query = f.query.rename ρ := by
  cases f; rfl

@[simp] theorem Configurer.rename_origin (c : Configurer) :
    (c.rename ρ).origin = c.origin.rename ρ := by
  cases c; rfl

@[simp] theorem Configurer.rename_steps (c : Configurer) :
    (c.rename ρ).steps = c.steps.map (Step.rename ρ) := by
  cases c; simp

namespace Stream

variable (s : Stream)

@[simp] theorem rename_kind : (s.rename ρ).kind = s.kind := by cases s; rfl

@[simp] theorem rename_session : (s.rename ρ).session = s.session.rename ρ := by cases s; rfl

@[simp] theorem rename_queryType : (s.rename ρ).queryType = s.queryType.rename ρ := by cases s; rfl

@[simp] theorem rename_configurer : (s.rename ρ).configurer = s.configurer.rename ρ := by
  cases s; rfl

@[simp] theorem rename_firstResult : (s.rename ρ).firstResult = s.firstResult := by cases s; rfl

@[simp] theorem rename_maxResults : (s.rename ρ).maxResults = s.maxResults := by cases s; rfl

@[simp] theorem rename_params : (s.rename ρ).params = Value.renameEntries ρ s.params := by
  cases s; simp

@[simp] theorem rename_options : (s.rename ρ).options = Value.renameEntries ρ s.options := by
  cases s; simp

end Stream

end FluentQuery
