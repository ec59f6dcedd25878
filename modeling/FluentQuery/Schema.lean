/-!
The mapped schema: five entities, the tables behind them, their columns and
the relationships a query can follow.
-/

namespace FluentQuery

/-- The mapped classes a query can range over. -/
inductive Entity where
  | product | category | tag | review | employee
  deriving DecidableEq, Repr

/-- The tables of the database: one per entity, and the table that pairs
products with tags. -/
inductive Table where
  | products | categories | tags | reviews | employees | productTags
  deriving DecidableEq, Repr

inductive Column where
  | id | name | price | stock | active | categoryId | rating | productId | managerId | tagId
  deriving DecidableEq, Repr

inductive Relationship where
  | category | reviews | tags | products | product | manager | reports
  deriving DecidableEq, Repr

namespace Table

def name : Table → String
  | products => "products"
  | categories => "categories"
  | tags => "tags"
  | reviews => "reviews"
  | employees => "employees"
  | productTags => "product_tag_association"

def columns : Table → List Column
  | products => [.id, .name, .price, .stock, .active, .categoryId]
  | categories | tags => [.id, .name]
  | reviews => [.id, .rating, .productId]
  | employees => [.id, .name, .managerId]
  | productTags => [.productId, .tagId]

end Table

namespace Column

def key : Column → String
  | id => "id"
  | name => "name"
  | price => "price"
  | stock => "stock"
  | active => "active"
  | categoryId => "category_id"
  | rating => "rating"
  | productId => "product_id"
  | managerId => "manager_id"
  | tagId => "tag_id"

end Column

namespace Entity

def all : List Entity := [product, category, tag, review, employee]

def name : Entity → String
  | product => "Product"
  | category => "Category"
  | tag => "Tag"
  | review => "Review"
  | employee => "Employee"

def ofName? (s : String) : Option Entity := all.find? (·.name == s)

def table : Entity → Table
  | product => .products
  | category => .categories
  | tag => .tags
  | review => .reviews
  | employee => .employees

/-- The columns of an entity, in the order of its table. -/
def columns (e : Entity) : List Column := e.table.columns

def relationships : Entity → List Relationship
  | product => [.category, .reviews, .tags]
  | category => [.products]
  | tag => []
  | review => [.product]
  | employee => [.manager, .reports]

end Entity

/-- How the two sides of a relationship are matched. -/
inductive Link where
  /-- `target.id = source.column`. -/
  | toOne (column : Column)
  /-- `source.id = target.column`. -/
  | toMany (column : Column)
  /-- `source.id = pair.left` and `target.id = pair.right` over a pairing table. -/
  | through (pairing : Table) (left right : Column)
  deriving DecidableEq, Repr

namespace Relationship

def key : Relationship → String
  | category => "category"
  | reviews => "reviews"
  | tags => "tags"
  | products => "products"
  | product => "product"
  | manager => "manager"
  | reports => "reports"

def target : Relationship → Entity
  | category => .category
  | reviews => .review
  | tags => .tag
  | products => .product
  | product => .product
  | manager => .employee
  | reports => .employee

def link : Relationship → Link
  | category => .toOne .categoryId
  | reviews => .toMany .productId
  | tags => .through .productTags .productId .tagId
  | products => .toMany .categoryId
  | product => .toOne .productId
  | manager => .toOne .managerId
  | reports => .toMany .managerId

end Relationship

/-- What an entity maps under one name: a column or a relationship. -/
inductive Member where
  | column (c : Column)
  | relationship (r : Relationship)
  deriving DecidableEq, Repr

namespace Member

def key : Member → String
  | column c => c.key
  | relationship r => r.key

end Member

namespace Entity

def members (e : Entity) : List Member :=
  e.columns.map .column ++ e.relationships.map .relationship

def member? (e : Entity) (key : String) : Option Member :=
  e.members.find? (·.key == key)

end Entity

/-- An entity itself, or an alias of it told apart by a number. -/
structure Mapped where
  entity : Entity
  alias? : Option Nat
  deriving DecidableEq, Repr

/-- What an alias of a table was made for. -/
inductive Alias where
  /-- For an alias of an entity, by its number. -/
  | numbered (n : Nat)
  /-- For the relationship of one owner as a condition: the pairing table of the entity itself or
  of an alias. -/
  | paired (owner : Option Nat)
  /-- For a join through a pairing table, by the number of the join in its statement. -/
  | joined (n : Nat)
  deriving DecidableEq, Repr

/-- A table, or an alias of it: what a column is read from. -/
structure Source where
  table : Table
  alias? : Option Alias
  deriving DecidableEq, Repr

def Mapped.source (m : Mapped) : Source := ⟨m.entity.table, m.alias?.map .numbered⟩

/-- A table as itself. -/
def Table.source (t : Table) : Source := ⟨t, none⟩

/-- A mapped attribute as read from an entity or from an alias. -/
structure Attribute where
  owner : Mapped
  member : Member
  deriving DecidableEq, Repr

def Attribute.key (a : Attribute) : String := a.member.key

def Mapped.attribute? (m : Mapped) (key : String) : Option Attribute :=
  (m.entity.member? key).map (⟨m, ·⟩)

end FluentQuery
