import ApiLinker.Json.Value

/-!
Schemas: the nodes of the embedded schema language.

`SchemaBody` is one node over sub-schemas of any type, so that a step of a recursion over schemas
is a function on bodies.  A `Schema` is a tree of bodies.  Every node has a number, and two nodes
are the same object when their numbers agree; equality of contents is `Schema.same`.
-/

namespace ApiLinker

/-- What a schema says about properties it does not list. -/
inductive Additional (σ : Type) where
  | unspecified
  | allowed (value : Bool)
  | schema (value : σ)
deriving Repr

def Additional.schema? : Additional σ → Option σ
  | .schema value => some value
  | .unspecified | .allowed _ => none

structure SchemaBody (σ : Type) where
  reference : Option String := none
  items : Option σ := none
  allOf : List σ := []
  anyOf : List σ := []
  oneOf : List σ := []
  not : Option σ := none
  properties : List (String × σ) := []
  additional : Additional σ := .unspecified
  /-- All other members, kept as they are. -/
  keywords : Table Json := []
deriving Repr

inductive Schema where
  | node (id : Nat) (body : SchemaBody Schema)
deriving Repr

inductive Slot where
  | items
  | not
  | additionalProperties
  | allOf (index : Nat)
  | anyOf (index : Nat)
  | oneOf (index : Nat)
  | property (name : String)
deriving DecidableEq, Repr

/-- The segments that lead from a schema to the sub-schema in a slot. -/
def Slot.segments : Slot → List String
  | .items => ["items"]
  | .not => ["not"]
  | .additionalProperties => ["additionalProperties"]
  | .allOf index => ["allOf", toString index]
  | .anyOf index => ["anyOf", toString index]
  | .oneOf index => ["oneOf", toString index]
  | .property name => ["properties", name]

/-- The sub-schemas of a node, apart from the node. -/
structure Subschemas (σ : Type) where
  items : Option σ := none
  allOf : List σ := []
  anyOf : List σ := []
  oneOf : List σ := []
  not : Option σ := none
  properties : Table σ := []
  additional : Option σ := none
deriving Repr

namespace Subschemas

def numbered (slot : Nat → Slot) (list : List σ) : List (Slot × σ) :=
  list.zipIdx.map fun (child, index) => (slot index, child)

/-- The sub-schemas with their slots, in the order in which they are visited. -/
def visits (children : Subschemas σ) : List (Slot × σ) :=
  children.items.toList.map (.items, ·) ++
    children.not.toList.map (.not, ·) ++
    children.additional.toList.map (.additionalProperties, ·) ++
    numbered .allOf children.allOf ++
    numbered .anyOf children.anyOf ++
    numbered .oneOf children.oneOf ++
    children.properties.map fun (name, child) => (.property name, child)

section

variable {m : Type → Type} [Monad m]

def mapOption (visit : σ → m τ) : Option σ → m (Option τ)
  | none => pure none
  | some child => some <$> visit child

def mapNumbered (visit : Nat → σ → m τ) : (start : Nat) → List σ → m (List τ)
  | _, [] => pure []
  | index, child :: rest => do
      let first ← visit index child
      return first :: (← mapNumbered visit (index + 1) rest)

def mapNamed (visit : String → σ → m τ) : Table σ → m (Table τ)
  | [] => pure []
  | (name, child) :: rest => do
      let first ← visit name child
      return (name, first) :: (← mapNamed visit rest)

/-- Replaces every sub-schema, in the order in which they are visited. -/
def mapVisits (visit : Slot → σ → m τ) (children : Subschemas σ) : m (Subschemas τ) := do
  let items ← mapOption (visit .items) children.items
  let not ← mapOption (visit .not) children.not
  let additional ← mapOption (visit .additionalProperties) children.additional
  let allOf ← mapNumbered (fun index => visit (.allOf index)) 0 children.allOf
  let anyOf ← mapNumbered (fun index => visit (.anyOf index)) 0 children.anyOf
  let oneOf ← mapNumbered (fun index => visit (.oneOf index)) 0 children.oneOf
  let properties ← mapNamed (fun name => visit (.property name)) children.properties
  return { items, allOf, anyOf, oneOf, not, properties, additional }

end

end Subschemas

namespace SchemaBody

def pointer (target : String) : SchemaBody σ :=
  { reference := some target }

def typed (name : String) : SchemaBody σ :=
  { keywords := [("type", .string name)] }

def withKeyword (name : String) (value : Json) (body : SchemaBody σ) : SchemaBody σ :=
  { body with keywords := Table.insert name value body.keywords }

def withProperty (name : String) (schema : σ) (body : SchemaBody σ) : SchemaBody σ :=
  { body with properties := Table.insert name schema body.properties }

def withItems (schema : σ) (body : SchemaBody σ) : SchemaBody σ :=
  { body with items := some schema }

def isReference (body : SchemaBody σ) : Bool :=
  body.reference.isSome

def children (body : SchemaBody σ) : Subschemas σ where
  items := body.items
  allOf := body.allOf
  anyOf := body.anyOf
  oneOf := body.oneOf
  not := body.not
  properties := body.properties
  additional := body.additional.schema?

/-- The body with other sub-schemas.  A schema for additional properties can be replaced but neither
added nor removed. -/
def rebuild (body : SchemaBody σ) (children : Subschemas σ) : SchemaBody σ where
  reference := body.reference
  items := children.items
  allOf := children.allOf
  anyOf := children.anyOf
  oneOf := children.oneOf
  not := children.not
  properties := children.properties
  additional := match body.additional, children.additional with
    | .schema _, some replacement => .schema replacement
    | kept, _ => kept
  keywords := body.keywords

end SchemaBody

mutual

/-- Recursion over a schema: `step` is given each node and, in place of the sub-schemas of its body,
their results. -/
def Schema.recurse (step : Schema → SchemaBody α → α) : Schema → α
  | .node id body =>
      step (.node id body) {
        reference := body.reference
        items := recurseOption step body.items
        allOf := recurseList step body.allOf
        anyOf := recurseList step body.anyOf
        oneOf := recurseList step body.oneOf
        not := recurseOption step body.not
        properties := recurseTable step body.properties
        additional := recurseAdditional step body.additional
        keywords := body.keywords }

def Schema.recurseOption (step : Schema → SchemaBody α → α) :
    Option Schema → Option α
  | none => none
  | some schema => some (schema.recurse step)

def Schema.recurseList (step : Schema → SchemaBody α → α) :
    List Schema → List α
  | [] => []
  | schema :: rest => schema.recurse step :: recurseList step rest

def Schema.recurseTable (step : Schema → SchemaBody α → α) :
    List (String × Schema) → List (String × α)
  | [] => []
  | (name, schema) :: rest => (name, schema.recurse step) :: recurseTable step rest

def Schema.recurseAdditional (step : Schema → SchemaBody α → α) :
    Additional Schema → Additional α
  | .unspecified => .unspecified
  | .allowed value => .allowed value
  | .schema schema => .schema (schema.recurse step)

end

namespace Schema

def id : Schema → Nat
  | .node id _ => id

def body : Schema → SchemaBody Schema
  | .node _ body => body

/-- Whether the same objects hang in the same places. -/
def sameObjects (left right : Subschemas Schema) : Bool :=
  left.visits.map (fun (slot, child) => (slot, child.id)) ==
    right.visits.map (fun (slot, child) => (slot, child.id))

/-- Replaces the sub-schemas of a node; `none` if all of them stay the objects they were, so that
the node can stay the object it was. -/
def mapChildren {m : Type → Type} [Monad m] (visit : Slot → Schema → m Schema) (schema : Schema) :
    m (Option (SchemaBody Schema)) := do
  let before := schema.body.children
  let after ← before.mapVisits visit
  return if sameObjects before after then none else some (schema.body.rebuild after)

/-- Every pointer in a schema: that of a node before those of its sub-schemas. -/
def pointers : Schema → List String :=
  recurse fun _ body =>
    body.reference.toList ++ body.children.visits.flatMap Prod.snd

section

variable (same : σ → τ → Bool)

def sameOption : Option σ → Option τ → Bool
  | none, none => true
  | some left, some right => same left right
  | _, _ => false

def sameList : List σ → List τ → Bool
  | [], [] => true
  | left :: lefts, right :: rights => same left right && sameList lefts rights
  | _, _ => false

def sameAdditional : Additional σ → Additional τ → Bool
  | .unspecified, .unspecified => true
  | .allowed left, .allowed right => left == right
  | .schema left, .schema right => same left right
  | _, _ => false

def sameBody (left : SchemaBody σ) (right : SchemaBody τ) : Bool :=
  left.reference == right.reference &&
    sameOption same left.items right.items &&
    sameList same left.allOf right.allOf &&
    sameList same left.anyOf right.anyOf &&
    sameList same left.oneOf right.oneOf &&
    sameOption same left.not right.not &&
    Table.same same left.properties right.properties &&
    sameAdditional same left.additional right.additional &&
    Table.same Json.same left.keywords right.keywords

end

/-- Equality of contents; properties and keywords may stand in any order. -/
def same : Schema → Schema → Bool :=
  recurse fun _ left right => sameBody (fun same other => same other) left right.body

end Schema

end ApiLinker
