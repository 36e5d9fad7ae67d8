import ApiLinker.Document
import ApiLinker.Problem

/-!
The reference index: entities by category and name.

The last entity that is registered under a name is the one found.  An index is made from the named
objects and the top-level tags of a document; an object that is itself only a reference to another
one of its category is an alias, and is registered as what its chain of references ends at.
-/

namespace ApiLinker

structure Index where
  entries : List ((Category × String) × EntityId) := []

namespace Index

def size (index : Index) : Nat :=
  index.entries.length

def entity? (index : Index) (category : Category) (name : String) : Option EntityId :=
  Table.find? (category, name) index.entries

def register (index : Index) (category : Category) (name : String) (entity : EntityId) : Index :=
  { entries := Table.insert (category, name) entity index.entries }

/-- Whether this very entity is registered under a name. -/
def isRegistered (index : Index) (category : Category) (name : String) (entity : EntityId) : Bool :=
  index.entity? category name == some entity

/-- The entity of a category that a reference names.  A reference that names another category, or
reaches inside an object, names none. -/
def resolve (index : Index) (category : Category) (reference : Reference) :
    Except Problem EntityId :=
  if reference.category?.any (· != category) then .error (.categoryMismatch category reference)
  else if reference.isNested then .error (.notFound category reference)
  else match index.entity? category reference.identifier with
    | some entity => .ok entity
    | none => .error (.notFound category reference)

/-- One pass over aliases.  Those that resolve are registered at once, so that aliases after them
can resolve to them; the others are handed back. -/
def settleOnce (category : Category) (index : Index) :
    List (String × Reference) → Index × List (String × Reference)
  | [] => (index, [])
  | (name, reference) :: rest =>
      match index.resolve category reference with
      | .ok entity => settleOnce category (index.register category name entity) rest
      | .error _ =>
          let (index, left) := settleOnce category index rest
          (index, (name, reference) :: left)

/-- Passes over the aliases until one settles nothing more, or `limit` passes are made. -/
def settle (category : Category) : (limit : Nat) → Index → List (String × Reference) → Index
  | 0, index, _ => index
  | limit + 1, index, aliases =>
      let (index, left) := settleOnce category index aliases
      if left.length = aliases.length then index else settle category limit index left

/-- The entries that have an entity of their own. -/
def definitions (entries : Table Edge) : Table EntityId :=
  entries.filterMap fun (name, edge) => edge.target?.map (name, ·)

/-- The entries that only refer to another object of the document. -/
def aliases (entries : Table Edge) : Table Reference :=
  entries.filterMap fun (name, edge) =>
    match edge with
    | .placeholder reference => if reference.isExternal then none else some (name, reference)
    | .linked _ _ | .inline _ => none

/-- Registers the named objects of one category.  Each pass over the aliases but the last settles
one at least, so their number bounds the passes. -/
def registerAll (index : Index) (category : Category) (entries : Table Edge) : Index :=
  let defined := (definitions entries).foldl
    (fun index entry => index.register category entry.1 entry.2) index
  settle category (aliases entries).length defined (aliases entries)

def registerTag (graph : Graph) (index : Index) (edge : Edge) : Index :=
  match edge.target? with
  | none => index
  | some target =>
      match graph.entity? target with
      | some (.tag tag) => index.register .tags tag.name target
      | _ => index

def ofDocument (graph : Graph) (document : Document) : Index :=
  let named := document.namedObjects
  [(.parameters, named.parameters), (.requestBodies, named.requestBodies),
    (.responses, named.responses), (.examples, named.examples), (.headers, named.headers),
    (.links, named.links), (.callbacks, named.callbacks), (.pathItems, named.pathItems),
    (.securitySchemes, named.securitySchemes)].foldl
    (fun index (category, entries) => index.registerAll category entries)
    (document.tags.foldl (registerTag graph) {})

end Index

end ApiLinker
