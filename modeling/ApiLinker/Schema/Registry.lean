import ApiLinker.Reference
import ApiLinker.Schema.Basic

/-!
The schema registry: schemas by locator.

A locator is an absolute name, made of an authority and a local pointer.  Registering a document's
named schemas also registers every schema inside them under a pointer of its own.
-/

namespace ApiLinker

namespace Locator

def dropTrailingSlashes (text : List Char) : List Char :=
  (text.reverse.dropWhile (· == '/')).reverse

/-- The path of a local pointer: what follows its `#`. -/
def path (pointer : String) : List Char :=
  match pointer.toList with
  | '#' :: path => path
  | path => path

/-- The locator of a local pointer: authority and path, with one slash between them. -/
def ofPointer (authority pointer : String) : String :=
  let separator := match path pointer with
    | [] | '/' :: _ => []
    | _ => ['/']
  String.ofList (dropTrailingSlashes authority.toList ++ separator ++ path pointer)

end Locator

structure Registry where
  authority : String
  schemas : Table Schema := []

namespace Registry

def get? (registry : Registry) (locator : String) : Option Schema :=
  Table.find? locator registry.schemas

def size (registry : Registry) : Nat :=
  registry.schemas.length

/-- A pointer registered again takes the new schema. -/
def register (registry : Registry) (pointer : String) (schema : Schema) : Registry :=
  { registry with
    schemas := Table.insert (Locator.ofPointer registry.authority pointer) schema registry.schemas }

def componentPointer (name : String) : String :=
  Pointer.ofSegments ["components", "schemas", name]

def registerComponent (registry : Registry) (name : String) (schema : Schema) : Registry :=
  registry.register (componentPointer name) schema

end Registry

/-- Every schema in a tree with its pointer, where the root has the pointer `pointer`. -/
def Schema.positions : Schema → (pointer : String) → List (String × Schema) :=
  recurse fun schema body pointer =>
    (pointer, schema) :: body.children.visits.flatMap fun (slot, inner) =>
      inner (pointer ++ Pointer.extendWith slot.segments)

namespace Registry

def registerTree (registry : Registry) (pointer : String) (schema : Schema) : Registry :=
  (schema.positions pointer).foldl
    (fun registry entry => registry.register entry.1 entry.2) registry

/-- The registry of named schemas and all schemas inside them. -/
def ofSchemas (authority : String) (schemas : Table Schema) : Registry :=
  schemas.foldl (fun registry entry => registry.registerTree (componentPointer entry.1) entry.2)
    { authority }

end Registry

end ApiLinker
