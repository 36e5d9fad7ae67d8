import ApiLinker.Linking.Cycles
import ApiLinker.Problem
import ApiLinker.Settings.Basic

/-!
Expansion: schema pointers replaced by what they name.

A node with a pointer gives way, as a whole, to the expansion of the schema that is registered
under the pointer's locator.  The pointer stays where it is external, where nothing is registered,
and where following pointers from its locator leads back to that locator.  Each registered schema
is expanded once and its expansion shared; a node none of whose sub-schemas changes stays the
object it was.
-/

namespace ApiLinker

/-- What the expansion of schemas depends on. -/
structure Lookup where
  registry : Registry
  authority : String
  strict : Bool
  links : LocatorGraph

namespace Lookup

def ofRegistry (registry : Registry) (settings : Settings) : Lookup where
  registry := registry
  authority := settings.schemaAuthority
  strict := settings.strict
  links := .ofRegistry settings.schemaAuthority registry

end Lookup

structure Expansion where
  schemaCount : Nat := 0
  /-- The expansions of registered schemas, by locator. -/
  expanded : Table Schema := []
  problems : List Diagnostic := []
  replaced : Nat := 0

abbrev Expanding := StateM Expansion

namespace Expanding

def report (path : List String) (problem : Problem) : Expanding Unit :=
  modify fun state => { state with problems := state.problems ++ [{ path, problem }] }

def addNode (body : SchemaBody Schema) : Expanding Schema := fun state =>
  (.node state.schemaCount body, { state with schemaCount := state.schemaCount + 1 })

def expanded? (locator : String) : Expanding (Option Schema) := fun state =>
  (Table.find? locator state.expanded, state)

def store (locator : String) (schema : Schema) : Expanding Unit :=
  modify fun state => { state with expanded := Table.insert locator schema state.expanded }

end Expanding

namespace Schema

open Expanding

/-- Replaces the pointers in a schema.  `follow` gives the schema for a pointer, if it is
replaced. -/
def expandWith (follow : List String → String → Expanding (Option Schema)) :
    Schema → (path : List String) → Expanding Schema :=
  recurse fun schema body path => do
    match body.reference with
    | some pointer =>
        match ← follow path pointer with
        | some target =>
            modify fun state => { state with replaced := state.replaced + 1 }
            return target
        | none => return schema
    | none =>
        let children ← body.children.mapVisits fun slot expand => expand (path ++ slot.segments)
        if sameObjects schema.body.children children then return schema
        else addNode (schema.body.rebuild children)

/-- Expands a schema once for its locator. -/
def expandNamedWith (follow : List String → String → Expanding (Option Schema))
    (locator : String) (schema : Schema) (path : List String) : Expanding Schema := do
  match ← expanded? locator with
  | some known => return known
  | none =>
      let expansion ← schema.expandWith follow path
      store locator expansion
      return expansion

end Schema

namespace Lookup

open Expanding

/-- The schema that a pointer gives way to, if it does, where at most `depth` pointers are followed
one inside the expansion of the other. -/
def follow (lookup : Lookup) :
    (depth : Nat) → (path : List String) → (pointer : String) → Expanding (Option Schema)
  | 0, _, _ => return none
  | depth + 1, path, pointer => do
      if Reference.isExternal { pointer } then
        if lookup.strict then report path (.externalSchema pointer)
        return none
      let locator := Locator.ofPointer lookup.authority pointer
      if lookup.links.isCyclic locator then return none
      match ← expanded? locator with
      | some known => return some known
      | none =>
          match lookup.registry.get? locator with
          | none =>
              report path (.schemaNotFound pointer locator)
              return none
          | some schema => some <$> schema.expandNamedWith (lookup.follow depth) locator path

/-- Locators that are no part of a cycle are followed at most once inside each other. -/
def depth (lookup : Lookup) : Nat :=
  lookup.registry.size + 1

def expand (lookup : Lookup) (schema : Schema) (path : List String) : Expanding Schema :=
  schema.expandWith (lookup.follow lookup.depth) path

def expandNamed (lookup : Lookup) (name : String) (schema : Schema) (path : List String) :
    Expanding Schema :=
  schema.expandNamedWith (lookup.follow lookup.depth)
    (Locator.ofPointer lookup.authority (Registry.componentPointer name)) path

end Lookup

end ApiLinker
