import ApiLinker.Json.Value
import ApiLinker.Reference

/-!
Problems: why a reference could not be resolved.

None of them ends a walk.  Each becomes a diagnostic, which adds the place of the reference.
-/

namespace ApiLinker

inductive Problem where
  | notFound (category : Category) (reference : Reference)
  | categoryMismatch (expected : Category) (reference : Reference)
  | externalReference (reference : Reference)
  | schemaNotFound (pointer : String) (locator : String)
  | externalSchema (pointer : String)
deriving DecidableEq, Repr

namespace Problem

/-- The reference that failed, unless it was a schema pointer. -/
def reference? : Problem → Option Reference
  | .notFound _ reference | .categoryMismatch _ reference | .externalReference reference =>
      some reference
  | .schemaNotFound _ _ | .externalSchema _ => none

/-- The text of the pointer that failed. -/
def pointer : Problem → String
  | .notFound _ reference | .categoryMismatch _ reference | .externalReference reference =>
      reference.pointer
  | .schemaNotFound pointer _ | .externalSchema pointer => pointer

def message : Problem → String
  | .notFound category reference =>
      "no " ++ category.key ++ " component named '" ++ reference.identifier ++ "' (" ++
        reference.pointer ++ ")"
  | .categoryMismatch expected reference =>
      "expected a reference to " ++ expected.key ++ ", found '" ++ reference.pointer ++ "'"
  | .externalReference reference =>
      "external reference '" ++ reference.pointer ++ "' is not resolved"
  | .schemaNotFound pointer locator =>
      "schema '" ++ pointer ++ "' is not registered (locator: " ++ locator ++ ")"
  | .externalSchema pointer =>
      "external schema reference '" ++ pointer ++ "' is not resolved"

def referenceJson (reference : Reference) : Json :=
  .object [("$ref", .string reference.pointer)]

def json : Problem → Json
  | .notFound category reference =>
      .object [("kind", .string "not_found"), ("category", .string category.key),
        ("reference", referenceJson reference)]
  | .categoryMismatch expected reference =>
      .object [("kind", .string "category_mismatch"), ("expected", .string expected.key),
        ("reference", referenceJson reference)]
  | .externalReference reference =>
      .object [("kind", .string "external_unsupported"), ("reference", referenceJson reference)]
  | .schemaNotFound pointer locator =>
      .object [("kind", .string "schema_not_found"), ("pointer", .string pointer),
        ("locator", .string locator)]
  | .externalSchema pointer =>
      .object [("kind", .string "external_schema"), ("pointer", .string pointer)]

/-- Notes the document, if it has a location, in which the reference was found. -/
def withHost (host : Option String) (problem : Problem) : Problem :=
  match host, problem with
  | some host, .notFound category reference => .notFound category (reference.withHost host)
  | some host, .categoryMismatch expected reference =>
      .categoryMismatch expected (reference.withHost host)
  | some host, .externalReference reference => .externalReference (reference.withHost host)
  | _, problem => problem

end Problem

/-- A problem and the path from the document's root to where it was found. -/
structure Diagnostic where
  path : List String
  problem : Problem
deriving DecidableEq, Repr

namespace Diagnostic

def location (diagnostic : Diagnostic) : String :=
  Pointer.ofSegments diagnostic.path

def message (diagnostic : Diagnostic) : String :=
  diagnostic.location ++ ": " ++ diagnostic.problem.message

def json (diagnostic : Diagnostic) : Json :=
  .object [("location", .string diagnostic.location), ("error", diagnostic.problem.json)]

/-- Whether the pointer that failed names `identifier`.  A schema pointer does by its last
segment, as it is written. -/
def isFor (identifier : String) (diagnostic : Diagnostic) : Bool :=
  match diagnostic.problem.reference? with
  | some reference => reference.identifier == identifier
  | none =>
      (Pointer.splitSlashes diagnostic.problem.pointer.toList).getLast? == some identifier.toList

def forIdentifier (identifier : String) (diagnostics : List Diagnostic) : List Diagnostic :=
  diagnostics.filter (isFor identifier)

end Diagnostic

end ApiLinker
