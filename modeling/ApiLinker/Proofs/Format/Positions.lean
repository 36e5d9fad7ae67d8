import ApiLinker.Proofs.Format.Standing
import ApiLinker.Proofs.Schema.Slots

/-!
What the registry of a document holds, and where it is written.

An occurrence is a node somewhere in a named schema of a document.  The registry has one entry for
each occurrence, under the locator of the occurrence's pointer, and the pointer leads to the node in
the written document (`Document.registry_exact`).
-/

namespace ApiLinker

/-- The value that a pointer leads to.  What follows its `#` is nothing or, each after a slash and
with its escapes, the segments of a path. -/
def Json.evaluate? (json : Json) (pointer : String) : Option Json :=
  match pointer.toList with
  | ['#'] => some json
  | '#' :: '/' :: path =>
      json.at? ((Pointer.splitSlashes path).map fun piece =>
        String.ofList (Pointer.unescapeChars piece))
  | _ => none

theorem Json.evaluate?_ofSegments (json : Json) (segments : List String) :
    json.evaluate? (Pointer.ofSegments segments) = json.at? segments := by
  have text : (Pointer.ofSegments segments).toList = '#' :: (Pointer.extendWith segments).toList := by
    simp [Pointer.ofSegments]
  cases segments with
  | nil => simp [evaluate?, text, Pointer.extendWith, String.join]
  | cons segment rest =>
      rw [evaluate?, text, Pointer.toList_extendWith, List.flatMap_cons,
        ← Pointer.toList_extendWith, List.cons_append]
      simp only [Pointer.splitSlashes_extendWith (Pointer.slash_not_mem_escapeChars _)]
      simp [Pointer.unescapeChars_escapeChars, Function.comp_def]

/-- A node in a named schema: the name of the schema and the slots that lead from it to the node. -/
structure Occurrence where
  name : String
  slots : List Slot
  node : Schema

namespace Occurrence

def path (occurrence : Occurrence) : List String :=
  ["components", "schemas", occurrence.name] ++ Schema.segments occurrence.slots

def pointer (occurrence : Occurrence) : String :=
  Pointer.ofSegments occurrence.path

/-- The node is found in these named schemas, where the occurrence says. -/
def IsIn (occurrence : Occurrence) (schemas : Table Schema) : Prop :=
  ∃ root, Table.find? occurrence.name schemas = some root ∧
    root.at? occurrence.slots = some occurrence.node

/-- All occurrences in named schemas. -/
def all (schemas : Table Schema) : List Occurrence :=
  schemas.flatMap fun (name, schema) => schema.occurrences.map fun (slots, node) =>
    { name, slots, node }

variable {schemas : Table Schema}

theorem mem_all (names : schemas.names.Nodup) (distinct : ∀ entry ∈ schemas, entry.2.Distinct)
    {occurrence : Occurrence} : occurrence ∈ all schemas ↔ occurrence.IsIn schemas := by
  simp only [all, List.mem_flatMap, List.mem_map, IsIn]
  constructor
  · rintro ⟨⟨name, schema⟩, member, ⟨slots, node⟩, inside, rfl⟩
    have found := (Schema.mem_occurrences (distinct _ member)).mp inside
    exact ⟨schema, Table.find?_of_mem names member, found⟩
  · rintro ⟨root, named, found⟩
    have member := Table.mem_of_find? named
    have inside := (Schema.mem_occurrences (distinct _ member)).mpr found
    exact ⟨_, member, _, inside, rfl⟩

theorem positions_eq (schemas : Table Schema) :
    Registry.positions schemas =
      (all schemas).map fun occurrence => (occurrence.pointer, occurrence.node) := by
  simp only [Registry.positions, all, List.map_flatMap, List.map_map]
  refine List.flatMap_congr fun entry _ => ?_
  rw [Registry.componentPointer, Schema.positions_eq]
  rfl

variable (names : schemas.names.Nodup) (distinct : ∀ entry ∈ schemas, entry.2.Distinct)
include names distinct

/-- No two occurrences have one locator. -/
theorem nodup_locators (authority : String) :
    ((all schemas).map fun occurrence => Locator.ofPointer authority occurrence.pointer).Nodup := by
  have pointers : ((all schemas).map pointer).Nodup := by
    have positions := Registry.nodup_positions names distinct
    rwa [positions_eq, Table.names, List.map_map] at positions
  refine (List.Nodup.of_map _ pointers).map_on fun occurrence isOne other isOther same => ?_
  refine List.inj_on_of_nodup_map pointers isOne isOther ?_
  exact congrArg Pointer.ofSegments (Locator.ofPointer_injective same)

theorem registered_eq (authority : String) :
    (Registry.ofSchemas authority schemas).schemas = (all schemas).map fun occurrence =>
      (Locator.ofPointer authority occurrence.pointer, occurrence.node) := by
  have locators : (((all schemas).map fun occurrence =>
      (Locator.ofPointer authority occurrence.pointer, occurrence.node)).map Prod.fst).Nodup := by
    simpa [Function.comp_def] using nodup_locators names distinct authority
  rw [← Table.ofEntries_of_nodup locators, Registry.ofSchemas_eq, positions_eq, Table.ofEntries, List.foldl_map,
    List.foldl_map]

end Occurrence

namespace Document

theorem schemas_of_parse {text : String} {location : Option String} {graph : Graph}
    {document : Document} (parsed : parse text location {} = .ok (document, graph)) :
    document.namedObjects.schemas.names.Nodup ∧
      ∀ entry ∈ document.namedObjects.schemas, entry.2.Distinct := by
  have orderly := (orderly_of_parse parsed).root
  rw [namedObjects]
  cases held : document.components with
  | none => exact ⟨List.nodup_nil, List.forall_mem_nil _⟩
  | some components =>
      obtain ⟨names, each⟩ := (orderly.components components held).schemas
      refine ⟨names, fun entry member => ?_⟩
      cases (each entry member).fits with
      | namedSchema distinct => exact distinct

/-- The named schemas of a document are written under its components. -/
theorem writes_schemas {text : String} {location : Option String} {graph : Graph}
    {document : Document} (parsed : parse text location {} = .ok (document, graph)) :
    ∃ json, document.write graph = .ok json ∧ ∀ entry ∈ document.namedObjects.schemas,
      json.at? ["components", "schemas", entry.1] = some entry.2.json := by
  have orderly : graph.Orderly (Held.Fits graph) document :=
    (orderly_of_parse parsed).imp fun _ _ asRead => asRead.fits
  obtain ⟨json, written, stands, _⟩ := orderly.stands_document
  refine ⟨json, written, fun entry member => ?_⟩
  cases held : document.components with
  | none => simp [namedObjects, held] at member
  | some components =>
      rw [namedObjects, held, Option.getD_some] at member
      have isPlace : ⟨["components", "schemas", entry.1], .namedSchema entry.1 entry.2⟩ ∈
          Place.within "components" components.writtenPlaces := by
        refine List.mem_map.mpr
          ⟨⟨["schemas", entry.1], .namedSchema entry.1 entry.2⟩, ?_, rfl⟩
        simp [Components.writtenPlaces, Place.within, Place.under, member]
      obtain ⟨value, found, writes⟩ := stands _ (List.mem_append_right _
        (List.mem_flatMap.mpr ⟨components, by simp [held], isPlace⟩))
      cases writes
      exact found

/-- The registry of a document is its occurrences: as many entries as there are occurrences, no two
of them under one locator, and under each of these locators the node, which the pointer leads to in
the written document. -/
theorem registry_exact {text : String} {location : Option String} {graph : Graph}
    {document : Document} (parsed : parse text location {} = .ok (document, graph))
    (authority : String) :
    let registry := Registry.ofSchemas authority document.namedObjects.schemas
    ∃ occurrences : List Occurrence,
      (∀ occurrence, occurrence ∈ occurrences ↔
        occurrence.IsIn document.namedObjects.schemas) ∧
      (occurrences.map fun occurrence => Locator.ofPointer authority occurrence.pointer).Nodup ∧
      registry.size = occurrences.length ∧
      (∀ locator node, registry.get? locator = some node ↔ ∃ occurrence ∈ occurrences,
        Locator.ofPointer authority occurrence.pointer = locator ∧ occurrence.node = node) ∧
      ∃ json, document.write graph = .ok json ∧ ∀ occurrence ∈ occurrences,
        json.evaluate? occurrence.pointer = some occurrence.node.json := by
  intro registry
  obtain ⟨names, distinct⟩ := schemas_of_parse parsed
  have locators := Occurrence.nodup_locators names distinct authority
  have registered := Occurrence.registered_eq names distinct authority
  obtain ⟨json, written, each⟩ := writes_schemas parsed
  refine ⟨Occurrence.all document.namedObjects.schemas, fun occurrence =>
    Occurrence.mem_all names distinct, locators, ?_, fun locator node => ?_, json, written,
    fun occurrence member => ?_⟩
  · rw [Registry.size, registered, List.length_map]
  · rw [Registry.get?, registered]
    constructor
    · intro found
      obtain ⟨occurrence, member, same⟩ := List.mem_map.mp (Table.mem_of_find? found)
      exact ⟨occurrence, member, congrArg Prod.fst same, congrArg Prod.snd same⟩
    · rintro ⟨occurrence, member, rfl, rfl⟩
      refine Table.find?_of_mem ?_ (List.mem_map_of_mem member)
      simpa [Table.names, Function.comp_def] using locators
  · obtain ⟨root, named, found⟩ := (Occurrence.mem_all names distinct).mp member
    have isNamed := Table.mem_of_find? named
    rw [Occurrence.pointer, Json.evaluate?_ofSegments, Occurrence.path, Json.at?_append,
      each _ isNamed, Option.bind_some]
    exact Schema.json_at? (distinct _ isNamed) found

section

/-! A document whose names hold slashes and tildes, or nothing. -/

def oddlyNamed : Document where
  openapi := currentOpenapi
  components := some { schemas := [
    ("", .node 2 { properties := [("a/b~", .node 0 {}), ("", .node 1 (.pointer "#/x"))] }),
    ("properties/a", .node 4 { allOf := [.node 3 {}] })] }

def oddlyNamedJson : Json :=
  .object [("openapi", .string currentOpenapi),
    ("info", .object [("title", .string ""), ("version", .string "")]),
    ("components", .object [("schemas", .object [
      ("", .object [("properties", .object [
        ("a/b~", .object []), ("", .object [("$ref", .string "#/x")])])]),
      ("properties/a", .object [("allOf", .array [.object []])])])])]

theorem parse_oddlyNamed :
    parse oddlyNamedJson.compact none {} = .ok (oddlyNamed, { schemaCount := 5 }) := by
  have legible : oddlyNamedJson.Legible Json.nestingLimit := by
    simp [oddlyNamedJson, Json.nestingLimit]
  exact parse_compact legible none rfl

theorem registry_exact_oddlyNamed :
    let registry := Registry.ofSchemas "http://everything.json" oddlyNamed.namedObjects.schemas
    registry.size = 5 ∧ ∃ occurrences : List Occurrence,
      (∀ occurrence, occurrence ∈ occurrences ↔
        occurrence.IsIn oddlyNamed.namedObjects.schemas) ∧
      (occurrences.map fun occurrence =>
        Locator.ofPointer "http://everything.json" occurrence.pointer).Nodup ∧
      registry.size = occurrences.length ∧
      (∀ locator node, registry.get? locator = some node ↔ ∃ occurrence ∈ occurrences,
        Locator.ofPointer "http://everything.json" occurrence.pointer = locator ∧
          occurrence.node = node) ∧
      ∃ json, oddlyNamed.write { schemaCount := 5 } = .ok json ∧ ∀ occurrence ∈ occurrences,
        json.evaluate? occurrence.pointer = some occurrence.node.json :=
  ⟨by decide +kernel, registry_exact parse_oddlyNamed "http://everything.json"⟩

end

end Document

end ApiLinker
