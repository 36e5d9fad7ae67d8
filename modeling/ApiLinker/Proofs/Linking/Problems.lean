import ApiLinker.Proofs.Linking.Missing

/-!
All problems that a walk reports.

What is wrong with something held does not depend on where it is held, and what is wrong with a
schema that is opened does not depend on the pointer that it was opened for.  So the problems of a
walk are those of the things at its stops, together with those of the schemas that it opens, in some
order (`Linker.problems_of_walk`).
-/

namespace ApiLinker

/-- What is wrong with the schema under a locator, apart from what is registered elsewhere. -/
def Lookup.problemsAt (lookup : Lookup) (locator : String) : List Problem :=
  match lookup.registry.get? locator with
  | some schema => schema.exposed.filterMap lookup.problem?
  | none => []

namespace Linker

open ApiLinker.Graph

/-- What is wrong with something held, apart from what is registered elsewhere. -/
def problems (linker : Linker) : Held → List Problem
  | .edge category (.placeholder reference) =>
      (linker.problem? (.component category reference)).toList
  | .tag (.placeholder reference) => (linker.problem? (.tag reference)).toList
  | .schema schema => schema.exposed.filterMap linker.lookup.problem?
  | .edge _ _ | .tag _ | .namedSchema _ _ => []

variable (linker : Linker)

theorem filterMap_schema_queries (schema : Schema) (path : List String) :
    (schema.queries path).filterMap (fun query => linker.problem? query.sought) =
      schema.exposed.filterMap linker.lookup.problem? := by
  have same := congrArg (List.filterMap linker.problem?) (Schema.sought_queries schema path)
  rw [List.filterMap_map, List.filterMap_map] at same
  exact same

theorem filterMap_held_queries (held : Held) (path : List String) :
    (held.queries path).filterMap (fun query => linker.problem? query.sought) =
      linker.problems held := by
  cases held with
  | edge category edge =>
      cases edge with
      | placeholder => rfl
      | linked | inline => rfl
  | tag edge => cases edge <;> rfl
  | schema schema => exact filterMap_schema_queries linker schema path
  | namedSchema => rfl

variable {linker} {graph : Graph} {document : Document}

/-- A walk through a document reports what is wrong at its stops and in what it opens. -/
theorem problems_of_walk (graph : Graph) (index : Index) (settings : Settings)
    (distinct : document.namedObjects.schemas.names.Nodup) :
    let linker := ofDocument index document settings
    let stops := (graph.tour index [] document).1
    ∃ opened : List String, opened.Nodup ∧
      (∀ locator, locator ∈ opened ↔
        (∃ name ∈ document.namedObjects.schemas.names,
          Locator.ofPointer settings.schemaAuthority (Registry.componentPointer name) = locator) ∨
        linker.lookup.Opens (Offers stops) locator) ∧
      ((linker.walk graph document).1.diagnostics.map Diagnostic.problem).Perm
        (((stops.map Stop.held).flatMap linker.problems ++
          opened.flatMap linker.lookup.problemsAt).map (Problem.withHost document.location)) := by
  intro linker stops
  have linked : linker.lookup.Linked := linked_ofDocument
  have registers := registers_of_distinct graph index settings distinct
  obtain ⟨asked, opened, asks, logged⟩ := walk_log_of_distinct graph index settings distinct
  obtain ⟨openings, all, locators, openedBy⟩ := asks.perm_openings
  rw [List.append_nil] at locators
  refine ⟨opened, asks.nodup linked registers List.nodup_nil,
    fun locator => opened_iff linked registers asks, ?_⟩
  let wrong (query : Query) := linker.problem? query.sought
  have reported : (linker.walk graph document).1.diagnostics.map Diagnostic.problem =
      (asked.filterMap wrong).map (Problem.withHost document.location) := by
    rw [logged, List.map_map, List.map_filterMap, List.map_filterMap]
    refine List.filterMap_congr fun query _ => ?_
    simp only [diagnostic?, wrong, Option.map_map]
    rfl
  have atStops : (stops.flatMap Stop.queries).filterMap wrong =
      (stops.map Stop.held).flatMap linker.problems := by
    rw [List.filterMap_flatMap, List.flatMap_map]
    exact List.flatMap_congr fun stop _ => filterMap_held_queries linker stop.held stop.path
  have inside : (openings.flatMap Lookup.Opening.queries).filterMap wrong =
      (openings.map Lookup.Opening.locator).flatMap linker.lookup.problemsAt := by
    rw [List.filterMap_flatMap, List.flatMap_map]
    refine List.flatMap_congr fun opening member => ?_
    obtain ⟨query, met, found⟩ := openedBy opening member
    have registered := Lookup.registered_of_opens? linked (asks.registers registers) met found
    rw [Lookup.problemsAt, registered]
    exact filterMap_schema_queries linker opening.schema opening.path
  rw [reported]
  refine .map _ ((all.filterMap wrong).trans ?_)
  rw [List.filterMap_append, atStops, inside]
  exact (locators.flatMap_right _).append_left _

end Linker

end ApiLinker
