import ApiLinker.Proofs.Linking.Settled

/-!
Walking again.

What a walk leaves behind is settled for every linker with the same tables, so a second walk has
nothing to do.
-/

namespace ApiLinker

open ApiLinker.Graph

theorem Graph.Shows.reaches {graph : Graph} {document : Document} {category : Category}
    {edge : Edge} {target : EntityId} (shows : graph.Shows document (.edge category edge))
    (leads : edge.target? = some target) : graph.Reaches document target := by
  cases shows with
  | root holds => exact .root holds leads
  | inside reached found holds => exact .step reached found holds leads

namespace Linker

variable {graph laterGraph : Graph} {document later : Document} {linker : Linker}
variable {nodes : NodeTable}

theorem settles_of_allows {origin held : Held} (linked : linker.lookup.Linked)
    (allowed : (linker.change laterGraph (linker.lookup.Expands nodes)).Allows origin held) :
    linker.Settles held := by
  refine ⟨⟨?_, ?_⟩, ?_⟩
  · intro category reference same
    subst same
    cases allowed with
    | edge links => exact links.unresolved
  · intro reference same
    subst same
    cases allowed with
    | tag links => exact ⟨links.known reference rfl, links.unresolved⟩
  · intro schema isSchema
    obtain ⟨_, _, expands⟩ := allowed.schema_before isSchema
    exact Schema.settled_of_contents linked expands.2

/-- Where no edge that is shown can be looked up, a tour meets nothing that is not shown. -/
theorem shows_of_stop {index : Index}
    (linked : ∀ category edge, graph.Shows document (.edge category edge) →
      index.link category edge = edge) {stop : Stop}
    (met : stop ∈ (graph.tour index [] document).1) : graph.Shows document stop.held := by
  refine held_of_stop (P := graph.Shows document) (fun _ holds => .root holds) ?_ stop met
  intro category edge id entity shows leads _ found held holds
  rw [linked category edge shows] at leads
  exact .inside (shows.reaches leads) found holds

/-- A fresh linker with the same tables that walks the result changes no edge, no schema object and
nothing else, and counts no link. -/
theorem walk_again (graph : Graph) (document : Document) (settings : Settings)
    (wellFormed : graph.WellFormed document) :
    let linker := ofDocument (.ofDocument graph document) document settings
    let laterGraph := (linker.walk graph document).2.1
    let later := (linker.walk graph document).2.2
    (linker.walk laterGraph later).2 = (laterGraph, later) ∧
      (linker.walk laterGraph later).1.linkCount = 0 := by
  intro linker laterGraph later
  have linked : linker.lookup.Linked := linked_ofDocument
  obtain ⟨_, nodes, _, _, _, toured⟩ := toured_of_wellFormed (.ofDocument graph document)
    settings wellFormed
  have names := toured.root.schemas.names_eq
  refine walk_of_settled rfl rfl rfl linked ?_ (names ▸ wellFormed.names) ?_
  · intro entry member
    obtain ⟨name, schema⟩ := entry
    have named : name ∈ later.namedObjects.schemas.names :=
      List.mem_map.mpr ⟨(name, schema), member, rfl⟩
    rw [names] at named
    obtain ⟨⟨_, original⟩, isOriginal, rfl⟩ := List.mem_map.mp named
    exact ⟨original, Registry.get?_ofSchemas wellFormed.names isOriginal⟩
  · have settled : ∀ {held : Held}, laterGraph.Shows later held → linker.Settles held := by
      intro held shows
      obtain ⟨origin, _, allowed⟩ := toured.walked.shown_before shows
      exact settles_of_allows linked allowed
    intro stop met
    exact settled (shows_of_stop (fun category edge shows => (settled shows).link_eq) met)

theorem walk_again_aliased :
    let linker := ofDocument (.ofDocument { schemaCount := 2 } .aliased) .aliased {}
    let walked := (linker.walk { schemaCount := 2 } .aliased).2
    (linker.walk walked.1 walked.2).2 = walked ∧
      (linker.walk walked.1 walked.2).1.linkCount = 0 :=
  walk_again { schemaCount := 2 } .aliased {} Document.wellFormed_aliased

end Linker

end ApiLinker
