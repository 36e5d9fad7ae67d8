import ApiLinker.Proofs.Linking.Asked
import ApiLinker.Proofs.Linking.Reported

/-!
Runs that report nothing.

A run that reports nothing has left only external placeholders, and no exposed pointer but external
ones and those into a cycle.  What lies beneath such a pointer it has not looked at.
-/

namespace ApiLinker

/-- The pointer may stay without being reported. -/
def Lookup.Exempt (lookup : Lookup) (pointer : String) : Prop :=
  Reference.isExternal { pointer } = true ∨
    lookup.Cyclic (Locator.ofPointer lookup.authority pointer)

theorem Lookup.exempt_of_stays {lookup : Lookup} {pointer : String} (stays : lookup.Stays pointer)
    (fine : lookup.problem? pointer = none) : lookup.Exempt pointer := by
  rcases stays with isExternal | missing | cyclic
  · exact .inl isExternal
  · cases isExternal : Reference.isExternal { pointer } with
    | true => exact .inl isExternal
    | false => cases fine.symm.trans (problem?_missing isExternal missing)
  · exact .inr cyclic

namespace Schema

/-- The pointer lies beneath a node whose own pointer has the property `P`. -/
def Beneath (P : String → Prop) (schema : Schema) (pointer : String) : Prop :=
  ∃ id body outer, .node id body ∈ schema.nodes ∧ body.reference = some outer ∧ P outer ∧
    ∃ child ∈ body.children.list, pointer ∈ child.pointers

/-- Pointers that are not exposed lie beneath one that is. -/
theorem or_beneath {P : String → Prop} {schema : Schema}
    (exposed : ∀ pointer ∈ schema.exposed, P pointer) {pointer : String}
    (member : pointer ∈ schema.pointers) : P pointer ∨ schema.Beneath P pointer := by
  induction schema using induct with
  | node id body ih =>
      cases points : body.reference with
      | some outer =>
          have holds := exposed outer (by rw [exposed_pointer points, List.mem_singleton])
          rcases mem_pointers_node.mp member with same | inside
          · rw [points] at same
            cases same
            exact .inl holds
          · exact .inr ⟨id, body, outer, self_mem_nodes _, points, holds, inside⟩
      | none =>
          rcases mem_pointers_node.mp member with same | ⟨child, isChild, inside⟩
          · cases points.symm.trans same
          · refine (ih child isChild (Lookup.exposed_of_child points isChild exposed)
              inside).imp_right fun beneath => ?_
            obtain ⟨number, inner, outer, isNode, rest⟩ := beneath
            exact ⟨number, inner, outer, mem_nodes_node.mpr (.inr ⟨child, isChild, isNode⟩), rest⟩

end Schema

namespace Linker

open ApiLinker.Graph

variable {linker : Linker} {graph laterGraph : Graph} {document later : Document}
variable {R : Schema → Schema → Prop} {asked : List Query} {opened : List String}

/-- Where nothing is wrong with what is asked for, no local placeholder is left. -/
theorem external_of_placeholder
    (toured : linker.Toured (linker.change laterGraph R) graph document laterGraph later)
    (asks : linker.lookup.Asks []
      ((graph.tour linker.index [] document).1.flatMap Stop.queries) asked opened)
    (fine : ∀ query ∈ asked, linker.problem? query.sought = none) {held : Held}
    (shows : laterGraph.Shows later held) {category : Category} {reference : Reference}
    (isLeft : held.placeholder? = some (category, reference)) : reference.isExternal = true := by
  by_contra isLocal
  obtain ⟨stop, met, allowed⟩ := toured.stop_of_shown shows
  obtain ⟨sought, problem, seeks, wrong⟩ :=
    problem?_of_placeholder allowed isLeft fun isExternal => absurd isExternal isLocal
  have member : ⟨stop.path, sought⟩ ∈ stop.queries := Held.mem_queries_of_sought? seeks stop.path
  have met := asks.queries_asked _ (List.mem_flatMap.mpr ⟨stop, met, member⟩)
  cases (fine _ met).symm.trans wrong

/-- Where nothing is wrong with what is asked for, an exposed pointer that is left is exempt. -/
theorem exempt_of_exposed {laterNodes : NodeTable}
    (toured : linker.Toured (linker.change laterGraph (linker.lookup.Expands laterNodes)) graph
      document laterGraph later)
    (linked : linker.lookup.Linked)
    (registers : linker.lookup.Registers
      ((graph.tour linker.index [] document).1.flatMap Stop.queries))
    (asks : linker.lookup.Asks []
      ((graph.tour linker.index [] document).1.flatMap Stop.queries) asked opened)
    (fine : ∀ query ∈ asked, linker.problem? query.sought = none) {held : Held} {schema : Schema}
    (shows : laterGraph.Shows later held) (isSchema : held.schema? = some schema)
    {pointer : String} (isExposed : pointer ∈ schema.exposed) : linker.lookup.Exempt pointer := by
  obtain ⟨stop, met, allowed⟩ := toured.stop_of_shown shows
  obtain ⟨before, wasSchema, expands⟩ := allowed.schema_before isSchema
  rw [← Schema.exposed_contents, expands.2] at isExposed
  obtain ⟨path, within⟩ := asks.asks_offered linked registers ⟨stop, met, wasSchema⟩
  obtain ⟨query, member, sought⟩ := asks.exposed_asked linked registers within isExposed
  have nothing := fine query member
  rw [sought] at nothing
  exact Lookup.exempt_of_stays (Lookup.stays_of_exposed_expansion linked isExposed) nothing

end Linker

namespace Document

variable (graph : Graph) (document : Document) (settings : Settings)

/-- If a run reports nothing, every placeholder in reach is external, and every pointer of a schema
in reach is exempt or lies beneath one that is. -/
theorem link_silent (wellFormed : graph.WellFormed document)
    (silent : (document.link graph settings).1 = []) :
    let laterGraph := (document.link graph settings).2.1
    let later := (document.link graph settings).2.2
    let lookup := Lookup.ofRegistry (document.registry settings.schemaAuthority) settings
    (∀ category reference, laterGraph.Shows later (.edge category (.placeholder reference)) →
      reference.isExternal = true) ∧
    (∀ reference, laterGraph.Shows later (.tag (.placeholder reference)) →
      reference.isExternal = true) ∧
    ∀ held schema, laterGraph.Shows later held → held.schema? = some schema →
      ∀ pointer ∈ schema.pointers,
        lookup.Exempt pointer ∨ schema.Beneath lookup.Exempt pointer := by
  intro laterGraph later lookup
  let linker := Linker.ofDocument (.ofDocument graph document) document settings
  have linked : linker.lookup.Linked := Linker.linked_ofDocument
  obtain ⟨_, _, _, _, _, toured⟩ := Linker.toured_of_wellFormed (.ofDocument graph document)
    settings wellFormed
  have registers := Linker.registers_of_distinct graph (.ofDocument graph document) settings
    wellFormed.names
  obtain ⟨asked, opened, asks, logged⟩ := Linker.walk_log_of_distinct graph
    (.ofDocument graph document) settings wellFormed.names
  have fine : ∀ query ∈ asked, linker.problem? query.sought = none := by
    intro query met
    have none : asked.filterMap linker.diagnostic? = [] := List.map_eq_nil_iff.mp
      (logged.symm.trans silent)
    simpa [Linker.diagnostic?] using List.filterMap_eq_nil_iff.mp none query met
  refine ⟨fun category reference shows => ?_, fun reference shows => ?_, ?_⟩
  · exact Linker.external_of_placeholder toured asks fine shows rfl
  · exact Linker.external_of_placeholder toured asks fine shows rfl
  · intro held schema shows isSchema pointer member
    exact Schema.or_beneath (fun exposed isExposed => Linker.exempt_of_exposed toured linked
      registers asks fine shows isSchema isExposed) member

theorem link_silent_aliased :
    let outcome := aliased.link { schemaCount := 2 } {}
    let lookup := Lookup.ofRegistry (aliased.registry defaultAuthority) {}
    outcome.1 = [] ∧
      ∀ held schema, outcome.2.1.Shows outcome.2.2 held → held.schema? = some schema →
        ∀ pointer ∈ schema.pointers,
          lookup.Exempt pointer ∨ schema.Beneath lookup.Exempt pointer :=
  ⟨by decide +kernel,
    (link_silent { schemaCount := 2 } aliased {} wellFormed_aliased (by decide +kernel)).2.2⟩

section

/-! A pointer that a run neither replaces nor reports. -/

/-- `A` has an external pointer, and beside it a local one. -/
def overlooked : Document :=
  .ofSchemas [
    ("A", .node 0 {
      reference := some "other.json#/X"
      items := some (.node 1 (.pointer "#/components/schemas/B")) }),
    ("B", .node 2 (.typed "string"))]

theorem not_exempt_overlooked :
    ¬ (Lookup.ofRegistry (overlooked.registry defaultAuthority) {}).Exempt
      "#/components/schemas/B" := by
  have registered : (overlooked.registry defaultAuthority).get?
      (Locator.ofPointer defaultAuthority "#/components/schemas/B") =
        some (.node 2 (.typed "string")) := by
    have named : Registry.componentPointer "B" = "#/components/schemas/B" := by decide
    rw [← named]
    exact Registry.get?_ofSchemas (by decide) (.tail _ List.mem_cons_self)
  intro exempt
  rcases exempt with isExternal | cyclic
  · exact absurd isExternal (by decide)
  · exact Lookup.not_cyclic_of_pointers_nil registered rfl cyclic

/-- The local pointer is left, although nothing is reported and it is on no cycle. -/
theorem link_silent_overlooked :
    let outcome := overlooked.link { schemaCount := 3 } {}
    let lookup := Lookup.ofRegistry (overlooked.registry defaultAuthority) {}
    outcome.1 = [] ∧
      ¬ ∀ held schema, outcome.2.1.Shows outcome.2.2 held → held.schema? = some schema →
        ∀ pointer ∈ schema.pointers, lookup.Exempt pointer := by
  refine ⟨by decide +kernel, fun exempt => ?_⟩
  have isLeft : ∃ entry ∈ (overlooked.link { schemaCount := 3 } {}).2.2.namedObjects.schemas,
      "#/components/schemas/B" ∈ entry.2.pointers := by
    decide +kernel
  obtain ⟨⟨name, schema⟩, member, isLeft⟩ := isLeft
  exact not_exempt_overlooked
    (exempt _ schema (.root (holds_of_mem_schemas member)) rfl _ isLeft)

end

end Document

end ApiLinker
