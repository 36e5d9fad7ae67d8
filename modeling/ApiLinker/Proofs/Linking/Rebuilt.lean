import ApiLinker.Proofs.Index
import ApiLinker.Proofs.Linking.Again

/-!
Linking a document again.

A second run of `Document.link` makes its index and its registry from what the first run left.  The
new index knows no name that the old one did not, so edges are as they will ever be.  The new
registry is another matter: a pointer that the first run left in place may be replaced by the
second, since the pointers beside it or on its way are gone.
-/

namespace ApiLinker

open ApiLinker.Graph

section

variable {change : Change}

theorem Components.Changes.edgesOf {before after : Components}
    (changes : before.Changes change after) (category : Category) :
    Table.Rel (change.edge category) (before.edgesOf category) (after.edgesOf category) := by
  cases category with
  | parameters => exact changes.parameters
  | requestBodies => exact changes.requestBodies
  | responses => exact changes.responses
  | examples => exact changes.examples
  | headers => exact changes.headers
  | links => exact changes.links
  | callbacks => exact changes.callbacks
  | pathItems => exact changes.pathItems
  | securitySchemes => exact changes.securitySchemes
  | tags | schemas => exact .nil

theorem Document.Changes.edgesOf {before after : Document} (changes : before.Changes change after)
    (category : Category) :
    Table.Rel (change.edge category) (before.namedObjects.edgesOf category)
      (after.namedObjects.edgesOf category) := by
  have components := changes.components
  simp only [namedObjects]
  cases isBefore : before.components <;> cases isAfter : after.components <;>
    rw [isBefore, isAfter] at components <;> cases components
  · cases category <;> exact .nil
  · rename_i changes
    exact changes.edgesOf category

end

variable {graph laterGraph : Graph} {document later : Document} {settings : Settings}

/-- A name that linked edges lead to was known when they were linked. -/
theorem Index.knows_of_links {category : Category} {name : String} (different : category ≠ .tags)
    (links : Table.Rel ((ofDocument graph document).Links category)
      (document.namedObjects.edgesOf category) (later.namedObjects.edgesOf category))
    (known : (ofDocument laterGraph later).Knows category name) :
    (ofDocument graph document).Knows category name := by
  obtain ⟨target, found⟩ := known
  refine ofDocument_least different
    (K := fun name _ => (ofDocument graph document).Knows category name) ?_ ?_ name target found
  · intro name edge target member leads
    obtain ⟨⟨_, origin⟩, isOrigin, rfl, links⟩ := ListRel.exists_of_mem_right links member
    cases links with
    | linked | inline => exact ofDocument_knows_definition different isOrigin rfl
    | found isLocal resolved => exact ofDocument_knows_alias different isOrigin isLocal resolved
    | external | missing => cases leads
  · intro name reference target member isLocal addressed known
    obtain ⟨_, _, _, links⟩ := ListRel.exists_of_mem_right links member
    obtain ⟨entity, found⟩ := known
    have resolved := resolve_eq_ok_iff.mpr ⟨addressed, found⟩
    rcases links.unresolved with isExternal | ⟨problem, failed⟩
    · cases isLocal.symm.trans isExternal
    · cases resolved.symm.trans failed

def Graph.Settled (graph : Graph) (document : Document) (lookup : Lookup) : Prop :=
  ∀ held schema, graph.Shows document held → held.schema? = some schema → schema.Settled lookup

namespace Linker

variable {R : Schema → Schema → Prop}

section

variable (toured : (ofDocument (.ofDocument graph document) document settings).Toured
    ((ofDocument (.ofDocument graph document) document settings).change laterGraph R) graph document
    laterGraph later)
include toured

theorem tag_before (plain : settings.synthesizeMissingTags = false) {target : EntityId} {tag : Tag}
    (isTag : laterGraph.entity? target = some (.tag tag)) :
    graph.entity? target = some (.tag tag) := by
  rcases toured.entity_before isTag with ⟨before, old, changes | rfl⟩ | ⟨synthesizes, _⟩
  · cases changes
    exact old
  · exact old
  · cases plain.symm.trans synthesizes

theorem knows_tag_before (plain : settings.synthesizeMissingTags = false) {name : String}
    (known : (Index.ofDocument laterGraph later).Knows .tags name) :
    (Index.ofDocument graph document).Knows .tags name := by
  obtain ⟨target, found⟩ := known
  obtain ⟨edge, member, tag, leads, isTag, rfl⟩ := Index.exists_tag_of_ofDocument found
  obtain ⟨origin, isOrigin, links⟩ := ListRel.exists_of_mem_right toured.root.tags member
  have wasTag := tag_before toured plain isTag
  cases links.links_of_not_synthesizing plain with
  | linked | inline => exact Index.ofDocument_knows_tag isOrigin leads wasTag
  | found isLocal resolved =>
      -- The tag was looked up by its own name.
      obtain ⟨_, known⟩ := Index.resolve_eq_ok_iff.mp resolved
      obtain ⟨_, _, sameTag, _, isSame, named⟩ := Index.exists_tag_of_ofDocument known
      cases leads
      cases wasTag.symm.trans isSame
      exact ⟨target, named ▸ known⟩
  | external | missing => cases leads

/-- No edge that a run leaves behind can be linked by the next. -/
theorem settlesEdges_rebuilt {held : Held} (shows : laterGraph.Shows later held) :
    (ofDocument (.ofDocument laterGraph later) later settings).SettlesEdges held := by
  obtain ⟨origin, _, allowed⟩ := toured.walked.shown_before shows
  constructor
  · intro category reference same
    subst same
    have different : category ≠ .tags := by
      cases shows with
      | root holds =>
          rcases Document.ordinary_of_holds holds with ordinary | ⟨_, _, never, _⟩
          · exact ordinary
          · cases never
      | inside _ _ holds => exact Entity.ordinary_of_holds holds
    cases allowed with
    | edge links =>
        refine links.unresolved.imp_right fun ⟨problem, failed⟩ => ?_
        exact Index.resolve_error_of_knows (fun name =>
          Index.knows_of_links different (toured.root.edgesOf category)) failed
  · intro reference same
    subst same
    cases allowed with
    | tag links =>
        have known := links.known reference rfl
        cases isExternal : reference.isExternal with
        | true =>
            refine ⟨fun missing => ?_, .inl rfl⟩
            cases isExternal.symm.trans missing.2.1
        | false =>
            rcases links.unresolved with external | ⟨problem, failed⟩
            · cases isExternal.symm.trans external
            cases plain : settings.synthesizeMissingTags with
            | false =>
                refine ⟨fun missing => ?_, .inr ?_⟩
                · cases plain.symm.trans missing.1
                · exact Index.resolve_error_of_knows
                    (fun name => knows_tag_before toured plain) failed
            | true =>
                -- A name that is missing would have been made up.
                rcases Index.resolve_error_cases failed with rfl | always
                · exact absurd ⟨plain, isExternal, _, _, failed⟩ known
                · refine ⟨fun missing => ?_, .inr ⟨problem, always _⟩⟩
                  obtain ⟨_, _, category, other, failedAgain⟩ := missing
                  cases (always _).symm.trans failedAgain
                  exact known ⟨plain, isExternal, category, other, failed⟩

section

variable (wellFormed : laterGraph.WellFormed later)
include wellFormed

/-- A second run changes no edge. -/
theorem toured_rebuilt :
    let linker := ofDocument (.ofDocument laterGraph later) later settings
    let last := (later.link laterGraph settings).2
    (∀ stop ∈ (laterGraph.tour linker.index [] later).1, laterGraph.Shows later stop.held) ∧
      ∃ nodes, linker.Toured (.ofSchemas (linker.lookup.Expands nodes)) laterGraph later
        last.1 last.2 ∧
        ∀ change, linker.Toured change laterGraph later last.1 last.2 →
          Walked change laterGraph later last.1 last.2 := by
  intro linker last
  have shown : ∀ stop ∈ (laterGraph.tour linker.index [] later).1,
      laterGraph.Shows later stop.held := fun stop =>
    shows_of_stop fun category edge shows => (settlesEdges_rebuilt toured shows).link_eq
  obtain ⟨_, nodes, _, _, _, again⟩ :=
    toured_of_wellFormed (.ofDocument laterGraph later) settings wellFormed
  have kept := again.imp fun stop met => (settlesEdges_rebuilt toured (shown stop met)).implies
  exact ⟨shown, nodes, kept, fun change known => again.walked_of known⟩

theorem expanding_rebuilt :
    let last := (later.link laterGraph settings).2
    let lookup := Lookup.ofRegistry (later.registry settings.schemaAuthority) settings
    Walked (.ofSchemas fun before after => after.contents = lookup.expansion before)
      laterGraph later last.1 last.2 := by
  intro last lookup
  obtain ⟨_, nodes, kept, walked⟩ := toured_rebuilt toured wellFormed
  exact walked _ (kept.imp fun _ _ => Change.implies_ofSchemas fun _ _ _ expands => expands.2)

/-- Where the structure of schemas stays, the pointers in them are those that expansions leave. -/
theorem settled_of_alike
    (alike : Walked (.ofSchemas fun before after => after.contents = before.contents) laterGraph
      later (later.link laterGraph settings).2.1 (later.link laterGraph settings).2.2) :
    laterGraph.Settled later (.ofRegistry (later.registry settings.schemaAuthority) settings) := by
  intro held schema shows isSchema
  obtain ⟨result, shownAgain, allowed⟩ := alike.shown_after (fun _ _ _ same => same) shows
  obtain ⟨after, isAfter, same⟩ := allowed.schema_after isSchema
  obtain ⟨origin, _, allowed⟩ := (expanding_rebuilt toured wellFormed).shown_before shownAgain
  obtain ⟨before, _, expanded⟩ := allowed.schema_before isAfter
  exact Schema.settled_of_contents (Lookup.linked_ofRegistry _ _) (same.symm.trans expanded)

theorem alike_of_settled
    (settled : laterGraph.Settled later
      (.ofRegistry (later.registry settings.schemaAuthority) settings)) :
    Walked (.ofSchemas fun before after => after.contents = before.contents) laterGraph later
      (later.link laterGraph settings).2.1 (later.link laterGraph settings).2.2 := by
  obtain ⟨shown, nodes, kept, walked⟩ := toured_rebuilt toured wellFormed
  refine walked _ (kept.imp fun stop met => Change.implies_ofSchemas ?_)
  intro before after isSchema expands
  have stays := settled stop.held before (shown stop met) isSchema
  rw [expands.2]
  exact (Schema.settled_iff (Lookup.linked_ofRegistry _ _)).mp stays

theorem link_eq_of_settled
    (settled : laterGraph.Settled later
      (.ofRegistry (later.registry settings.schemaAuthority) settings)) :
    (later.link laterGraph settings).2 = (laterGraph, later) := by
  obtain ⟨shown, _⟩ := toured_rebuilt toured wellFormed
  have registered : ∀ entry ∈ later.namedObjects.schemas, ∃ schema,
      (later.registry settings.schemaAuthority).get?
        (Locator.ofPointer settings.schemaAuthority (Registry.componentPointer entry.1)) =
          some schema := fun entry member =>
    ⟨entry.2, Registry.get?_ofSchemas wellFormed.names member⟩
  have settles : ∀ stop ∈ (laterGraph.tour (.ofDocument laterGraph later) [] later).1,
      (ofDocument (.ofDocument laterGraph later) later settings).Settles stop.held := by
    intro stop met
    have shows := shown stop met
    exact ⟨settlesEdges_rebuilt toured shows, fun schema => settled stop.held schema shows⟩
  exact (walk_of_settled rfl rfl rfl linked_ofDocument registered wellFormed.names settles).1

end

end

end Linker

namespace Document

section

variable (graph : Graph) (document : Document) (settings : Settings)

theorem wellFormed_link (wellFormed : graph.WellFormed document) :
    (document.link graph settings).2.1.WellFormed (document.link graph settings).2.2 :=
  Linker.wellFormed_walk _ settings wellFormed

theorem schemas_link (wellFormed : graph.WellFormed document) :
    Table.Rel (fun before after => after.contents = (Lookup.ofRegistry
        (document.registry settings.schemaAuthority) settings).expansion before)
      document.namedObjects.schemas (document.link graph settings).2.2.namedObjects.schemas := by
  obtain ⟨_, _, _, _, _, toured⟩ :=
    Linker.toured_of_wellFormed (.ofDocument graph document) settings wellFormed
  exact toured.root.schemas.imp_of_mem fun _ _ _ expands => expands.2

theorem settled_of_link_alike (wellFormed : graph.WellFormed document) :
    let first := (document.link graph settings).2
    let second := (first.2.link first.1 settings).2
    let lookup := Lookup.ofRegistry (first.2.registry settings.schemaAuthority) settings
    Walked (.ofSchemas fun before after => after.contents = before.contents)
      first.1 first.2 second.1 second.2 → first.1.Settled first.2 lookup := by
  obtain ⟨_, _, _, _, _, toured⟩ :=
    Linker.toured_of_wellFormed (.ofDocument graph document) settings wellFormed
  exact Linker.settled_of_alike toured (wellFormed_link graph document settings wellFormed)

/-- A second run changes no edge, and expands every schema that is left.  It keeps the structure of
all of them exactly if each pointer that the first run left is external, or not registered, or on a
cycle, for the registry that is made of what the first run left; then it changes nothing at all. -/
theorem link_twice (wellFormed : graph.WellFormed document) :
    let first := (document.link graph settings).2
    let second := (first.2.link first.1 settings).2
    let lookup := Lookup.ofRegistry (first.2.registry settings.schemaAuthority) settings
    Walked (.ofSchemas fun before after => after.contents = lookup.expansion before)
        first.1 first.2 second.1 second.2 ∧
      (Walked (.ofSchemas fun before after => after.contents = before.contents)
        first.1 first.2 second.1 second.2 ↔ first.1.Settled first.2 lookup) ∧
      (first.1.Settled first.2 lookup → second = first) := by
  intro first second lookup
  obtain ⟨_, _, _, _, _, toured⟩ :=
    Linker.toured_of_wellFormed (.ofDocument graph document) settings wellFormed
  have wellFormedFirst : first.1.WellFormed first.2 :=
    wellFormed_link graph document settings wellFormed
  refine ⟨Linker.expanding_rebuilt toured wellFormedFirst, ⟨?_, ?_⟩, ?_⟩
  · exact settled_of_link_alike graph document settings wellFormed
  · exact Linker.alike_of_settled toured wellFormedFirst
  · exact Linker.link_eq_of_settled toured wellFormedFirst

theorem link_twice_aliased :
    let first := (aliased.link { schemaCount := 2 } {}).2
    let second := (first.2.link first.1 {}).2
    let lookup := Lookup.ofRegistry (first.2.registry defaultAuthority) {}
    Walked (.ofSchemas fun before after => after.contents = lookup.expansion before)
        first.1 first.2 second.1 second.2 ∧
      (Walked (.ofSchemas fun before after => after.contents = before.contents)
        first.1 first.2 second.1 second.2 ↔ first.1.Settled first.2 lookup) ∧
      (first.1.Settled first.2 lookup → second = first) :=
  link_twice { schemaCount := 2 } aliased {} wellFormed_aliased

end

section

/-! A document that a second run changes. -/

/-- Gives way to `B`, although it points to itself beside the pointer. -/
def crossing : Schema :=
  .node 0 {
    reference := some "#/components/schemas/B"
    properties := [("x", .node 1 (.pointer "#/components/schemas/A"))] }

def plain : Schema :=
  .node 2 (.typed "string")

def pointing : Schema :=
  .node 3 (.pointer "#/components/schemas/A")

def crossed : Document :=
  .ofSchemas [("A", crossing), ("B", plain), ("C", pointing)]

theorem wellFormed_crossed : Graph.WellFormed { schemaCount := 4 } crossed := by
  let nodes : List Schema :=
    [crossing, .node 1 (.pointer "#/components/schemas/A"), plain, pointing]
  refine wellFormed_ofSchemas nodes (by decide) fun entry member => ?_
  simp only [List.mem_cons, List.not_mem_nil, or_false] at member
  rcases member with rfl | rfl | rfl
  · refine Schema.isIn_node.mpr ⟨rfl, fun child member => ?_⟩
    cases List.mem_singleton.mp member
    exact Schema.isIn_of_childless rfl rfl
  · exact Schema.isIn_of_childless rfl rfl
  · exact Schema.isIn_of_childless rfl rfl

theorem componentPointer_a : Registry.componentPointer "A" = "#/components/schemas/A" := by
  decide

theorem componentPointer_b : Registry.componentPointer "B" = "#/components/schemas/B" := by
  decide

theorem expansion_pointing :
    (Lookup.ofRegistry (crossed.registry defaultAuthority) {}).expansion pointing =
      pointing.contents := by
  have registered : (crossed.registry defaultAuthority).get?
      (Locator.ofPointer defaultAuthority "#/components/schemas/A") = some crossing := by
    rw [← componentPointer_a]
    exact Registry.get?_ofSchemas wellFormed_crossed.names List.mem_cons_self
  refine (Schema.settled_iff (Lookup.linked_ofRegistry _ _)).mp fun pointer isExposed => ?_
  cases List.mem_singleton.mp isExposed
  refine .inr (.inr (.single ⟨crossing, registered, "#/components/schemas/A", ?_, by decide, rfl⟩))
  decide

theorem expansion_crossing :
    (Lookup.ofRegistry (crossed.registry defaultAuthority) {}).expansion crossing =
      plain.contents := by
  let lookup := Lookup.ofRegistry (crossed.registry defaultAuthority) {}
  have linked : lookup.Linked := Lookup.linked_ofRegistry _ _
  have registered : lookup.registry.get?
      (Locator.ofPointer defaultAuthority "#/components/schemas/B") = some plain := by
    rw [← componentPointer_b]
    exact Registry.get?_ofSchemas wellFormed_crossed.names (.tail _ List.mem_cons_self)
  have follows : ¬ lookup.Stays "#/components/schemas/B" := by
    intro stays
    rcases stays with never | never | never
    · exact absurd never (by decide)
    · cases registered.symm.trans never
    · exact Lookup.not_cyclic_of_pointers_nil registered rfl never
  have isExpansion := Lookup.isExpansion_expansion linked
  rw [crossing, isExpansion.followed 0 _ _ plain rfl follows registered]
  exact isExpansion.inside 2 (.typed "string") rfl

theorem not_settled_crossed {laterGraph : Graph} {later : Document}
    (names : later.namedObjects.schemas.names.Nodup)
    (schemas : Table.Rel (fun before after => after.contents = (Lookup.ofRegistry
        (crossed.registry defaultAuthority) {}).expansion before)
      crossed.namedObjects.schemas later.namedObjects.schemas) :
    ¬ laterGraph.Settled later (.ofRegistry (later.registry defaultAuthority) {}) := by
  intro settled
  obtain ⟨⟨_, a⟩, aIn, rfl, aSame⟩ := ListRel.exists_of_mem_left schemas List.mem_cons_self
  obtain ⟨⟨_, c⟩, cIn, rfl, cSame⟩ :=
    ListRel.exists_of_mem_left schemas (.tail _ (.tail _ List.mem_cons_self))
  have registered : (later.registry defaultAuthority).get?
      (Locator.ofPointer defaultAuthority "#/components/schemas/A") = some a := by
    rw [← componentPointer_a]
    exact Registry.get?_ofSchemas names aIn
  have isExposed : "#/components/schemas/A" ∈ c.exposed := by
    rw [← Schema.exposed_contents, cSame, expansion_pointing, Schema.exposed_contents]
    exact List.mem_singleton.mpr rfl
  have bare : a.pointers = [] := by
    rw [← Schema.pointers_contents, aSame, expansion_crossing, Schema.pointers_contents]
    rfl
  rcases settled _ c (.root (holds_of_mem_schemas cIn)) rfl _ isExposed with never | never | never
  · exact absurd never (by decide)
  · cases registered.symm.trans never
  · exact Lookup.not_cyclic_of_pointers_nil registered bare never

theorem not_settled_link_crossed :
    let first := (crossed.link { schemaCount := 4 } {}).2
    let lookup := Lookup.ofRegistry (first.2.registry defaultAuthority) {}
    ¬ first.1.Settled first.2 lookup :=
  not_settled_crossed (wellFormed_link { schemaCount := 4 } crossed {} wellFormed_crossed).names
    (schemas_link { schemaCount := 4 } crossed {} wellFormed_crossed)

/-- The first run leaves the pointer of `C`, as `A` points to itself.  It also replaces `A`, with
all its pointers, so that the second run finds no cycle and replaces the pointer of `C`. -/
theorem link_twice_crossed :
    let first := (crossed.link { schemaCount := 4 } {}).2
    let second := (first.2.link first.1 {}).2
    ¬ Walked (.ofSchemas fun before after => after.contents = before.contents)
      first.1 first.2 second.1 second.2 :=
  fun alike => not_settled_link_crossed
    (settled_of_link_alike { schemaCount := 4 } crossed {} wellFormed_crossed alike)

end

end Document

end ApiLinker
