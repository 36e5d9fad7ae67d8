import ApiLinker.Proofs.Linking.Reach
import ApiLinker.Proofs.Schema.Registered
import ApiLinker.Proofs.Schema.Sharing

/-!
Well-formed documents.

In a document the names of its schemas are different, and nodes with one number are one object.
Nothing else is asked of the schemas a walk starts from.  A document that is read is well-formed
(`Document.wellFormed_of_parse`), and a walk leaves it so (`Linker.wellFormed_walk`).
-/

namespace ApiLinker

def Graph.HoldsSchema (graph : Graph) (document : Document) (schema : Schema) : Prop :=
  ∃ held, graph.Has document held ∧ held.schema? = some schema

structure Graph.WellFormed (graph : Graph) (document : Document) : Prop where
  names : document.namedObjects.schemas.names.Nodup
  /-- Every number below the count stands for one node at most, and no other number for any. -/
  nodes : ∃ nodes : NodeTable, nodes.Bounded graph.schemaCount ∧
    ∀ schema, graph.HoldsSchema document schema → schema.IsIn nodes

def Document.ofSchemas (schemas : Table Schema) : Document where
  components := some { schemas }

theorem Schema.isIn_of_childless {nodes : NodeTable} {id : Nat} {body : SchemaBody Schema}
    (childless : body.children.list = []) (found : nodes id = some (.node id body)) :
    (Schema.node id body).IsIn nodes :=
  isIn_node.mpr ⟨found, by simp [childless]⟩

theorem Document.wellFormed_ofSchemas {schemas : Table Schema} (nodes : List Schema)
    (names : schemas.names.Nodup) (isIn : ∀ entry ∈ schemas, entry.2.IsIn fun id => nodes[id]?) :
    Graph.WellFormed { schemaCount := nodes.length } (ofSchemas schemas) where
  names := names
  nodes := by
    refine ⟨fun id => nodes[id]?, fun id above => List.getElem?_eq_none above, ?_⟩
    intro schema holds
    obtain ⟨held, has, isSchema⟩ := holds
    cases has with
    | root holds =>
        obtain ⟨entry, member, rfl⟩ := mem_schemas_of_holds holds isSchema
        exact isIn entry member
    | inside found => simp [Graph.entity?] at found

/-- One named schema that points to another. -/
def Document.aliased : Document :=
  .ofSchemas [("A", .node 0 (.pointer "#/components/schemas/B")), ("B", .node 1 (.typed "string"))]

theorem Document.wellFormed_aliased : Graph.WellFormed { schemaCount := 2 } aliased := by
  refine wellFormed_ofSchemas
    [.node 0 (.pointer "#/components/schemas/B"), .node 1 (.typed "string")] (by decide) ?_
  intro entry member
  simp only [List.mem_cons, List.not_mem_nil, or_false] at member
  rcases member with rfl | rfl <;> exact Schema.isIn_of_childless rfl rfl

section

variable {name : String} {schema : Schema}

theorem Document.holds_of_mem_schemas {document : Document}
    (member : (name, schema) ∈ document.namedObjects.schemas) :
    document.Holds (.namedSchema name schema) := by
  cases found : document.components with
  | none => simp [namedObjects, found] at member
  | some components =>
      rw [namedObjects, found] at member
      have inside := Components.Holds.schema member
      exact .component found inside

theorem Document.Changes.schemas {change : Change} {before after : Document}
    (changes : before.Changes change after) :
    Table.Rel change.schema before.namedObjects.schemas after.namedObjects.schemas := by
  have components := changes.components
  simp only [namedObjects]
  cases isBefore : before.components <;> cases isAfter : after.components <;>
    rw [isBefore, isAfter] at components <;> cases components
  · exact .nil
  · rename_i changes
    exact changes.schemas

/-- A tour comes to named schemas at the document only. -/
theorem Graph.mem_schemas_of_stop {graph : Graph} {index : Index} {document : Document}
    {already : List EntityId} {stop : Stop} (met : stop ∈ (graph.tour index already document).1)
    (held : stop.held = .namedSchema name schema) :
    (name, schema) ∈ document.namedObjects.schemas := by
  refine held_of_stop (P := fun held => ∀ name schema, held = .namedSchema name schema →
    (name, schema) ∈ document.namedObjects.schemas) ?_ ?_ stop met name schema held
  · intro held holds name schema same
    subst same
    rcases Document.ordinary_of_holds holds with never | ⟨_, _, same, member⟩
    · cases never
    · cases same
      exact member
  · intro _ _ _ entity _ _ _ _ held holds name schema same
    subst same
    exact absurd (Entity.ordinary_of_holds holds) not_false

/-- All schemas that a tour comes to are held in the graph. -/
theorem Graph.holdsSchema_of_stop {graph : Graph} {index : Index} {document : Document}
    {already : List EntityId} {stop : Stop} (met : stop ∈ (graph.tour index already document).1)
    (isSchema : stop.held.schema? = some schema) : graph.HoldsSchema document schema := by
  refine held_of_stop (P := fun held => ∀ schema, held.schema? = some schema →
    graph.HoldsSchema document schema) ?_ ?_ stop met schema isSchema
  · exact fun held holds schema isSchema => ⟨held, .root holds, isSchema⟩
  · exact fun _ _ id entity _ _ _ found held holds schema isSchema =>
      ⟨held, .inside found holds, isSchema⟩

end

namespace Linker

open ApiLinker.Graph

variable {graph : Graph} {document : Document} {index : Index} {settings : Settings}

/-- The linker of a document, with an index of any kind. -/
def ofDocument (index : Index) (document : Document) (settings : Settings) : Linker :=
  .new index (document.registry settings.schemaAuthority) settings

theorem linked_ofDocument : (ofDocument index document settings).lookup.Linked :=
  Lookup.linked_ofRegistry _ _

/-- All schemas of a well-formed document can be expanded, in the order of a tour. -/
theorem expandable_of_wellFormed {nodes : NodeTable}
    (distinct : document.namedObjects.schemas.names.Nodup)
    (isIn : ∀ schema, graph.HoldsSchema document schema → schema.IsIn nodes) :
    (ofDocument index document settings).Expandable
      (ofDocument index document settings).lookup.rules
      (ofDocument index document settings).lookup.Expands nodes
      (graph.tour index [] document).1 where
  blind _ _ _ _ described := described
  stable := Lookup.stable_expands
  slot stop met schema held later state grows described := by
    have inGraph := isIn schema (holdsSchema_of_stop met (by rw [held]; rfl))
    exact Lookup.yields_expand linked_ofDocument described (inGraph.mono grows) stop.path
  named stop met name schema held later state grows described := by
    exact Lookup.yields_expandNamed linked_ofDocument described
      (Registry.get?_ofSchemas distinct (mem_schemas_of_stop met held)) stop.path

theorem sound_first {nodes : NodeTable} (bounded : nodes.Bounded graph.schemaCount)
    (isIn : ∀ schema, graph.HoldsSchema document schema → schema.IsIn nodes) :
    (ofDocument index document settings).lookup.Sound nodes graph.schemaCount [] where
  bounded := bounded
  registered locator schema registered := by
    obtain ⟨⟨name, named⟩, member, within⟩ := Registry.mem_nodes_of_get?_ofSchemas registered
    exact (isIn named ⟨_, .root (Document.holds_of_mem_schemas member), rfl⟩).of_mem_nodes within
  stored _ _ found := by cases found

/-- A walk gives every schema the contents of its expansion, and only nodes with numbers of their
own are new. -/
theorem toured_of_wellFormed (index : Index) (settings : Settings)
    (wellFormed : graph.WellFormed document) :
    let linker := ofDocument index document settings
    let laterGraph := (linker.walk graph document).2.1
    let later := (linker.walk graph document).2.2
    ∃ nodes laterNodes : NodeTable, NodeTable.Grows nodes laterNodes ∧
      laterNodes.Bounded laterGraph.schemaCount ∧
      (∀ schema, graph.HoldsSchema document schema → schema.IsIn nodes) ∧
      linker.Toured (linker.change laterGraph (linker.lookup.Expands laterNodes)) graph document
        laterGraph later := by
  intro linker laterGraph later
  obtain ⟨nodes, bounded, isIn⟩ := wellFormed.nodes
  obtain ⟨laterNodes, grows, sound, toured⟩ := toured_of_expandable linker graph document rfl rfl
    (expandable_of_wellFormed wellFormed.names isIn) (sound_first bounded isIn)
  refine ⟨nodes, laterNodes, grows, ?_, isIn, toured⟩
  rw [show laterGraph.schemaCount = (linker.visits graph document).2.graph.schemaCount from by
    rw [show laterGraph = _ from walk_graph rfl, schemaCount_foldl_relinkEntity]]
  exact sound.bounded

/-- A walk leaves a well-formed document well-formed. -/
theorem wellFormed_walk (index : Index) (settings : Settings)
    (wellFormed : graph.WellFormed document) :
    ((ofDocument index document settings).walk graph document).2.1.WellFormed
      ((ofDocument index document settings).walk graph document).2.2 := by
  obtain ⟨nodes, laterNodes, grows, bounded, isIn, toured⟩ :=
    toured_of_wellFormed index settings wellFormed
  have known : ∀ {origin held : Held} {graph : Graph} {schema : Schema},
      ((ofDocument index document settings).change graph
        ((ofDocument index document settings).lookup.Expands laterNodes)).Allows origin held →
      held.schema? = some schema → schema.IsIn laterNodes := by
    intro origin held graph schema allowed isSchema
    obtain ⟨_, _, expands⟩ := allowed.schema_before isSchema
    exact expands.1
  constructor
  · rw [toured.root.schemas.names_eq]
    exact wellFormed.names
  · refine ⟨laterNodes, bounded, fun schema holds => ?_⟩
    obtain ⟨held, has, isSchema⟩ := holds
    cases has with
    | root holds =>
        obtain ⟨origin, _, allowed⟩ := toured.root.held_before holds
        exact known allowed isSchema
    | @inside id entity found holds =>
        rcases toured.entity_before found with ⟨before, old, changes | rfl⟩ | ⟨_, tag, rfl⟩
        · obtain ⟨origin, _, allowed⟩ := changes.held_before holds
          exact known allowed isSchema
        · exact (isIn schema ⟨held, .inside old holds, isSchema⟩).mono grows
        · cases holds

end Linker

end ApiLinker
