import ApiLinker.Proofs.Linking.WellFormed
import ApiLinker.Proofs.Schema.Settled

/-!
Walks that change nothing.

Where every edge and every schema that a walk comes to is settled, the walk ends with the document
and the graph it started from and counts no link.
-/

namespace ApiLinker

open ApiLinker.Graph

/-- The linker has no edge to change at what is held. -/
structure Linker.SettlesEdges (linker : Linker) (held : Held) : Prop where
  edge : ∀ category reference, held = .edge category (.placeholder reference) →
    reference.isExternal = true ∨
      ∃ problem, linker.index.resolve category reference = .error problem
  tag : ∀ reference, held = .tag (.placeholder reference) → ¬ linker.MakesUp reference ∧
    (reference.isExternal = true ∨
      ∃ problem, linker.index.resolve .tags reference = .error problem)

/-- The linker has nothing to change at what is held. -/
structure Linker.Settles (linker : Linker) (held : Held) : Prop
    extends linker.SettlesEdges held where
  schema : ∀ schema, held.schema? = some schema → schema.Settled linker.lookup

theorem Graph.ext_entity? {left right : Graph} (size : left.size = right.size)
    (schemaCount : left.schemaCount = right.schemaCount)
    (entities : ∀ id entity, right.entity? id = some entity → left.entity? id = some entity) :
    left = right := by
  cases left
  cases right
  simp only [Graph.mk.injEq]
  refine ⟨Array.ext size fun id leftBound rightBound => ?_, schemaCount⟩
  have found := entities id _ (Array.getElem?_eq_getElem rightBound)
  simpa [Graph.entity?, leftBound] using found

namespace Linker

/-- The rules for visits that change nothing. -/
def still (linker : Linker) (graph : Graph) (schemas : Table Schema) : Rules Unit Progress where
  grows _ _ := True
  refl _ := trivial
  trans _ _ := trivial
  describes _ progress := progress.graph = graph ∧ progress.synthesized = [] ∧
    (linker.lookup.still schemas graph.schemaCount linker.linkCount).describes () progress.expansion

variable {linker : Linker} {graph : Graph} {schemas : Table Schema} {progress : Progress}

theorem yields_visitReference_settled {category : Category} {reference : Reference}
    (unresolved : reference.isExternal = true ∨
      ∃ problem, linker.index.resolve category reference = .error problem)
    (described : (linker.still graph schemas).describes () progress) (path : List String) :
    (linker.still graph schemas).Yields (linker.visitReference path category reference)
      (fun _ _ => True) () progress := by
  rw [visitReference]
  split
  · split
    · exact ⟨(), trivial, described, trivial⟩
    · exact Rules.yields_pure described trivial
  · rename_i isLocal
    rcases unresolved with isExternal | ⟨problem, failed⟩
    · exact absurd isExternal isLocal
    · simp only [failed]
      exact ⟨(), trivial, described, trivial⟩

theorem yields_visitTagReference_settled {reference : Reference}
    (known : ¬ linker.MakesUp reference)
    (unresolved : reference.isExternal = true ∨
      ∃ problem, linker.index.resolve .tags reference = .error problem)
    (described : (linker.still graph schemas).describes () progress) (path : List String) :
    (linker.still graph schemas).Yields (linker.visitTagReference path reference)
      (fun _ _ => True) () progress := by
  rw [visitTagReference]
  split
  · exact yields_visitReference_settled unresolved described path
  · rename_i asked
    simp only [Bool.or_eq_true, Bool.not_eq_true', not_or, Bool.not_eq_true,
      Bool.not_eq_false] at asked
    rcases unresolved with isExternal | ⟨problem, failed⟩
    · cases asked.1.symm.trans isExternal
    · simp only [failed]
      split
      · rename_i resolved
        cases resolved
      · rename_i category other resolved
        cases resolved
        exact absurd ⟨asked.2, asked.1, category, other, failed⟩ known
      · exact ⟨(), trivial, described, trivial⟩

section

variable (linked : linker.lookup.Linked)
    (registered : ∀ entry ∈ schemas, ∃ schema, linker.lookup.registry.get?
      (Locator.ofPointer linker.lookup.authority (Registry.componentPointer entry.1)) = some schema)
    (distinct : schemas.names.Nodup)
include linked registered distinct

theorem yields_visit_settled (described : (linker.still graph schemas).describes () progress)
    {stop : Stop} (settles : linker.Settles stop.held)
    (named : ∀ name schema, stop.held = .namedSchema name schema → (name, schema) ∈ schemas) :
    (linker.still graph schemas).Yields (linker.visit stop)
      (fun _ => Option.Rel Eq stop.held.schema?) () progress := by
  cases held : stop.held with
  | edge category edge =>
      cases edge with
      | placeholder reference =>
          simp only [visit, held]
          exact (yields_visitReference_settled (settles.edge _ _ held) described stop.path).bind
            fun _ _ _ _ described _ => Rules.yields_pure described .none
      | linked | inline =>
          simp only [visit, held]
          exact Rules.yields_pure described .none
  | tag edge =>
      cases edge with
      | placeholder reference =>
          obtain ⟨known, unresolved⟩ := settles.tag _ held
          simp only [visit, held]
          exact (yields_visitTagReference_settled known unresolved described stop.path).bind
            fun _ _ _ _ described _ => Rules.yields_pure described .none
      | linked | inline =>
          simp only [visit, held]
          exact Rules.yields_pure described .none
  | schema schema =>
      simp only [visit, held]
      obtain ⟨_, _, still, same⟩ := Lookup.yields_expand_settled linked registered described.2.2
        (settles.schema schema (by rw [held]; rfl)) stop.path
      refine ⟨(), trivial, ⟨?_, described.2.1, still⟩, .some same.symm⟩
      exact congrArg₂ Graph.mk (congrArg Graph.entities described.1) still.1
  | namedSchema name schema =>
      simp only [visit, held]
      obtain ⟨_, _, still, same⟩ := Lookup.yields_expandNamed_settled linked registered distinct
        described.2.2 (named name schema held) (settles.schema schema (by rw [held]; rfl)) stop.path
      refine ⟨(), trivial, ⟨?_, described.2.1, still⟩, .some same.symm⟩
      exact congrArg₂ Graph.mk (congrArg Graph.entities described.1) still.1

theorem yields_visits_settled (described : (linker.still graph schemas).describes () progress)
    {stops : List Stop} (settles : ∀ stop ∈ stops, linker.Settles stop.held)
    (named : ∀ stop ∈ stops, ∀ name schema, stop.held = .namedSchema name schema →
      (name, schema) ∈ schemas) :
    (linker.still graph schemas).Yields (stops.mapM linker.visit)
      (fun _ => List.Forall₂ (fun stop => Option.Rel Eq stop.held.schema?) stops) () progress :=
  Rules.yields_mapM (fun _ _ _ _ _ holds => holds) (fun stop met _ _ _ described =>
    yields_visit_settled linked registered distinct described (settles stop met) (named stop met))
    described

end

theorem SettlesEdges.link_eq {category : Category} {edge : Edge}
    (settles : linker.SettlesEdges (.edge category edge)) :
    linker.index.link category edge = edge := by
  cases edge with
  | linked | inline => rfl
  | placeholder reference =>
      rcases settles.edge _ _ rfl with isExternal | ⟨problem, failed⟩
      · simp [Index.link, isExternal]
      · simp [Index.link, failed]

theorem SettlesEdges.implies {R : Schema → Schema → Prop} {held : Held}
    (settles : linker.SettlesEdges held) :
    (linker.change graph R).Implies (.ofSchemas R) held := by
  intro result allowed
  cases allowed with
  | edge links => exact .edge (settles.link_eq.symm.trans links.eq_link.symm)
  | @tag before after links =>
      refine .tag ?_
      cases links with
      | madeUp missing _ => exact absurd missing (settles.tag _ rfl).1
      | lookedUp _ links =>
          have untagged : linker.SettlesEdges (.edge .tags before) := {
            edge := fun _ reference same => by cases same; exact (settles.tag reference rfl).2
            tag := fun _ never => by cases never }
          exact untagged.link_eq.symm.trans links.eq_link.symm
  | schema changes => exact .schema changes
  | namedSchema changes => exact .namedSchema changes

theorem size_foldl_relinkEntity {edges : EdgeMap} {results : List (Stop × Option Schema)}
    (ids : List EntityId) (graph : Graph) :
    (ids.foldl (relinkEntity edges results) graph).size = graph.size := by
  induction ids generalizing graph with
  | nil => rfl
  | cons first rest ih =>
      rw [List.foldl_cons, ih, relinkEntity]
      split
      · exact graph.size_replace _ _
      · rfl

variable {document : Document}

/-- Visits that change nothing make nothing up either. -/
theorem describes_of_still (still : (linker.still graph schemas).describes () progress) :
    Visiting.Describes graph linker.synthesizeMissingTags (fun _ => none) progress := by
  obtain ⟨sameGraph, unmade, _⟩ := still
  exact {
    size := Nat.le_of_eq (congrArg Graph.size sameGraph.symm)
    kept := fun id _ => by rw [sameGraph]
    added := fun id entity isNew found => by
      rw [sameGraph] at found
      exact absurd (lt_size_of_entity? found) (Nat.not_lt.mpr isNew)
    synthesized := fun _ => by rw [unmade]; rfl
    bare := fun _ _ found => by cases found }

/-- A graph in which nothing changes and nothing is added is the graph that it was. -/
theorem Toured.graph_eq {laterGraph : Graph} {later : Document}
    (toured : linker.Toured .none graph document laterGraph later)
    (size : laterGraph.size = graph.size) (schemaCount : laterGraph.schemaCount = graph.schemaCount) :
    laterGraph = graph := by
  refine Graph.ext_entity? size schemaCount fun id entity found => ?_
  obtain ⟨after, isAfter, changes | rfl⟩ := toured.entity_after found
  · rw [isAfter, changes.eq]
  · exact isAfter

theorem walk_of_settled (unentered : linker.entered = []) (unmade : linker.synthesized = [])
    (unexpanded : linker.expanded = []) (linked : linker.lookup.Linked)
    (registered : ∀ entry ∈ document.namedObjects.schemas, ∃ schema, linker.lookup.registry.get?
      (Locator.ofPointer linker.lookup.authority (Registry.componentPointer entry.1)) = some schema)
    (distinct : document.namedObjects.schemas.names.Nodup)
    (settles : ∀ stop ∈ (graph.tour linker.index [] document).1, linker.Settles stop.held) :
    (linker.walk graph document).2 = (graph, document) ∧
      (linker.walk graph document).1.linkCount = linker.linkCount := by
  have first : (linker.still graph document.namedObjects.schemas).describes ()
      (linker.firstProgress graph) := by
    refine ⟨rfl, unmade, rfl, rfl, fun locator schema found => ?_⟩
    simp only [firstProgress, Progress.expansion, unexpanded] at found
    cases found
  obtain ⟨_, _, still, answered⟩ := yields_visits_settled linked registered distinct first settles
    fun _ met _ _ held => mem_schemas_of_stop met held
  rw [← visits_eq unentered] at still answered
  have answers : List.Forall₂ (linker.Answers (fun _ : Unit => Eq) (fun _ => none, ()))
      (graph.tour linker.index [] document).1 (linker.visits graph document).1 :=
    ListRel.imp_of_mem answered fun stop met result same =>
      ⟨same, fun reference held missing => absurd missing ((settles stop met).tag reference held).1⟩
  have toured : linker.Toured .none graph document (linker.walk graph document).2.1
      (linker.walk graph document).2.2 :=
    (toured_walk unentered (describes_of_still still) answers).imp
      fun stop met => (settles stop met).implies
  obtain ⟨sameGraph, _, _, sameReplaced, _⟩ := still
  have sameAll : (linker.walk graph document).2.1 = graph := by
    refine toured.graph_eq ?_ ?_
    · rw [walk_graph unentered, size_foldl_relinkEntity, sameGraph]
    · rw [walk_graph unentered, schemaCount_foldl_relinkEntity, sameGraph]
  exact ⟨Prod.ext sameAll toured.root.eq.symm, sameReplaced⟩

end Linker

end ApiLinker
