import ApiLinker.Proofs.Index
import ApiLinker.Proofs.Linking.Expanded
import ApiLinker.Proofs.Linking.Matching

/-!
Strict settings.

Strict or not, a document is linked alike: the settings only decide whether external references are
reported.  In both cases these stay as they are, those of edges and those of schemas.
-/

namespace ApiLinker

def Problem.isExternal : Problem → Bool
  | .externalReference _ | .externalSchema _ => true
  | .notFound _ _ | .categoryMismatch _ _ | .schemaNotFound _ _ => false

theorem Problem.isExternal_withHost (host : Option String) (problem : Problem) :
    (problem.withHost host).isExternal = problem.isExternal := by
  cases host <;> cases problem <;> rfl

theorem Index.isExternal_of_resolve {index : Index} {category : Category} {reference : Reference}
    {problem : Problem} (failed : index.resolve category reference = .error problem) :
    problem.isExternal = false := by
  obtain rfl | rfl := Index.eq_of_resolve_error failed <;> rfl

/-- A schema hangs inside another, at the end of a path on which no node has a pointer. -/
inductive Schema.Exposes (inner : Schema) : Schema → List Slot → Prop where
  | here : Exposes inner inner []
  | inside {id : Nat} {body : SchemaBody Schema} {slot : Slot} {child : Schema} {path : List Slot}
      (plain : body.reference = none) (member : (slot, child) ∈ body.children.visits)
      (deeper : Exposes inner child path) : Exposes inner (.node id body) (slot :: path)

/-- Changes that leave external references alone. -/
def Change.keepsExternal : Change where
  edge _ before after := ∀ reference, before = .placeholder reference →
    reference.isExternal = true → after = before
  tag before after := ∀ reference, before = .placeholder reference →
    reference.isExternal = true → after = before
  schema before after := ∀ id (body : SchemaBody Schema) path pointer,
    Schema.Exposes (.node id body) before path → body.reference = some pointer →
    Reference.isExternal { pointer } = true →
    ∃ kept, Schema.Exposes kept after path ∧ kept.contents = (Schema.node id body).contents

theorem Schema.Exposes.of_expansion {lookup : Lookup} {id : Nat} {body : SchemaBody Schema}
    {pointer : String} (points : body.reference = some pointer)
    (stays : lookup.target? pointer = none) {before : Schema} {path : List Slot}
    (exposes : Exposes (.node id body) before path) :
    ∀ after : Schema, after.contents = lookup.expansion before →
      ∃ kept, Exposes kept after path ∧ kept.contents = (Schema.node id body).contents := by
  induction exposes with
  | here =>
      intro after expands
      exact ⟨after, .here, expands.trans (Lookup.expansion_stays points stays)⟩
  | @inside outerId outer slot child path plain member _ ih =>
      rintro ⟨afterId, afterBody⟩ expands
      rw [contents_node, Lookup.expansion_plain plain] at expands
      have bodies : afterBody.map contents = outer.map lookup.expansion :=
        (Schema.node.inj expands).2
      have plainAfter : afterBody.reference = none :=
        (congrArg SchemaBody.reference bodies).trans plain
      have visits := congrArg (fun body : SchemaBody Schema => body.children.visits) bodies
      simp only [SchemaBody.children_map, Subschemas.visits_map] at visits
      have expanded : (slot, lookup.expansion child) ∈
          afterBody.children.visits.map fun visit => (visit.1, visit.2.contents) := by
        rw [visits]
        exact List.mem_map_of_mem (f := fun visit => (visit.1, lookup.expansion visit.2)) member
      obtain ⟨⟨_, childAfter⟩, memberAfter, same⟩ := List.mem_map.mp expanded
      obtain ⟨rfl, expandsChild⟩ := Prod.mk.inj same
      obtain ⟨kept, exposed, contents⟩ := ih childAfter expandsChild
      exact ⟨kept, .inside plainAfter memberAfter exposed, contents⟩

namespace Linker

variable {index : Index} {category : Category} {before after : Edge} {reference : Reference}

theorem eq_of_links_of_external (links : index.Links category before after)
    (placeholder : before = .placeholder reference) (isExternal : reference.isExternal = true) :
    after = before := by
  cases links with
  | found isLocal =>
      cases placeholder
      cases isLocal.symm.trans isExternal
  | _ => rfl

theorem eq_of_linksTag_of_external {linker : Linker} {graph : Graph}
    (links : linker.LinksTag graph before after)
    (placeholder : before = .placeholder reference) (isExternal : reference.isExternal = true) :
    after = before := by
  cases links with
  | lookedUp _ links => exact eq_of_links_of_external links placeholder isExternal
  | madeUp missing =>
      cases placeholder
      cases missing.2.1.symm.trans isExternal

theorem walk_keepsExternal {graph : Graph} {document : Document} (index : Index)
    (settings : Settings) (wellFormed : graph.WellFormed document) :
    Walked .keepsExternal graph document
      ((ofDocument index document settings).walk graph document).2.1
      ((ofDocument index document settings).walk graph document).2.2 := by
  obtain ⟨_, laterNodes, _, _, _, toured⟩ := toured_of_wellFormed index settings wellFormed
  have keeps : ∀ {before after : Schema},
      (ofDocument index document settings).lookup.Expands laterNodes before after →
      Change.keepsExternal.schema before after := by
    intro before after expands id body path pointer exposes points isExternal
    refine exposes.of_expansion points ?_ after expands.2
    rw [Lookup.target?_eq_none_iff linked_ofDocument]
    exact .inl isExternal
  refine toured.walked.imp ?_
  intro held result allowed
  cases allowed with
  | edge links => exact .edge fun _ => eq_of_links_of_external links
  | tag links => exact .tag fun _ => eq_of_linksTag_of_external links
  | schema expands => exact .schema (keeps expands)
  | namedSchema expands => exact .namedSchema (keeps expands)

/-- What is told where external references are not reported. -/
def tellLocal (problem : Problem) : Option Problem :=
  if problem.isExternal then none else some problem

theorem told_tellLocal (diagnostics : List Diagnostic) :
    Diagnostic.told tellLocal diagnostics =
      diagnostics.filter fun diagnostic => !diagnostic.problem.isExternal := by
  rw [Diagnostic.told, ← List.filterMap_eq_filter]
  refine List.filterMap_congr fun diagnostic _ => ?_
  cases isExternal : diagnostic.problem.isExternal <;>
    simp [tellLocal, isExternal, Option.guard]

theorem matches_strict (index : Index) (document : Document) (settings : Settings) :
    (ofDocument index document { settings with strict := false }).Matches some tellLocal
      (ofDocument index document { settings with strict := true }) where
  index := rfl
  synthesizeMissingTags := rfl
  lookup := {
    depth := rfl
    locator := fun _ _ => Iff.rfl
    registry := fun _ => rfl
    isCyclic := fun _ => rfl
    missing := fun _ => rfl
    external := fun _ => rfl }
  external _ := rfl
  component category reference problem failed := by
    rw [tellLocal, Index.isExternal_of_resolve failed]
    rfl

end Linker

namespace Document

/-- Being strict changes nothing but what is reported: the reports on external references come in
between the others.  External references stay as they are. -/
theorem link_strict (graph : Graph) (document : Document) (settings : Settings) :
    let lenient := document.link graph { settings with strict := false }
    let strict := document.link graph { settings with strict := true }
    lenient.2 = strict.2 ∧
      lenient.1 = strict.1.filter (fun diagnostic => !diagnostic.problem.isExternal) ∧
      (graph.WellFormed document →
        Walked .keepsExternal graph document strict.2.1 strict.2.2) := by
  intro lenient strict
  obtain ⟨linked, told⟩ := link_eq_of_matches graph document _ _
    (Linker.matches_strict (.ofDocument graph document) document settings)
    (fun _ _ => rfl) (fun host problem => by
      rw [Linker.tellLocal, Linker.tellLocal, Problem.isExternal_withHost]
      split <;> rfl)
  refine ⟨linked, ?_, fun wellFormed => Linker.walk_keepsExternal _ _ wellFormed⟩
  have every : Diagnostic.told some lenient.1 = lenient.1 :=
    (Diagnostic.told_some id lenient.1).trans (List.map_id lenient.1)
  exact every.symm.trans (told.trans (Linker.told_tellLocal strict.1))

/-- A schema that points into another document. -/
def pointingOut : Document :=
  .ofSchemas [("A", .node 0 (.pointer "other.json#/X"))]

theorem wellFormed_pointingOut : Graph.WellFormed { schemaCount := 1 } pointingOut := by
  refine wellFormed_ofSchemas [.node 0 (.pointer "other.json#/X")] (by decide) fun entry member => ?_
  simp only [List.mem_singleton] at member
  subst member
  exact Schema.isIn_of_childless rfl rfl

theorem link_strict_pointingOut :
    let strict := pointingOut.link { schemaCount := 1 } { strict := true }
    Graph.WellFormed { schemaCount := 1 } pointingOut ∧
      strict.1 = [⟨["components", "schemas", "A"], .externalSchema "other.json#/X"⟩] ∧
      Walked .keepsExternal { schemaCount := 1 } pointingOut strict.2.1 strict.2.2 :=
  ⟨wellFormed_pointingOut, by decide +kernel,
    (link_strict { schemaCount := 1 } pointingOut {}).2.2 wellFormed_pointingOut⟩

end Document

end ApiLinker
