import ApiLinker.Proofs.Format.Mirrored
import ApiLinker.Proofs.Linking.Corresponding
import ApiLinker.Proofs.Linking.Problems
import ApiLinker.Proofs.Linking.Rearranged
import ApiLinker.Proofs.Linking.Reparsed

/-!
Linking does not depend on the order of tables.

A walk through a document in another order looks the same things up, only in another order.  What
it finds has other numbers but is otherwise the same, so that the same problems are reported, each
as often (`Linker.problems_perm`), and what becomes of the document is written the same but for the
order of members (`Document.link_reordered`).
-/

namespace ApiLinker

open ListRel

namespace Linker

open ApiLinker.Graph

/-- The other linker looks up the same, under the other numbers of entities. -/
structure Renames (f : EntityId → EntityId) (linker other : Linker) : Prop where
  index : linker.index.Renames f other.index
  lookup : linker.lookup.Corresponds Schema.Reorders other.lookup
  synthesizes : other.synthesizeMissingTags = linker.synthesizeMissingTags

variable {f : EntityId → EntityId} {linker other : Linker}

namespace Renames

variable (renames : linker.Renames f other)
include renames

theorem makesUp_iff {reference : Reference} :
    other.MakesUp reference ↔ linker.MakesUp reference := by
  simp only [MakesUp, renames.synthesizes, renames.index.resolve_error_iff]

theorem problem?_component (category : Category) (reference : Reference) :
    other.problem? (.component category reference) =
      linker.problem? (.component category reference) := by
  simp only [problem?, renames.lookup.strict, renames.index.problem?_eq]

theorem problem?_tag (reference : Reference) :
    other.problem? (.tag reference) = linker.problem? (.tag reference) := by
  simp only [problem?, renames.lookup.strict, renames.index.problem?_eq, renames.synthesizes]

theorem problem?_schema : other.lookup.problem? = linker.lookup.problem? :=
  funext renames.lookup.problem?_eq

/-- The same is wrong with things that are the same but for their order. -/
theorem problems_perm {before after : Held} (allowed : (Change.renaming f).Allows before after) :
    (linker.problems before).Perm (other.problems after) := by
  cases allowed with
  | @edge category edge _ same =>
      subst same
      cases edge with
      | placeholder reference =>
          simp only [Edge.rename, problems, renames.problem?_component, List.Perm.refl]
      | linked | inline => exact .nil
  | @tag edge _ same =>
      subst same
      cases edge with
      | placeholder reference =>
          simp only [Edge.rename, problems, renames.problem?_tag, List.Perm.refl]
      | linked | inline => exact .nil
  | schema reorders =>
      simp only [problems, renames.problem?_schema]
      exact (Schema.Reorders.exposed reorders).filterMap _
  | namedSchema => exact .nil

theorem problemsAt_perm (locator : String) :
    (linker.lookup.problemsAt locator).Perm (other.lookup.problemsAt locator) := by
  have related := renames.lookup.registry locator
  rw [Lookup.problemsAt, Lookup.problemsAt, renames.problem?_schema]
  generalize linker.lookup.registry.get? locator = first, other.lookup.registry.get? locator = second
    at related
  cases related with
  | none => exact .nil
  | some reorders => exact (Schema.Reorders.exposed reorders).filterMap _

end Renames

section

variable {graph otherGraph : Graph} {document rearranged : Document}
variable (reorders : graph.Reorders f document otherGraph rearranged)
  (orderly : document.Orderly (Held.Fits graph graph.size)) (settings : Settings)
include reorders orderly

theorem renames_ofDocument (names : document.namedObjects.schemas.names.Nodup) :
    (ofDocument (.ofDocument graph document) document settings).Renames f
      (ofDocument (.ofDocument otherGraph rearranged) rearranged settings) where
  index := Index.renames_ofDocument reorders orderly
  lookup := Lookup.corresponds_ofSchemas names
    (fun entry member => by
      cases orderly.fits_of_holds (Document.holds_of_mem_schemas member) with
      | namedSchema distinct => exact distinct)
    reorders.root.namedObjects.schemas
  synthesizes := rfl

/-- Walks through documents in another order report the same problems, each as often. -/
theorem problems_perm (names : document.namedObjects.schemas.names.Nodup) :
    let linker := ofDocument (.ofDocument graph document) document settings
    let other := ofDocument (.ofDocument otherGraph rearranged) rearranged settings
    ((linker.walk graph document).1.diagnostics.map Diagnostic.problem).Perm
      ((other.walk otherGraph rearranged).1.diagnostics.map Diagnostic.problem) := by
  intro linker other
  have renames : linker.Renames f other := renames_ofDocument reorders orderly settings names
  have schemas := reorders.root.namedObjects.schemas
  have namesToo := schemas.names_perm.nodup_iff.mp names
  obtain ⟨opened, distinct, isOpened, reported⟩ :=
    problems_of_walk graph (.ofDocument graph document) settings names
  obtain ⟨openedToo, distinctToo, isOpenedToo, reportedToo⟩ :=
    problems_of_walk otherGraph (.ofDocument otherGraph rearranged) settings namesToo
  have sameOpened : opened.Perm openedToo := by
    refine (List.perm_ext_iff_of_nodup distinct distinctToo).mpr fun locator => ?_
    rw [isOpened, isOpenedToo]
    refine or_congr ?_ ⟨?_, ?_⟩
    · simp only [schemas.names_perm.mem_iff]
    · refine renames.lookup.opens linked_ofDocument linked_ofDocument ?_
      rintro schema ⟨stop, met, isSchema⟩
      obtain ⟨counterpart, metToo, allowed⟩ := reorders.stop_after renames.index stop met
      obtain ⟨after, isSchemaToo, related⟩ := allowed.schema_after isSchema
      exact ⟨after, ⟨counterpart, metToo, isSchemaToo⟩, related⟩
    · refine renames.lookup.flip.opens linked_ofDocument linked_ofDocument ?_
      rintro schema ⟨counterpart, met, isSchema⟩
      obtain ⟨stop, metToo, allowed⟩ := reorders.stop_before renames.index counterpart met
      obtain ⟨before, isSchemaToo, related⟩ := allowed.schema_before isSchema
      exact ⟨before, ⟨stop, metToo, isSchemaToo⟩, related⟩
  have atStops := (reorders.tour_permuted renames.index).perm_flatMap fun _ _ allowed =>
    renames.problems_perm allowed
  have inside : (opened.flatMap linker.lookup.problemsAt).Perm
      (openedToo.flatMap other.lookup.problemsAt) :=
    (permuted_eq_iff.mpr sameOpened).perm_flatMap fun locator _ same =>
      same ▸ renames.problemsAt_perm locator
  have location : rearranged.location = document.location := by rw [reorders.root.rest]
  refine (reported.trans ?_).trans reportedToo.symm
  rw [location]
  exact (atStops.append inside).map _

end

end Linker

section

/-- The edge holds nothing that is not there. -/
def Edge.Within (edge : Edge) (size : Nat) : Prop :=
  ∀ id, edge = .inline id → id < size

theorem Edge.Within.lt {id size : Nat} (within : (Edge.inline id).Within size) : id < size :=
  within id rfl

/-- The change, of edges that hold nothing that is not there. -/
def Change.within (change : Change) (size : Nat) : Change where
  edge category before after := change.edge category before after ∧ before.Within size
  tag before after := change.tag before after ∧ before.Within size
  schema := change.schema

theorem Change.implies_within {change : Change} {graph : Graph} {bound : Nat} {held : Held}
    (fits : held.Fits graph bound) : change.Implies (change.within graph.size) held := by
  intro after allowed
  cases allowed with
  | edge changes =>
      refine .edge ⟨changes, ?_⟩
      rintro id rfl
      cases fits with
      | inline _ found => exact Graph.lt_size_of_entity? found
  | tag changes =>
      refine .tag ⟨changes, ?_⟩
      rintro id rfl
      cases fits with
      | heldTag found => exact Graph.lt_size_of_entity? found
  | schema changes => exact .schema changes
  | namedSchema changes => exact .namedSchema changes

/-- Edges lead to the same entities, by their other numbers, or to tags that are the same, and
schemas are written the same but for the order of members. -/
def Graph.mirroring (f : EntityId → EntityId) (size : Nat) (graph other : Graph) : Change where
  edge _ before after := after = before.rename f ∧ before.Within size
  tag before after :=
    (after = before.rename f ∧ before.Within size) ∨ graph.MirrorsTag other before after
  schema before after := before.json.Reorders after.json

theorem Index.Links.within {index : Index} {category : Category} {before after : Edge} {size : Nat}
    (links : index.Links category before after) (within : before.Within size) :
    after.Within size := by
  rintro id rfl
  cases links with
  | inline => exact within.lt

end

namespace Linker

section

/-! What becomes of documents in another order. -/

variable {f : EntityId → EntityId} {linker other : Linker} {size : Nat} {later otherLater : Graph}

theorem Renames.squares_change (renames : linker.Renames f other) (linked : linker.lookup.Linked)
    (linkedToo : other.lookup.Linked) (nodes otherNodes : NodeTable) :
    (Change.renaming f).Squares ((linker.change later (linker.lookup.Expands nodes)).within size)
      (other.change otherLater (other.lookup.Expands otherNodes))
      (later.mirroring f size otherLater) where
  edge := by
    rintro category before _ after otherAfter rfl ⟨links, within⟩ linksToo
    refine ⟨?_, links.within within⟩
    rw [linksToo.eq_link, renames.index.link, ← links.eq_link]
  tag := by
    -- A tag is made up for one document exactly if it is for the other.
    rintro before _ after otherAfter rfl ⟨links, within⟩ linksToo
    cases links with
    | lookedUp known links =>
        generalize isOther : before.rename f = counterpart at linksToo
        cases linksToo with
        | lookedUp _ linksToo =>
            refine .inl ⟨?_, links.within within⟩
            rw [linksToo.eq_link, ← isOther, renames.index.link, ← links.eq_link]
        | @madeUp reference _ missing _ =>
            have isBefore := Edge.rename_eq_placeholder_iff.mp isOther
            exact absurd (renames.makesUp_iff.mp missing) (known reference isBefore)
    | @madeUp reference target missing bare =>
        cases linksToo with
        | lookedUp known _ => exact absurd (renames.makesUp_iff.mpr missing) (known reference rfl)
        | madeUp _ bareToo => exact .inr (.held rfl rfl bare bareToo)
  schema before counterpart after otherAfter reorders expands expandsToo := by
    have same : after.contents = linker.lookup.expansion before := expands.2
    have sameToo : otherAfter.contents = other.lookup.expansion counterpart := expandsToo.2
    have expansions := Schema.Reorders.expansion renames.lookup linked linkedToo reorders
    show after.json.Reorders otherAfter.json
    rw [← Schema.json_contents after, ← Schema.json_contents otherAfter, same, sameToo]
    exact expansions.json

theorem squares_none : (Change.renaming f).Squares (Change.none.within size) .none
    (later.mirroring f size otherLater) where
  edge := by
    rintro category before _ _ _ rfl ⟨rfl, within⟩ rfl
    exact ⟨rfl, within⟩
  tag := by
    rintro before _ _ _ rfl ⟨rfl, within⟩ rfl
    exact .inl ⟨rfl, within⟩
  schema := by
    rintro before counterpart _ _ reorders rfl rfl
    exact Schema.Reorders.json reorders

end

section

variable {f : EntityId → EntityId} {linker other : Linker} {size : Nat}
variable {graph otherGraph later otherLater : Graph}
variable {document rearranged linked otherLinked : Document} {nodes otherNodes : NodeTable}

variable (renames : linker.Renames f other)
  (reorders : graph.Reorders f document otherGraph rearranged) (follows : linker.lookup.Linked)
  (followsToo : other.lookup.Linked)
  (orderly : graph.Orderly (Held.Fits graph) document)
  (toured : linker.Toured (linker.change later (linker.lookup.Expands nodes)) graph document later
    linked)
  (touredToo : other.Toured (other.change otherLater (other.lookup.Expands otherNodes)) otherGraph
    rearranged otherLater otherLinked)
include renames reorders follows followsToo orderly toured touredToo

/-- What becomes of an entity, whether it is entered or not, is the same in the other document. -/
theorem entity_mirrored {id : EntityId} {entity : Entity} (below : id < graph.size)
    (found : later.entity? id = some entity) : ∃ counterpart,
    otherLater.entity? (f id) = some counterpart ∧
      entity.Reorders (later.mirroring f graph.size otherLater) counterpart := by
  have origin : graph.entity? id = some graph.entities[id] := Array.getElem?_eq_getElem below
  generalize graph.entities[id] = before at origin
  obtain ⟨after, originToo, related⟩ := reorders.entity_after origin
  have fits : ∀ held, before.Holds held → held.Fits graph id :=
    fun held => (orderly.entity id before origin).fits_of_holds
  by_cases entered : id ∈ (graph.tour linker.index [] document).2
  · obtain ⟨_, isEntity, changes⟩ := toured.entered id entered before origin
    obtain ⟨counterpart, isCounterpart, becomes⟩ :=
      touredToo.entered (f id) ((reorders.entered_iff renames.index).mpr entered) after originToo
    cases found.symm.trans isEntity
    refine ⟨counterpart, isCounterpart, ?_⟩
    exact related.square (renames.squares_change follows followsToo nodes otherNodes)
      (changes.imp fun held holds => Change.implies_within (fits held holds)) becomes
  · -- An entity that is not entered stays as it is, and so does its counterpart.
    have isEntity := toured.kept id before entered origin
    have isCounterpart := touredToo.kept (f id) after
      (fun never => entered ((reorders.entered_iff renames.index).mp never)) originToo
    cases found.symm.trans isEntity
    refine ⟨after, isCounterpart, ?_⟩
    exact related.square squares_none
      ((entity.changes_refl Change.reflexive_none).imp fun held holds =>
        Change.implies_within (fits held holds))
      (after.changes_refl Change.reflexive_none)

theorem mirrors : later.Mirrors otherLater (later.mirroring f graph.size otherLater) where
  reference {_ before _ reference} changes refers := by
    rw [changes.1, Edge.reference?_rename, refers]
  inline {_ id _ _} changes found := by
    obtain ⟨rfl, within⟩ := changes
    obtain ⟨counterpart, foundToo, related⟩ := entity_mirrored renames reorders follows followsToo
      orderly toured touredToo within.lt found
    exact ⟨f id, counterpart, rfl, foundToo, related⟩
  tag {_ before _} fits changes := by
    rcases changes with ⟨rfl, within⟩ | same
    · cases fits with
      | openTag | linkedTag => exact .named rfl rfl
      | @heldTag id tag found =>
          obtain ⟨_, foundToo, related⟩ := entity_mirrored renames reorders follows followsToo
            orderly toured touredToo within.lt found
          cases related
          exact .held rfl rfl found foundToo
    · exact same
  schema := id

theorem document_mirrored :
    linked.Reorders (later.mirroring f graph.size otherLater) otherLinked :=
  reorders.root.square (renames.squares_change follows followsToo nodes otherNodes)
    (toured.root.imp fun _ holds => Change.implies_within (orderly.root.fits_of_holds holds))
    touredToo.root

end

end Linker

namespace Document

variable {text : String} {location : Option String} {graph otherGraph : Graph}
variable {document rearranged : Document} {f : EntityId → EntityId}

/-- A document that was read and any that is the same but for the order of its tables are linked to
documents with the same written form but for the order of members, and the same is wrong with both,
as often.  The other document may have been read from a text in that order, so that its entities and
nodes have other numbers, or be the first one with its tables rearranged. -/
theorem link_reordered (parsed : parse text location {} = .ok (document, graph))
    (wellFormed : otherGraph.WellFormed rearranged)
    (reorders : graph.Reorders f document otherGraph rearranged) (settings : Settings) :
    let linked := document.link graph settings
    let otherLinked := rearranged.link otherGraph settings
    (∃ json otherJson, linked.2.2.write linked.2.1 = .ok json ∧
      otherLinked.2.2.write otherLinked.2.1 = .ok otherJson ∧ json.Reorders otherJson) ∧
    (linked.1.map Diagnostic.problem).Perm (otherLinked.1.map Diagnostic.problem) := by
  intro linked otherLinked
  have orderly := (orderly_of_parse parsed).imp fun _ _ asRead => asRead.fits
  have names := (wellFormed_of_parse parsed).names
  obtain ⟨_, _, _, _, _, toured⟩ := Linker.toured_of_wellFormed (.ofDocument graph document) settings
    (wellFormed_of_parse parsed)
  obtain ⟨_, _, _, _, _, touredToo⟩ :=
    Linker.toured_of_wellFormed (.ofDocument otherGraph rearranged) settings wellFormed
  have renames := Linker.renames_ofDocument reorders orderly.root settings names
  have mirrors := Linker.mirrors renames reorders Linker.linked_ofDocument Linker.linked_ofDocument
    orderly toured touredToo
  have related := Linker.document_mirrored renames reorders Linker.linked_ofDocument
    Linker.linked_ofDocument orderly toured touredToo
  refine ⟨?_, Linker.problems_perm reorders orderly.root settings names⟩
  -- Only tags are new in the graphs, and nothing is held in them, so entities nest as deep as before.
  exact mirrors.document_write (orderly_link parsed settings).entity toured.size_le
    (reorders.size_le.trans touredToo.size_le)
    (toured.orderly_root (distinct_of_expands parsed) orderly (Nat.le_refl _)) related

section

/-! The tables of a document, read in two orders. -/

/-- The same as `headed`, from the last entry of each table to the first. -/
def turned : Document where
  openapi := currentOpenapi
  components := some {
    schemas := [("B", .node 0 (.typed "string")), ("A", .node 1 (.pointer "#/components/schemas/B"))]
    headers := [("now", .placeholder { pointer := "#/components/headers/new" }),
      ("new", .inline 0), ("old", .inline 1)] }
  tags := [.placeholder { pointer := "#/tags/pets" }]

def turnedGraph : Graph where
  entities := #[.header { description := some "New." }, .header { description := some "Old." }]
  schemaCount := 2

def turnedJson : Json :=
  tabledJson (.object [("$ref", .string "#/tags/pets")])
    [("B", .object [("type", .string "string")]),
      ("A", .object [("$ref", .string "#/components/schemas/B")])]
    [("now", .object [("$ref", .string "#/components/headers/new")]),
      ("new", .object [("description", .string "New.")]),
      ("old", .object [("description", .string "Old.")])]

theorem parse_turned : parse turnedJson.compact none {} = .ok (turned, turnedGraph) := by
  have legible : turnedJson.Legible Json.nestingLimit := by
    simp [turnedJson, tabledJson, Json.nestingLimit]
  exact parse_compact legible none rfl

/-- The headers have each other's numbers. -/
theorem reorders_headed : headedGraph.Reorders (Equiv.swap 0 1) headed turnedGraph turned where
  injective := (Equiv.swap 0 1).injective
  root := {
    paths := permuted_nil
    webhooks := permuted_nil
    components := .some {
      schemas := ⟨_, (List.reverse_perm _).symm,
        .cons ⟨rfl, Schema.reorders_renumbered 1 0 _⟩
          (.cons ⟨rfl, Schema.reorders_renumbered 0 1 _⟩ .nil)⟩
      responses := permuted_nil
      parameters := permuted_nil
      examples := permuted_nil
      requestBodies := permuted_nil
      headers := ⟨_, (List.reverse_perm _).symm,
        .cons ⟨rfl, rfl⟩ (.cons ⟨rfl, rfl⟩ (.cons ⟨rfl, rfl⟩ .nil))⟩
      securitySchemes := permuted_nil
      links := permuted_nil
      callbacks := permuted_nil
      pathItems := permuted_nil }
    security := .nil
    tags := .cons rfl .nil
    rest := rfl }
  entity
    | 0 | 1 => .some (.header ⟨.none, .none, permuted_nil, rfl⟩)
    | id + 2 => by
        have stays : Equiv.swap 0 1 (id + 2) = id + 2 := Equiv.swap_apply_of_ne_of_ne nofun nofun
        rw [stays]
        exact .none

/-- The schemas and headers of `headed` are linked to the same things in either order. -/
theorem link_reordered_headed :
    let linked := headed.link headedGraph {}
    let otherLinked := turned.link turnedGraph {}
    (∃ json otherJson, linked.2.2.write linked.2.1 = .ok json ∧
      otherLinked.2.2.write otherLinked.2.1 = .ok otherJson ∧ json.Reorders otherJson) ∧
    (linked.1.map Diagnostic.problem).Perm (otherLinked.1.map Diagnostic.problem) :=
  link_reordered parse_headed (wellFormed_of_parse parse_turned) reorders_headed {}

end

end Document

end ApiLinker
