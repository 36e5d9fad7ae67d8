import ApiLinker.Linking.Relink
import ApiLinker.Proofs.Linking.Changing

/-!
Relinking is a change.

An object that is relinked changes its edges by the functions it is given.  It takes one schema for
each that it holds, in the order of its places, so its schemas change as the supplied ones differ
from the ones held.
-/

namespace ApiLinker

def Held.schemas (held : List Held) : List Schema :=
  held.filterMap Held.schema?

namespace Held

@[simp] theorem schemas_nil : schemas [] = [] := rfl

@[simp] theorem schemas_append (left right : List Held) :
    schemas (left ++ right) = schemas left ++ schemas right :=
  List.filterMap_append

@[simp] theorem schemas_flatMap (list : List α) (held : α → List Held) :
    schemas (list.flatMap held) = list.flatMap fun item => schemas (held item) := by
  simp [schemas, List.filterMap_flatMap]

@[simp] theorem schemas_edges (list : List α) (category : Category) (edge : α → Edge) :
    schemas (list.map fun item => .edge category (edge item)) = [] := by
  simp [schemas, schema?, List.filterMap_map, Function.comp_def]

@[simp] theorem schemas_tags (edges : List Edge) : schemas (edges.map .tag) = [] := by
  simp [schemas, schema?, List.filterMap_map, Function.comp_def]

@[simp] theorem schemas_toList (schema : Option Schema) :
    schemas (schema.toList.map .schema) = schema.toList := by
  cases schema <;> rfl

end Held

def EdgeMap.change (edges : EdgeMap) (R : Schema → Schema → Prop) : Change where
  edge category before after := after = edges.edge category before
  tag before after := after = edges.tag before
  schema := R

variable {R : Schema → Schema → Prop} {new rest : List Schema}

theorem Table.rel_mapEdges (change : Edge → Edge) (table : Table Edge) :
    Table.Rel (fun before after => after = change before) table (mapEdges change table) :=
  Table.Rel.map table fun _ _ => rfl

theorem ListRel.map_self {α β : Type} (f : α → β) (list : List α) :
    List.Forall₂ (fun before after => after = f before) list (list.map f) :=
  ListRel.map (R := fun before after => after = f before) list fun _ _ => rfl

/-- An option takes its schema from the front of what is supplied. -/
theorem supplyOption_append {option : Option Schema} (given : List.Forall₂ R option.toList new)
    (rest : List Schema) :
    ∃ after, supplyOption option (new ++ rest) = (after, rest) ∧ Option.Rel R option after := by
  cases option with
  | none =>
      cases given
      exact ⟨none, rfl, .none⟩
  | some schema =>
      obtain ⟨replacement, _, holds, none, rfl⟩ := List.forall₂_cons_left_iff.mp given
      cases none
      exact ⟨some replacement, rfl, .some holds⟩

theorem MediaType.relink_append {media : MediaType} (edges : EdgeMap)
    (given : List.Forall₂ R (Held.schemas (Place.helds media.places)) new) (rest : List Schema) :
    ∃ after, media.relink edges (new ++ rest) = (after, rest) ∧
      media.Changes (edges.change R) after := by
  simp only [helds_places, Held.schemas_append, Held.schemas_toList, Held.schemas_edges,
    List.append_nil] at given
  obtain ⟨schema, supplied, related⟩ := supplyOption_append given rest
  refine ⟨_, by rw [relink, supplied], ?_⟩
  exact {
    schema := related
    examples := Table.rel_mapEdges _ _
    rest := rfl }

theorem relinkContent_append {content : Table MediaType} (edges : EdgeMap)
    (given : List.Forall₂ R (content.flatMap fun entry =>
      Held.schemas (Place.helds entry.2.places)) new) (rest : List Schema) :
    ∃ after, relinkContent edges content (new ++ rest) = (after, rest) ∧
      Table.Rel (MediaType.Changes (edges.change R)) content after := by
  induction content generalizing new with
  | nil =>
      cases given
      exact ⟨[], rfl, .nil⟩
  | cons entry content ih =>
      rw [List.flatMap_cons] at given
      obtain ⟨own, others, rfl, given, givenOthers⟩ := ListRel.exists_append given
      obtain ⟨media, relinked, changes⟩ :=
        entry.2.relink_append edges given (others ++ rest)
      obtain ⟨after, relinkedOthers, related⟩ := ih givenOthers
      refine ⟨(entry.1, media) :: after, ?_, .cons ⟨rfl, changes⟩ related⟩
      simp only [relinkContent, List.append_assoc, relinked, relinkedOthers]

theorem Parameter.relink_append {parameter : Parameter} (edges : EdgeMap)
    (given : List.Forall₂ R (Held.schemas (Place.helds parameter.places)) new)
    (rest : List Schema) :
    ∃ after, parameter.relink edges (new ++ rest) = (after, rest) ∧
      parameter.Changes (edges.change R) after := by
  simp only [places, Place.helds_append, Place.helds_within, Place.helds_ofSchema,
    Place.helds_ofTable, helds_contentPlaces, Held.schemas_append, Held.schemas_toList,
    Held.schemas_edges, Held.schemas_flatMap, List.append_nil] at given
  obtain ⟨own, others, rfl, given, givenOthers⟩ := ListRel.exists_append given
  obtain ⟨schema, supplied, schemaRelated⟩ := supplyOption_append given (others ++ rest)
  obtain ⟨content, relinked, related⟩ := relinkContent_append edges givenOthers rest
  have both : parameter.relink edges (own ++ (others ++ rest)) = ({ parameter with
      schema, content, examples := mapEdges (edges.edge .examples) parameter.examples }, rest) := by
    simp only [relink, supplied, relinked]
  refine ⟨_, by rw [List.append_assoc, both], ?_⟩
  exact {
    schema := schemaRelated
    examples := Table.rel_mapEdges _ _
    content := related
    rest := rfl }

theorem RequestBody.relink_append {body : RequestBody} (edges : EdgeMap)
    (given : List.Forall₂ R (Held.schemas (Place.helds body.places)) new) (rest : List Schema) :
    ∃ after, body.relink edges (new ++ rest) = (after, rest) ∧
      body.Changes (edges.change R) after := by
  simp only [places, Place.helds_within, helds_contentPlaces, Held.schemas_flatMap] at given
  obtain ⟨content, relinked, related⟩ := relinkContent_append edges given rest
  exact ⟨_, by rw [relink, relinked], { content := related, rest := rfl }⟩

theorem Response.relink_append {response : Response} (edges : EdgeMap)
    (given : List.Forall₂ R (Held.schemas (Place.helds response.places)) new)
    (rest : List Schema) :
    ∃ after, response.relink edges (new ++ rest) = (after, rest) ∧
      response.Changes (edges.change R) after := by
  simp only [places, Place.helds_append, Place.helds_within, Place.helds_ofTable,
    helds_contentPlaces, Held.schemas_append, Held.schemas_edges, Held.schemas_flatMap,
    List.nil_append, List.append_nil] at given
  obtain ⟨content, relinked, related⟩ := relinkContent_append edges given rest
  refine ⟨_, by rw [relink, relinked], ?_⟩
  exact {
    headers := Table.rel_mapEdges _ _
    content := related
    links := Table.rel_mapEdges _ _
    rest := rfl }

theorem Header.relink_append {header : Header} (edges : EdgeMap)
    (given : List.Forall₂ R (Held.schemas (Place.helds header.places)) new) (rest : List Schema) :
    ∃ after, header.relink edges (new ++ rest) = (after, rest) ∧
      header.Changes (edges.change R) after := by
  simp only [places, Place.helds_append, Place.helds_within, Place.helds_ofSchema,
    Place.helds_ofTable, Held.schemas_append, Held.schemas_toList, Held.schemas_edges,
    List.append_nil] at given
  obtain ⟨schema, supplied, related⟩ := supplyOption_append given rest
  refine ⟨_, by rw [relink, supplied], ?_⟩
  exact {
    schema := related
    examples := Table.rel_mapEdges _ _
    rest := rfl }

variable {edges : EdgeMap}

theorem SecurityRequirement.changes_relink (requirement : SecurityRequirement) :
    requirement.Changes (edges.change R) (requirement.relink edges) where
  schemes := ListRel.map _ fun _ _ => ⟨rfl, rfl⟩

theorem Operation.changes_relink (operation : Operation) :
    operation.Changes (edges.change R) (operation.relink edges) where
  tags := ListRel.map_self _ _
  parameters := ListRel.map_self _ _
  requestBody := OptionRel.map _ fun _ _ => rfl
  responses := Table.rel_mapEdges _ _
  callbacks := Table.rel_mapEdges _ _
  security := ListRel.map _ fun requirement _ => requirement.changes_relink
  rest := rfl

theorem PathItem.changes_relink (item : PathItem) :
    item.Changes (edges.change R) (item.relink edges) where
  get := OptionRel.map _ fun operation _ => operation.changes_relink
  put := OptionRel.map _ fun operation _ => operation.changes_relink
  post := OptionRel.map _ fun operation _ => operation.changes_relink
  delete := OptionRel.map _ fun operation _ => operation.changes_relink
  options := OptionRel.map _ fun operation _ => operation.changes_relink
  head := OptionRel.map _ fun operation _ => operation.changes_relink
  patch := OptionRel.map _ fun operation _ => operation.changes_relink
  trace := OptionRel.map _ fun operation _ => operation.changes_relink
  parameters := ListRel.map_self _ _
  rest := rfl

/-- An entity that is supplied with a schema for each one it holds changes accordingly. -/
theorem Entity.changes_relink {entity : Entity}
    (given : List.Forall₂ R (Held.schemas (Place.helds entity.places)) new) :
    entity.Changes (edges.change R) (entity.relink edges new) := by
  rw [← List.append_nil new]
  cases entity with
  | parameter value =>
      obtain ⟨after, relinked, changes⟩ := value.relink_append edges given []
      exact .parameter (by rwa [relinked])
  | requestBody value =>
      obtain ⟨after, relinked, changes⟩ := value.relink_append edges given []
      exact .requestBody (by rwa [relinked])
  | response value =>
      obtain ⟨after, relinked, changes⟩ := value.relink_append edges given []
      exact .response (by rwa [relinked])
  | header value =>
      obtain ⟨after, relinked, changes⟩ := value.relink_append edges given []
      exact .header (by rwa [relinked])
  | callback value => exact .callback { expressions := Table.rel_mapEdges _ _ }
  | pathItem value => exact .pathItem value.changes_relink
  | tag value => exact .tag value
  | «example» value => exact .example value
  | link value => exact .link value
  | securityScheme value => exact .securityScheme value

theorem forall₂_supplyTable {table : Table Schema} {S : String × Schema → Schema → Prop}
    (given : List.Forall₂ S table new) :
    List.Forall₂ (fun before after => before.1 = after.1 ∧ S before after.2) table
      (supplyTable table new) := by
  induction table generalizing new with
  | nil => exact .nil
  | cons entry table ih =>
      obtain ⟨replacement, others, holds, givenRest, rfl⟩ := List.forall₂_cons_left_iff.mp given
      exact .cons ⟨rfl, holds⟩ (ih givenRest)

theorem Components.changes_relink {components : Components}
    (given : List.Forall₂ R (components.schemas.map Prod.snd) new) :
    components.Changes (edges.change R) (components.relink edges new) where
  schemas := forall₂_supplyTable (List.forall₂_map_left_iff.mp given)
  responses := Table.rel_mapEdges _ _
  parameters := Table.rel_mapEdges _ _
  examples := Table.rel_mapEdges _ _
  requestBodies := Table.rel_mapEdges _ _
  headers := Table.rel_mapEdges _ _
  securitySchemes := Table.rel_mapEdges _ _
  links := Table.rel_mapEdges _ _
  callbacks := Table.rel_mapEdges _ _
  pathItems := Table.rel_mapEdges _ _

theorem Document.schemas_places (document : Document) :
    Held.schemas (Place.helds document.places) = document.namedObjects.schemas.map Prod.snd := by
  cases components : document.components <;>
    simp [places, namedObjects, components, Components.helds_places, Held.schemas, Held.schema?,
      List.filterMap_map, List.filterMap_flatMap, Function.comp_def]

/-- The named schema that is held, with its name. -/
def Held.entry? : Held → Option (String × Schema)
  | .namedSchema name held => some (name, held)
  | .edge _ _ | .tag _ | .schema _ => none

theorem Document.entries_places (document : Document) :
    (Place.helds document.places).filterMap Held.entry? = document.namedObjects.schemas := by
  cases components : document.components <;>
    simp [places, namedObjects, components, Components.helds_places, Held.entry?,
      List.filterMap_map, List.filterMap_flatMap, Function.comp_def]

theorem Document.changes_relink {document : Document}
    (given : List.Forall₂ R (Held.schemas (Place.helds document.places)) new) :
    document.Changes (edges.change R) (document.relink edges new) where
  paths := Table.rel_mapEdges _ _
  webhooks := Table.rel_mapEdges _ _
  components := by
    refine OptionRel.map _ fun components found => Components.changes_relink ?_
    rw [Document.schemas_places, namedObjects, Option.mem_def.mp found] at given
    exact given
  security := ListRel.map _ fun requirement _ => requirement.changes_relink
  tags := ListRel.map_self _ _
  rest := rfl

end ApiLinker
