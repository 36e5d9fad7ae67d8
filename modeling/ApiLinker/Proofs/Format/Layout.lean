import ApiLinker.Format.Document
import ApiLinker.Proofs.Format.Orderly
import ApiLinker.Proofs.Format.Writing
import ApiLinker.View

/-!
Objects before and after a change, written.

Where two formats of edges agree on what a change does to the things held, they write an orderly
object and what becomes of it alike, with the marks of everything that is held at its place.
-/

namespace ApiLinker

open Codec Json Place

/-- The marks of what stands at places. -/
def spread (inner : Held → List Mark) (places : List Place) : List Mark :=
  places.flatMap fun place => (inner place.held).map (Mark.under place.path)

section

variable (inner : Held → List Mark)

@[simp] theorem spread_nil : spread inner [] = [] := rfl

@[simp] theorem spread_append (left right : List Place) :
    spread inner (left ++ right) = spread inner left ++ spread inner right :=
  List.flatMap_append

theorem Json.Mark.under_under (outer path : List String) (mark : Mark) :
    (mark.under path).under outer = mark.under (outer ++ path) := by
  simp [Mark.under]

@[simp] theorem spread_within (segment : String) (places : List Place) :
    spread inner (within segment places) = Mark.within segment (spread inner places) := by
  simp [spread, within, Mark.within, List.flatMap_map, List.map_flatMap, Place.under,
    Function.comp_def, Mark.under_under]

@[simp] theorem spread_flatMap (list : List α) (places : α → List Place) :
    spread inner (list.flatMap places) = list.flatMap fun item => spread inner (places item) :=
  List.flatMap_assoc

@[simp] theorem spread_ofTable (category : Category) (edges : Table Edge) :
    spread inner (ofTable category edges) =
      entryMarks (fun edge => inner (.edge category edge)) edges := by
  simp [spread, ofTable, entryMarks, List.flatMap_map, Mark.within]

@[simp] theorem spread_ofList (category : Category) (edges : List Edge) :
    spread inner (ofList category edges) =
      elementMarks (fun edge => inner (.edge category edge)) 0 edges := by
  simp [spread, ofList, elementMarks, List.flatMap_map, Mark.within]

@[simp] theorem spread_ofTags (edges : List Edge) :
    spread inner (ofTags edges) = elementMarks (fun edge => inner (.tag edge)) 0 edges := by
  simp [spread, ofTags, elementMarks, List.flatMap_map, Mark.within]

@[simp] theorem spread_ofSchema (schema : Option Schema) :
    spread inner (ofSchema schema) =
      schema.toList.flatMap fun schema => Mark.within "schema" (inner (.schema schema)) := by
  simp [spread, ofSchema, List.flatMap_map, Mark.within]

@[simp] theorem spread_map (segment : String) (held : α → Held) (list : List α) :
    spread inner (list.map fun value => { path := [segment], held := held value }) =
      list.flatMap fun value => Mark.within segment (inner (held value)) := by
  simp [spread, List.flatMap_map, Mark.within]

@[simp] theorem spread_contentPlaces (content : Table MediaType) :
    spread inner (contentPlaces content) =
      entryMarks (fun media => spread inner media.places) content := by
  simp [contentPlaces, entryMarks]

@[simp] theorem spread_securityPlaces (requirements : List SecurityRequirement) :
    spread inner (securityPlaces requirements) =
      elementMarks (fun requirement => spread inner requirement.places) 0 requirements := by
  simp [securityPlaces, elementMarks]

end

/-- What two formats of edges agree on: all that is held is written alike before and after the change.
Of a security scheme only the scopes are written, under the name in its reference. -/
structure EdgeFormat.Agrees (left right : EdgeFormat) (change : Change) (fits : Held → Prop)
    (inner : Held → List Mark) : Prop where
  edge : ∀ {category : Category} {before after : Edge}, category ≠ .securitySchemes →
    fits (.edge category before) → change.edge category before after →
    (left.edge category).Alike (right.edge category) (inner (.edge category before)) before after
  tagName : ∀ {before after : Edge}, fits (.tag before) → change.tag before after →
    left.tagName.Alike right.tagName (inner (.tag before)) before after
  scheme : ∀ {before after : Edge} {reference : Reference} (scopes : List String),
    before.reference? = some reference → change.edge .securitySchemes before after →
    after.reference? = some reference ∧ Lays (inner (.edge .securitySchemes before))
      (.array (scopes.map .string)) (.array (scopes.map .string))
  schema : ∀ {before after : Schema}, change.schema before after →
    Lays (inner (.schema before)) before.json after.json

namespace Format

variable {left right : EdgeFormat} {change : Change} {fits : Held → Prop}
variable {inner : Held → List Mark} {ρ : Type}

section

/-! Formats without edges or schemas. -/

theorem total_externalDocs : externalDocs.codec.Total :=
  Record.total (by decide) fun _ => ⟨_, .cons "url" rfl rfl (Field.alike_kept total_string rfl)
    (.cons "description" rfl rfl (Field.alike_optional_kept total_string rfl) .nil)⟩

theorem total_tag : tag.codec.Total :=
  Record.total (by decide) fun _ => ⟨_, .cons "name" rfl rfl (Field.alike_kept total_string rfl)
    (.cons "description" rfl rfl (Field.alike_optional_kept total_string rfl)
    (.cons "externalDocs" rfl rfl (Field.alike_optional_kept total_externalDocs rfl) .nil))⟩

theorem total_parameterLocation : (parameterLocation : Codec Graph ParameterLocation).Total :=
  total_variant

theorem total_sample : sample.codec.Total :=
  Record.total (by decide) fun _ => ⟨_, .cons "summary" rfl rfl (Field.alike_optional_kept total_string rfl)
    (.cons "description" rfl rfl (Field.alike_optional_kept total_string rfl)
    (.cons "value" rfl rfl (Field.alike_optional_kept total_json rfl)
    (.cons "externalValue" rfl rfl (Field.alike_optional_kept total_string rfl) .nil)))⟩

theorem total_link : link.codec.Total :=
  Record.total (by decide) fun _ => ⟨_, .cons "operationRef" rfl rfl (Field.alike_optional_kept total_string rfl)
    (.cons "operationId" rfl rfl (Field.alike_optional_kept total_string rfl)
    (.cons "parameters" rfl rfl (Field.alike_kept total_json.table rfl)
    (.cons "requestBody" rfl rfl (Field.alike_optional_kept total_json rfl)
    (.cons "description" rfl rfl (Field.alike_optional_kept total_string rfl) .nil))))⟩

theorem total_securityScheme : securityScheme.codec.Total :=
  Record.total (by decide) fun _ => ⟨_, .cons "type" rfl rfl (Field.alike_kept total_string rfl)
    (.cons "description" rfl rfl (Field.alike_optional_kept total_string rfl)
    (.cons "name" rfl rfl (Field.alike_optional_kept total_string rfl)
    (.cons "in" rfl rfl (Field.alike_optional_kept total_string rfl)
    (.cons "scheme" rfl rfl (Field.alike_optional_kept total_string rfl)
    (.cons "bearerFormat" rfl rfl (Field.alike_optional_kept total_string rfl)
    (.cons "flows" rfl rfl (Field.alike_optional_kept total_json rfl)
    (.cons "openIdConnectUrl" rfl rfl (Field.alike_optional_kept total_string rfl) .nil)))))))⟩

theorem total_info : info.codec.Total :=
  Record.total (by decide) fun _ => ⟨_, .cons "title" rfl rfl (Field.alike_kept total_string rfl)
    (.cons "version" rfl rfl (Field.alike_kept total_string rfl)
    (.cons "description" rfl rfl (Field.alike_optional_kept total_string rfl) .nil))⟩

theorem total_server : server.codec.Total :=
  Record.total (by decide) fun _ => ⟨_, .cons "url" rfl rfl (Field.alike_kept total_string rfl)
    (.cons "description" rfl rfl (Field.alike_optional_kept total_string rfl) .nil)⟩

end

section

/-! Formats with edges and schemas. -/

variable (agrees : left.Agrees right change fits inner)
include agrees

omit agrees in
theorem alike_schema {marks : Schema → List Mark} {before after : Option Schema}
    (each : ∀ before after, change.schema before after → Lays (marks before) before.json after.json)
    (related : Option.Rel change.schema before after) :
    Option.Rel (fun before after => schema.Alike schema (marks before) before after) before after :=
  OptionRel.imp_of_mem related fun _ _ _ changes => ⟨_, _, rfl, rfl, each _ _ changes⟩

theorem alike_edges {category : Category} (other : category ≠ .securitySchemes)
    {before after : Table Edge} (orderly : before.Orderly fun edge => fits (.edge category edge))
    (related : Table.Rel (change.edge category) before after) :
    Table.Rel (fun before after => (left.edge category).Alike (right.edge category)
      (inner (.edge category before)) before after) before after :=
  related.imp_of_mem fun entry member _ changes =>
    agrees.edge other (orderly.2 entry member) changes

theorem alike_mediaType {before after : MediaType} (orderly : before.Orderly fits)
    (changes : before.Changes change after) :
    (mediaType left).codec.Alike (mediaType right).codec (spread inner before.places) before
      after := by
  have fields : Field.AllAlike before after (mediaType left).fields (mediaType right).fields _ :=
    .cons "schema" rfl rfl (Field.alike_optional (alike_schema (fun _ _ => agrees.schema) changes.schema))
    (.cons "example" rfl rfl (Field.alike_optional_kept total_json (by rw [changes.rest]))
    (.cons "examples" rfl rfl (Field.alike_table orderly.examples.1
      (alike_edges agrees Category.noConfusion orderly.examples changes.examples)) .nil))
  exact (Record.alike (by simp [mediaType]) fields).of_eq (by simp [MediaType.places])

theorem alike_content {before after : Table MediaType}
    (orderly : before.Orderly (MediaType.Orderly fits))
    (related : Table.Rel (MediaType.Changes change) before after) :
    Table.Rel (fun before after => (mediaType left).codec.Alike (mediaType right).codec
      (spread inner before.places) before after) before after :=
  related.imp_of_mem fun entry member _ changes =>
    alike_mediaType agrees (orderly.2 entry member) changes

theorem alike_header {before after : Header} (orderly : before.Orderly fits)
    (changes : before.Changes change after) :
    (header left).codec.Alike (header right).codec (spread inner before.places) before after := by
  have fields : Field.AllAlike before after (header left).fields (header right).fields _ :=
    .cons "description" rfl rfl (Field.alike_optional_kept total_string (by rw [changes.rest]))
    (.cons "required" rfl rfl (Field.alike_kept total_bool (by rw [changes.rest]))
    (.cons "deprecated" rfl rfl (Field.alike_kept total_bool (by rw [changes.rest]))
    (.cons "schema" rfl rfl (Field.alike_optional (alike_schema (fun _ _ => agrees.schema) changes.schema))
    (.cons "example" rfl rfl (Field.alike_optional_kept total_json (by rw [changes.rest]))
    (.cons "examples" rfl rfl (Field.alike_table orderly.examples.1
      (alike_edges agrees Category.noConfusion orderly.examples changes.examples)) .nil)))))
  exact (Record.alike (by simp [header]) fields).of_eq (by simp [Header.places])

theorem alike_parameter {before after : Parameter} (orderly : before.Orderly fits)
    (changes : before.Changes change after) :
    (parameter left).codec.Alike (parameter right).codec (spread inner before.places) before
      after := by
  have location : after.location = before.location := by rw [changes.rest]
  have fields : Field.AllAlike before after (parameter left).fields (parameter right).fields _ :=
    .cons "name" rfl rfl (Field.alike_kept total_string (by rw [changes.rest]))
    (.cons "in" rfl rfl (Field.alike_kept total_parameterLocation location)
    (.cons "description" rfl rfl (Field.alike_optional_kept total_string (by rw [changes.rest]))
    (.cons "required" rfl rfl (Field.alike_kept total_bool (by rw [changes.rest]))
    (.cons "deprecated" rfl rfl (Field.alike_kept total_bool (by rw [changes.rest]))
    (.cons "schema" rfl rfl (Field.alike_optional (alike_schema (fun _ _ => agrees.schema) changes.schema))
    (.cons "example" rfl rfl (Field.alike_optional_kept total_json (by rw [changes.rest]))
    (.cons "examples" rfl rfl (Field.alike_table orderly.examples.1
      (alike_edges agrees Category.noConfusion orderly.examples changes.examples))
    (.cons "content" rfl rfl (Field.alike_table orderly.content.1
      (alike_content agrees orderly.content changes.content)) .nil))))))))
  exact (Record.alike (by simp [parameter]) fields).of_eq (by simp [Parameter.places])

theorem alike_requestBody {before after : RequestBody} (orderly : before.Orderly fits)
    (changes : before.Changes change after) :
    (requestBody left).codec.Alike (requestBody right).codec (spread inner before.places) before
      after := by
  have content := alike_table orderly.content.1
    (alike_content agrees orderly.content changes.content)
  have fields : Field.AllAlike before after (requestBody left).fields
      (requestBody right).fields _ :=
    .cons "description" rfl rfl (Field.alike_optional_kept total_string (by rw [changes.rest]))
    (.cons "content" rfl rfl (Field.alike_general rfl nofun fun _ => content)
    (.cons "required" rfl rfl (Field.alike_kept total_bool (by rw [changes.rest])) .nil))
  exact (Record.alike (by simp [requestBody]) fields).of_eq (by simp [RequestBody.places])

theorem alike_response {before after : Response} (orderly : before.Orderly fits)
    (changes : before.Changes change after) :
    (response left).codec.Alike (response right).codec (spread inner before.places) before
      after := by
  have fields : Field.AllAlike before after (response left).fields (response right).fields _ :=
    .cons "description" rfl rfl (Field.alike_kept total_string (by rw [changes.rest]))
    (.cons "headers" rfl rfl (Field.alike_table orderly.headers.1
      (alike_edges agrees Category.noConfusion orderly.headers changes.headers))
    (.cons "content" rfl rfl (Field.alike_table orderly.content.1
      (alike_content agrees orderly.content changes.content))
    (.cons "links" rfl rfl (Field.alike_table orderly.links.1
      (alike_edges agrees Category.noConfusion orderly.links changes.links)) .nil)))
  exact (Record.alike (by simp [response]) fields).of_eq (by simp [Response.places])

theorem alike_callback {before after : Callback} (orderly : before.Orderly fits)
    (changes : before.Changes change after) :
    (callback left).Alike (callback right) (spread inner before.places) before after := by
  have expressions := alike_table orderly.expressions.1
    (alike_edges agrees Category.noConfusion orderly.expressions changes.expressions)
  rw [Callback.places, spread_ofTable]
  exact expressions

theorem laysMembers_schemes {before after : List (Edge × List String)}
    (named : ∀ entry ∈ before, entry.1.reference?.isSome)
    (related : List.Forall₂
      (fun left right => change.edge .securitySchemes left.1 right.1 ∧ left.2 = right.2)
      before after) :
    ∃ lefts rights, before.mapM entryOfScheme = .ok lefts ∧
      after.mapM entryOfScheme = .ok rights ∧
      LaysMembers (spread inner (SecurityRequirement.places { schemes := before })) lefts rights ∧
      lefts.map (fun entry => some entry.1) =
        before.map fun entry => entry.1.reference?.map Reference.identifier := by
  induction related with
  | nil => exact ⟨[], [], rfl, rfl, .nil, rfl⟩
  | @cons first second before after holds _ ih =>
      obtain ⟨isNamed, others⟩ := List.forall_mem_cons.mp named
      obtain ⟨lefts, rights, areLeft, areRight, lays, names⟩ := ih others
      obtain ⟨edge, scopes⟩ := first
      obtain ⟨other, otherScopes⟩ := second
      obtain ⟨changes, same⟩ := holds
      obtain rfl : scopes = otherScopes := same
      obtain ⟨reference, refers⟩ : ∃ reference, edge.reference? = some reference :=
        Option.isSome_iff_exists.mp isNamed
      obtain ⟨otherRefers, scheme⟩ := agrees.scheme scopes refers changes
      have wrote : ∀ edge : Edge, edge.reference? = some reference →
          entryOfScheme (edge, scopes) =
            .ok (reference.identifier, .array (scopes.map .string)) := fun edge refers => by
        simp only [entryOfScheme, refers]
      have marks : spread inner (SecurityRequirement.places { schemes := (edge, scopes) :: before }) =
          Mark.within reference.identifier (inner (.edge .securitySchemes edge)) ++
            spread inner (SecurityRequirement.places { schemes := before }) := by
        simp [SecurityRequirement.places, spread, refers, Mark.within]
      have members := LaysMembers.cons reference.identifier scheme lays
      refine ⟨_, _, ?_, ?_, marks ▸ members, ?_⟩
      · rw [List.mapM_cons, wrote edge refers, areLeft]
        rfl
      · rw [List.mapM_cons, wrote other otherRefers, areRight]
        rfl
      · rw [List.map_cons, List.map_cons, names, refers]
        rfl

theorem alike_securityRequirement {before after : SecurityRequirement}
    (orderly : before.Orderly fits) (changes : before.Changes change after) :
    (securityRequirement left).Alike (securityRequirement right) (spread inner before.places) before
      after := by
  obtain ⟨names, distinct, same⟩ := orderly.identifiers
  have named : ∀ entry ∈ before.schemes, entry.1.reference?.isSome := fun entry member => by
    have listed : entry.1.reference?.map Reference.identifier ∈ names.map some :=
      same ▸ List.mem_map_of_mem member
    obtain ⟨name, _, isName⟩ := List.mem_map.mp listed
    exact Option.isSome_map ▸ Option.isSome_of_eq_some isName.symm
  obtain ⟨lefts, rights, areLeft, areRight, lays, members⟩ :=
    laysMembers_schemes agrees named changes.schemes
  refine ⟨.object lefts, .object rights, ?_, ?_, lays_object lays ?_⟩
  · simp only [securityRequirement, areLeft]
    rfl
  · simp only [securityRequirement, areRight]
    rfl
  · have isNames : (lefts.map Prod.fst).map some = names.map some := by
      rw [← same, ← members, List.map_map]
      rfl
    rw [List.map_injective_iff.mpr (fun _ _ => Option.some.inj) isNames]
    exact distinct

theorem alike_security {before after : List SecurityRequirement}
    (orderly : ∀ requirement ∈ before, requirement.Orderly fits)
    (related : List.Forall₂ (SecurityRequirement.Changes change) before after) :
    List.Forall₂ (fun before after => (securityRequirement left).Alike (securityRequirement right)
      (spread inner before.places) before after) before after :=
  ListRel.imp_of_mem related fun requirement member _ changes =>
    alike_securityRequirement agrees (orderly requirement member) changes

theorem alike_list {category : Category} (other : category ≠ .securitySchemes)
    {before after : List Edge} (orderly : ∀ edge ∈ before, fits (.edge category edge))
    (related : List.Forall₂ (change.edge category) before after) :
    List.Forall₂ (fun before after => (left.edge category).Alike (right.edge category)
      (inner (.edge category before)) before after) before after :=
  ListRel.imp_of_mem related fun edge member _ changes =>
    agrees.edge other (orderly edge member) changes

theorem alike_operation {before after : Operation} (orderly : before.Orderly fits)
    (changes : before.Changes change after) :
    (operation left).codec.Alike (operation right).codec (spread inner before.writtenPlaces) before
      after := by
  have tags := ListRel.imp_of_mem changes.tags fun edge member _ tag =>
    agrees.tagName (orderly.tags edge member) tag
  have body := OptionRel.imp_of_mem changes.requestBody fun edge member _ body =>
    agrees.edge Category.noConfusion (orderly.requestBody edge member) body
  have fields : Field.AllAlike before after (operation left).fields (operation right).fields _ :=
    .cons "tags" rfl rfl (Field.alike_list tags)
    (.cons "summary" rfl rfl (Field.alike_optional_kept total_string (by rw [changes.rest]))
    (.cons "description" rfl rfl (Field.alike_optional_kept total_string (by rw [changes.rest]))
    (.cons "operationId" rfl rfl (Field.alike_optional_kept total_string (by rw [changes.rest]))
    (.cons "parameters" rfl rfl (Field.alike_list
      (alike_list agrees Category.noConfusion orderly.parameters changes.parameters))
    (.cons "requestBody" rfl rfl (Field.alike_optional body)
    (.cons "responses" rfl rfl (Field.alike_table orderly.responses.1
      (alike_edges agrees Category.noConfusion orderly.responses changes.responses))
    (.cons "callbacks" rfl rfl (Field.alike_table orderly.callbacks.1
      (alike_edges agrees Category.noConfusion orderly.callbacks changes.callbacks))
    (.cons "deprecated" rfl rfl (Field.alike_kept total_bool (by rw [changes.rest]))
    (.cons "security" rfl rfl (Field.alike_list
      (alike_security agrees orderly.security changes.security)) .nil)))))))))
  exact (Record.alike (by simp [operation]) fields).of_eq (by simp [Operation.writtenPlaces])

theorem alike_operations {before after : Option Operation}
    (orderly : ∀ operation ∈ before, operation.Orderly fits)
    (related : Option.Rel (Operation.Changes change) before after) :
    Option.Rel (fun before after => (operation left).codec.Alike (operation right).codec
      (spread inner before.writtenPlaces) before after) before after :=
  OptionRel.imp_of_mem related fun operation member _ changes =>
    alike_operation agrees (orderly operation member) changes

theorem alike_pathItem {before after : PathItem} (orderly : before.Orderly fits)
    (changes : before.Changes change after) :
    (pathItem left).codec.Alike (pathItem right).codec (spread inner before.writtenPlaces) before
      after := by
  have summary : after.summary = before.summary := by rw [changes.rest]
  have description : after.description = before.description := by rw [changes.rest]
  have fields : Field.AllAlike before after (pathItem left).fields (pathItem right).fields _ :=
    .cons "summary" rfl rfl (Field.alike_optional_kept total_string summary)
    (.cons "description" rfl rfl (Field.alike_optional_kept total_string description)
    (.cons "get" rfl rfl (Field.alike_optional (alike_operations agrees orderly.get changes.get))
    (.cons "put" rfl rfl (Field.alike_optional (alike_operations agrees orderly.put changes.put))
    (.cons "post" rfl rfl (Field.alike_optional (alike_operations agrees orderly.post changes.post))
    (.cons "delete" rfl rfl
      (Field.alike_optional (alike_operations agrees orderly.delete changes.delete))
    (.cons "options" rfl rfl
      (Field.alike_optional (alike_operations agrees orderly.options changes.options))
    (.cons "head" rfl rfl (Field.alike_optional (alike_operations agrees orderly.head changes.head))
    (.cons "patch" rfl rfl
      (Field.alike_optional (alike_operations agrees orderly.patch changes.patch))
    (.cons "trace" rfl rfl
      (Field.alike_optional (alike_operations agrees orderly.trace changes.trace))
    (.cons "parameters" rfl rfl (Field.alike_list
      (alike_list agrees Category.noConfusion orderly.parameters changes.parameters))
        .nil))))))))))
  refine (Record.alike (by simp [pathItem]) fields).of_eq ?_
  simp [PathItem.writtenPlaces, PathItem.flatMap_operations]

theorem alike_entity {before after : Entity} (orderly : before.Orderly fits)
    (changes : before.Changes change after) :
    ∃ leftJson rightJson, writeEntity left before = .ok leftJson ∧
      writeEntity right after = .ok rightJson ∧
      Lays (spread inner before.writtenPlaces) leftJson rightJson := by
  cases changes with
  | parameter changes => exact alike_parameter agrees orderly changes
  | requestBody changes => exact alike_requestBody agrees orderly changes
  | response changes => exact alike_response agrees orderly changes
  | header changes => exact alike_header agrees orderly changes
  | callback changes => exact alike_callback agrees orderly changes
  | pathItem changes => exact alike_pathItem agrees orderly changes
  | tag value => exact total_tag.alike rfl
  | «example» value => exact total_sample.alike rfl
  | link value => exact total_link.alike rfl
  | securityScheme value => exact total_securityScheme.alike rfl

end

end Format

/-- What a document holds itself has marks of its own: its tags are written as objects, and its
security schemes in place. -/
structure EdgeFormat.AgreesAtRoot (left right : EdgeFormat) (change : Change) (fits : Held → Prop)
    (inner outer : Held → List Mark) : Prop extends left.Agrees right change fits inner where
  component : ∀ {category : Category} {before after : Edge}, fits (.edge category before) →
    change.edge category before after →
    (left.edge category).Alike (right.edge category) (outer (.edge category before)) before after
  tag : ∀ {before after : Edge}, fits (.tag before) → change.tag before after →
    (left.edge .tags).Alike (right.edge .tags) (outer (.tag before)) before after
  namedSchema : ∀ {name : String} {before after : Schema}, change.schema before after →
    Lays (outer (.namedSchema name before)) before.json after.json
  unnamed : ∀ (name : String) (schema : Schema),
    outer (.namedSchema name schema) = outer (.namedSchema "" schema)

/-- The marks of a document: those of its tags and components, and those of the rest. -/
def Document.marks (inner outer : Held → List Mark) (document : Document) : List Mark :=
  spread outer (within "tags" (ofTags document.tags) ++
    document.components.toList.flatMap fun components =>
      within "components" components.writtenPlaces) ++
  spread inner (within "paths" (ofTable .pathItems document.paths) ++
    within "webhooks" (ofTable .pathItems document.webhooks) ++
    within "security" (securityPlaces document.security))

namespace Format

section

variable {left right : EdgeFormat} {change : Change} {fits : Held → Prop}
variable {inner outer : Held → List Mark}
variable (agrees : left.AgreesAtRoot right change fits inner outer)
include agrees

theorem alike_component {category : Category} {before after : Table Edge}
    (orderly : before.Orderly fun edge => fits (.edge category edge))
    (related : Table.Rel (change.edge category) before after) :
    Table.Rel (fun before after => (left.edge category).Alike (right.edge category)
      (outer (.edge category before)) before after) before after :=
  related.imp_of_mem fun entry member _ changes =>
    agrees.component (orderly.2 entry member) changes

theorem alike_components {before after : Components} (orderly : before.Orderly fits)
    (changes : before.Changes change after) :
    (components left).codec.Alike (components right).codec (spread outer before.writtenPlaces)
      before after := by
  have schemas : Table.Rel (fun before after => schema.Alike schema
      (outer (.namedSchema "" before)) before after) before.schemas after.schemas :=
    changes.schemas.imp_of_mem fun _ _ _ changes => ⟨_, _, rfl, rfl, agrees.namedSchema changes⟩
  have table {category : Category} {before after : Table Edge}
      (orderly : before.Orderly fun edge => fits (.edge category edge))
      (related : Table.Rel (change.edge category) before after) :=
    alike_component agrees orderly related
  have fields : Field.AllAlike before after (components left).fields (components right).fields _ :=
    .cons "schemas" rfl rfl (Field.alike_table orderly.schemas.1 schemas)
    (.cons "responses" rfl rfl
      (Field.alike_table orderly.responses.1 (table orderly.responses changes.responses))
    (.cons "parameters" rfl rfl
      (Field.alike_table orderly.parameters.1 (table orderly.parameters changes.parameters))
    (.cons "examples" rfl rfl
      (Field.alike_table orderly.examples.1 (table orderly.examples changes.examples))
    (.cons "requestBodies" rfl rfl
      (Field.alike_table orderly.requestBodies.1 (table orderly.requestBodies changes.requestBodies))
    (.cons "headers" rfl rfl
      (Field.alike_table orderly.headers.1 (table orderly.headers changes.headers))
    (.cons "securitySchemes" rfl rfl (Field.alike_table orderly.securitySchemes.1
      (table orderly.securitySchemes changes.securitySchemes))
    (.cons "links" rfl rfl (Field.alike_table orderly.links.1 (table orderly.links changes.links))
    (.cons "callbacks" rfl rfl
      (Field.alike_table orderly.callbacks.1 (table orderly.callbacks changes.callbacks))
    (.cons "pathItems" rfl rfl
      (Field.alike_table orderly.pathItems.1 (table orderly.pathItems changes.pathItems))
        .nil)))))))))
  refine (Record.alike (by simp [components]) fields).of_eq ?_
  have named : spread outer (before.schemas.map fun entry =>
      { path := [entry.1], held := .namedSchema entry.1 entry.2 }) =
        entryMarks (fun schema => outer (.namedSchema "" schema)) before.schemas := by
    simp [spread, List.flatMap_map, entryMarks, Mark.within, agrees.unnamed]
  simp [Components.writtenPlaces, named]

theorem alike_document {before after : Document} (orderly : before.Orderly fits)
    (changes : before.Changes change after) :
    (document left).codec.Alike (document right).codec (before.marks inner outer) before after := by
  have inside := agrees.toAgrees
  have components := OptionRel.imp_of_mem changes.components fun components member _ changes =>
    alike_components agrees (orderly.components components member) changes
  have tags := ListRel.imp_of_mem changes.tags fun edge member _ tag =>
    agrees.tag (orderly.tags edge member) tag
  have openapi : after.openapi = before.openapi := by rw [changes.rest]
  have isInfo : after.info = before.info := by rw [changes.rest]
  have servers : after.servers = before.servers := by rw [changes.rest]
  have docs : after.externalDocs = before.externalDocs := by rw [changes.rest]
  have fields : Field.AllAlike before after (document left).fields (document right).fields _ :=
    .cons "openapi" rfl rfl (Field.alike_kept total_string openapi)
    (.cons "info" rfl rfl (Field.alike_kept total_info isInfo)
    (.cons "servers" rfl rfl (Field.alike_kept total_server.list servers)
    (.cons "paths" rfl rfl (Field.alike_table orderly.paths.1
      (alike_edges inside Category.noConfusion orderly.paths changes.paths))
    (.cons "webhooks" rfl rfl (Field.alike_table orderly.webhooks.1
      (alike_edges inside Category.noConfusion orderly.webhooks changes.webhooks))
    (.cons "components" rfl rfl (Field.alike_optional components)
    (.cons "security" rfl rfl (Field.alike_list
      (alike_security inside orderly.security changes.security))
    (.cons "tags" rfl rfl (Field.alike_list tags)
    (.cons "externalDocs" rfl rfl (Field.alike_optional_kept total_externalDocs docs)
      .nil))))))))
  refine (Record.alike (by simp [document]) fields).congr fun mark => ?_
  simp only [Document.marks, spread_append, spread_within, spread_ofTags, spread_ofTable,
    spread_flatMap, spread_securityPlaces, List.mem_append, List.not_mem_nil]
  tauto

end

end Format

end ApiLinker
