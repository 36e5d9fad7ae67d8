import ApiLinker.Proofs.Linking.Changing
import ApiLinker.Proofs.Pointer
import ApiLinker.Proofs.Schema.Reading

/-!
Objects as they can be read.

In an orderly object no table has a name twice and no field holds a `null`, which would be read as a
missing value; security schemes are referred to by their names; and everything held is as `fits`
says.  A change that keeps the names of security schemes keeps an object orderly.
-/

namespace ApiLinker

/-- Different names, with values as `P` says. -/
def Table.Orderly (P : α → Prop) (table : Table α) : Prop :=
  table.names.Nodup ∧ ∀ entry ∈ table, P entry.2

theorem Table.orderly_nil {P : α → Prop} : Table.Orderly P ([] : Table α) :=
  ⟨List.nodup_nil, nofun⟩

theorem Table.Orderly.imp {P Q : α → Prop} {table : Table α} (orderly : table.Orderly P)
    (implies : ∀ value, P value → Q value) : table.Orderly Q :=
  ⟨orderly.1, fun entry member => implies entry.2 (orderly.2 entry member)⟩

/-- A value that is kept as it is, in a field that may be missing. -/
def Json.Kept (json : Json) : Prop :=
  json.Distinct ∧ json ≠ .null

section

variable (fits : Held → Prop)

structure MediaType.Orderly (media : MediaType) : Prop where
  schema : ∀ schema ∈ media.schema, fits (.schema schema)
  sample : ∀ json ∈ media.sample, json.Kept
  examples : media.examples.Orderly fun edge => fits (.edge .examples edge)

structure Header.Orderly (header : Header) : Prop where
  schema : ∀ schema ∈ header.schema, fits (.schema schema)
  sample : ∀ json ∈ header.sample, json.Kept
  examples : header.examples.Orderly fun edge => fits (.edge .examples edge)

structure Parameter.Orderly (parameter : Parameter) : Prop where
  schema : ∀ schema ∈ parameter.schema, fits (.schema schema)
  sample : ∀ json ∈ parameter.sample, json.Kept
  examples : parameter.examples.Orderly fun edge => fits (.edge .examples edge)
  content : parameter.content.Orderly (MediaType.Orderly fits)

structure RequestBody.Orderly (body : RequestBody) : Prop where
  content : body.content.Orderly (MediaType.Orderly fits)

structure Response.Orderly (response : Response) : Prop where
  headers : response.headers.Orderly fun edge => fits (.edge .headers edge)
  content : response.content.Orderly (MediaType.Orderly fits)
  links : response.links.Orderly fun edge => fits (.edge .links edge)

structure Callback.Orderly (callback : Callback) : Prop where
  expressions : callback.expressions.Orderly fun edge => fits (.edge .pathItems edge)

structure SecurityRequirement.Orderly (requirement : SecurityRequirement) : Prop where
  schemes : ∀ entry ∈ requirement.schemes, fits (.edge .securitySchemes entry.1)
  names : ∃ names : List String, names.Nodup ∧
    requirement.schemes.map (fun entry => entry.1.reference?) =
      names.map fun name => some (Reference.toComponent .securitySchemes name)

structure Operation.Orderly (operation : Operation) : Prop where
  tags : ∀ edge ∈ operation.tags, fits (.tag edge)
  parameters : ∀ edge ∈ operation.parameters, fits (.edge .parameters edge)
  requestBody : ∀ edge ∈ operation.requestBody, fits (.edge .requestBodies edge)
  responses : operation.responses.Orderly fun edge => fits (.edge .responses edge)
  callbacks : operation.callbacks.Orderly fun edge => fits (.edge .callbacks edge)
  security : ∀ requirement ∈ operation.security, requirement.Orderly fits

structure PathItem.Orderly (item : PathItem) : Prop where
  get : ∀ operation ∈ item.get, operation.Orderly fits
  put : ∀ operation ∈ item.put, operation.Orderly fits
  post : ∀ operation ∈ item.post, operation.Orderly fits
  delete : ∀ operation ∈ item.delete, operation.Orderly fits
  options : ∀ operation ∈ item.options, operation.Orderly fits
  head : ∀ operation ∈ item.head, operation.Orderly fits
  patch : ∀ operation ∈ item.patch, operation.Orderly fits
  trace : ∀ operation ∈ item.trace, operation.Orderly fits
  parameters : ∀ edge ∈ item.parameters, fits (.edge .parameters edge)

structure Link.Orderly (link : Link) : Prop where
  parameters : link.parameters.Orderly Json.Distinct
  requestBody : ∀ json ∈ link.requestBody, json.Kept

def Entity.Orderly : Entity → Prop
  | .parameter value => value.Orderly fits
  | .requestBody value => value.Orderly fits
  | .response value => value.Orderly fits
  | .header value => value.Orderly fits
  | .callback value => value.Orderly fits
  | .pathItem value => value.Orderly fits
  | .link value => value.Orderly
  | .example value => ∀ json ∈ value.value, json.Kept
  | .securityScheme value => ∀ json ∈ value.flows, json.Kept
  | .tag _ => True

structure Components.Orderly (components : Components) : Prop where
  schemas : components.schemas.names.Nodup ∧
    ∀ entry ∈ components.schemas, fits (.namedSchema entry.1 entry.2)
  responses : components.responses.Orderly fun edge => fits (.edge .responses edge)
  parameters : components.parameters.Orderly fun edge => fits (.edge .parameters edge)
  examples : components.examples.Orderly fun edge => fits (.edge .examples edge)
  requestBodies : components.requestBodies.Orderly fun edge => fits (.edge .requestBodies edge)
  headers : components.headers.Orderly fun edge => fits (.edge .headers edge)
  securitySchemes :
    components.securitySchemes.Orderly fun edge => fits (.edge .securitySchemes edge)
  links : components.links.Orderly fun edge => fits (.edge .links edge)
  callbacks : components.callbacks.Orderly fun edge => fits (.edge .callbacks edge)
  pathItems : components.pathItems.Orderly fun edge => fits (.edge .pathItems edge)

structure Document.Orderly (document : Document) : Prop where
  paths : document.paths.Orderly fun edge => fits (.edge .pathItems edge)
  webhooks : document.webhooks.Orderly fun edge => fits (.edge .pathItems edge)
  components : ∀ components ∈ document.components, components.Orderly fits
  security : ∀ requirement ∈ document.security, requirement.Orderly fits
  tags : ∀ edge ∈ document.tags, fits (.tag edge)

end

section

/-! What changes is orderly again. -/

/-- What fits goes on to fit, and security schemes are referred to by the same names. -/
structure Change.Keeps (change : Change) (fits later : Held → Prop) : Prop where
  fits : ∀ {before after : Held}, change.Allows before after → fits before → later after
  names : change.KeepsNames

variable {fits later : Held → Prop} {change : Change}

/-- What fits by one measure may fit by another. -/
theorem Change.keeps_none (implies : ∀ held, fits held → later held) :
    Change.none.Keeps fits later where
  fits allowed isFit := by
    cases allowed with
    | edge same | tag same | schema same | namedSchema same =>
        cases same
        exact implies _ isFit
  names _ _ same := by rw [same]

theorem Table.Orderly.after {R : α → β → Prop} {P : α → Prop} {Q : β → Prop} {before : Table α}
    {after : Table β} (orderly : before.Orderly P) (related : Table.Rel R before after)
    (keeps : ∀ left right, R left right → P left → Q right) : after.Orderly Q := by
  refine ⟨related.names_eq ▸ orderly.1, fun entry member => ?_⟩
  obtain ⟨origin, isOrigin, holds⟩ := ListRel.exists_of_mem_right related member
  exact keeps _ _ holds.2 (orderly.2 origin isOrigin)

namespace Change

variable (keeps : change.Keeps fits later)
include keeps

theorem Keeps.edges {category : Category} {before after : Table Edge}
    (orderly : before.Orderly fun edge => fits (.edge category edge))
    (related : Table.Rel (change.edge category) before after) :
    after.Orderly fun edge => later (.edge category edge) :=
  orderly.after related fun _ _ changes => keeps.fits (.edge changes)

theorem Keeps.list {category : Category} {before after : List Edge}
    (orderly : ∀ edge ∈ before, fits (.edge category edge))
    (related : List.Forall₂ (change.edge category) before after) :
    ∀ edge ∈ after, later (.edge category edge) := by
  intro edge member
  obtain ⟨origin, isOrigin, changes⟩ := ListRel.exists_of_mem_right related member
  exact keeps.fits (.edge changes) (orderly origin isOrigin)

theorem Keeps.schema {before after : Option Schema}
    (orderly : ∀ schema ∈ before, fits (.schema schema))
    (related : Option.Rel change.schema before after) :
    ∀ schema ∈ after, later (.schema schema) := by
  intro schema member
  obtain ⟨origin, isOrigin, changes⟩ := OptionRel.exists_of_mem_right related member
  exact keeps.fits (.schema changes) (orderly origin isOrigin)

end Change

variable (keeps : change.Keeps fits later)
include keeps

theorem MediaType.Orderly.after {before after : MediaType} (orderly : before.Orderly fits)
    (changes : before.Changes change after) : after.Orderly later where
  schema := keeps.schema orderly.schema changes.schema
  sample := by
    rw [changes.rest]
    exact orderly.sample
  examples := keeps.edges orderly.examples changes.examples

theorem Change.Keeps.content {before after : Table MediaType}
    (orderly : before.Orderly (MediaType.Orderly fits))
    (related : Table.Rel (MediaType.Changes change) before after) :
    after.Orderly (MediaType.Orderly later) :=
  orderly.after related fun _ _ changes isOrderly => isOrderly.after keeps changes

theorem SecurityRequirement.Orderly.after {before after : SecurityRequirement}
    (orderly : before.Orderly fits) (changes : before.Changes change after) :
    after.Orderly later where
  schemes entry member := by
    obtain ⟨origin, isOrigin, scheme, _⟩ := ListRel.exists_of_mem_right changes.schemes member
    exact keeps.fits (.edge scheme) (orderly.schemes origin isOrigin)
  names := by
    have same : after.schemes.map (fun entry => entry.1.reference?) =
        before.schemes.map fun entry => entry.1.reference? := by
      rw [← List.forall₂_eq_eq_eq, List.forall₂_map_left_iff, List.forall₂_map_right_iff]
      exact (changes.schemes.imp fun _ _ holds => keeps.names _ _ holds.1).flip
    rw [same]
    exact orderly.names

omit keeps in
/-- The schemes of a requirement are referred to by different names. -/
theorem SecurityRequirement.Orderly.identifiers {requirement : SecurityRequirement}
    (orderly : requirement.Orderly fits) :
    ∃ names : List String, names.Nodup ∧
      requirement.schemes.map (fun entry => entry.1.reference?.map Reference.identifier) =
        names.map some := by
  obtain ⟨names, distinct, same⟩ := orderly.names
  refine ⟨names, distinct, ?_⟩
  have mapped := congrArg (List.map (Option.map Reference.identifier)) same
  simpa [Function.comp_def, Reference.identifier_toComponent] using mapped

theorem Change.Keeps.security {before after : List SecurityRequirement}
    (orderly : ∀ requirement ∈ before, requirement.Orderly fits)
    (related : List.Forall₂ (SecurityRequirement.Changes change) before after) :
    ∀ requirement ∈ after, requirement.Orderly later := by
  intro requirement member
  obtain ⟨origin, isOrigin, changes⟩ := ListRel.exists_of_mem_right related member
  exact (orderly origin isOrigin).after keeps changes

theorem Operation.Orderly.after {before after : Operation} (orderly : before.Orderly fits)
    (changes : before.Changes change after) : after.Orderly later where
  tags edge member := by
    obtain ⟨origin, isOrigin, tag⟩ := ListRel.exists_of_mem_right changes.tags member
    exact keeps.fits (.tag tag) (orderly.tags origin isOrigin)
  parameters := keeps.list orderly.parameters changes.parameters
  requestBody edge member := by
    obtain ⟨origin, isOrigin, body⟩ := OptionRel.exists_of_mem_right changes.requestBody member
    exact keeps.fits (.edge body) (orderly.requestBody origin isOrigin)
  responses := keeps.edges orderly.responses changes.responses
  callbacks := keeps.edges orderly.callbacks changes.callbacks
  security := keeps.security orderly.security changes.security

theorem PathItem.Orderly.after {before after : PathItem} (orderly : before.Orderly fits)
    (changes : before.Changes change after) : after.Orderly later := by
  have operation : ∀ {before after : Option Operation},
      (∀ operation ∈ before, operation.Orderly fits) →
      Option.Rel (Operation.Changes change) before after →
      ∀ operation ∈ after, operation.Orderly later := by
    intro before after orderly related operation member
    obtain ⟨origin, isOrigin, changes⟩ := OptionRel.exists_of_mem_right related member
    exact (orderly origin isOrigin).after keeps changes
  exact {
    get := operation orderly.get changes.get
    put := operation orderly.put changes.put
    post := operation orderly.post changes.post
    delete := operation orderly.delete changes.delete
    options := operation orderly.options changes.options
    head := operation orderly.head changes.head
    patch := operation orderly.patch changes.patch
    trace := operation orderly.trace changes.trace
    parameters := keeps.list orderly.parameters changes.parameters }

theorem Entity.Orderly.after {before after : Entity} (orderly : before.Orderly fits)
    (changes : before.Changes change after) : after.Orderly later := by
  cases changes with
  | parameter changes =>
      have isOrderly : Parameter.Orderly fits _ := orderly
      exact {
        schema := keeps.schema isOrderly.schema changes.schema
        sample := by
          rw [changes.rest]
          exact isOrderly.sample
        examples := keeps.edges isOrderly.examples changes.examples
        content := keeps.content isOrderly.content changes.content }
  | requestBody changes =>
      exact ⟨keeps.content (RequestBody.Orderly.content orderly) changes.content⟩
  | response changes =>
      have isOrderly : Response.Orderly fits _ := orderly
      exact {
        headers := keeps.edges isOrderly.headers changes.headers
        content := keeps.content isOrderly.content changes.content
        links := keeps.edges isOrderly.links changes.links }
  | header changes =>
      have isOrderly : Header.Orderly fits _ := orderly
      exact {
        schema := keeps.schema isOrderly.schema changes.schema
        sample := by
          rw [changes.rest]
          exact isOrderly.sample
        examples := keeps.edges isOrderly.examples changes.examples }
  | callback changes =>
      exact ⟨keeps.edges (Callback.Orderly.expressions orderly) changes.expressions⟩
  | pathItem changes => exact PathItem.Orderly.after keeps orderly changes
  | tag | «example» | link | securityScheme => exact orderly

theorem Components.Orderly.after {before after : Components} (orderly : before.Orderly fits)
    (changes : before.Changes change after) : after.Orderly later where
  schemas := by
    refine ⟨changes.schemas.names_eq ▸ orderly.schemas.1, fun entry member => ?_⟩
    obtain ⟨origin, isOrigin, name, schema⟩ :=
      ListRel.exists_of_mem_right changes.schemas member
    exact keeps.fits (name ▸ .namedSchema schema) (orderly.schemas.2 origin isOrigin)
  responses := keeps.edges orderly.responses changes.responses
  parameters := keeps.edges orderly.parameters changes.parameters
  examples := keeps.edges orderly.examples changes.examples
  requestBodies := keeps.edges orderly.requestBodies changes.requestBodies
  headers := keeps.edges orderly.headers changes.headers
  securitySchemes := keeps.edges orderly.securitySchemes changes.securitySchemes
  links := keeps.edges orderly.links changes.links
  callbacks := keeps.edges orderly.callbacks changes.callbacks
  pathItems := keeps.edges orderly.pathItems changes.pathItems

theorem Document.Orderly.after {before after : Document} (orderly : before.Orderly fits)
    (changes : before.Changes change after) : after.Orderly later where
  paths := keeps.edges orderly.paths changes.paths
  webhooks := keeps.edges orderly.webhooks changes.webhooks
  components components member := by
    obtain ⟨origin, isOrigin, changes⟩ := OptionRel.exists_of_mem_right changes.components member
    exact (orderly.components origin isOrigin).after keeps changes
  security := keeps.security orderly.security changes.security
  tags edge member := by
    obtain ⟨origin, isOrigin, tag⟩ := ListRel.exists_of_mem_right changes.tags member
    exact keeps.fits (.tag tag) (orderly.tags origin isOrigin)

end

section

/-! What an orderly object holds is as `fits` says. -/

variable {fits : Held → Prop} {held : Held}

theorem MediaType.Orderly.fits_of_holds {media : MediaType} (orderly : media.Orderly fits)
    (holds : media.Holds held) : fits held := by
  cases holds with
  | schema found => exact orderly.schema _ found
  | «example» member => exact orderly.examples.2 _ member

theorem SecurityRequirement.Orderly.fits_of_holds {requirement : SecurityRequirement}
    (orderly : requirement.Orderly fits) (holds : requirement.Holds held) : fits held := by
  cases holds with
  | scheme member => exact orderly.schemes _ member

theorem Operation.Orderly.fits_of_holds {operation : Operation} (orderly : operation.Orderly fits)
    (holds : operation.Holds held) : fits held := by
  cases holds with
  | tag member => exact orderly.tags _ member
  | parameter member => exact orderly.parameters _ member
  | requestBody found => exact orderly.requestBody _ found
  | response member => exact orderly.responses.2 _ member
  | callback member => exact orderly.callbacks.2 _ member
  | security member inside => exact (orderly.security _ member).fits_of_holds inside

theorem PathItem.Orderly.operation {item : PathItem} (orderly : item.Orderly fits)
    {entry : String × Operation} (member : entry ∈ item.operations) : entry.2.Orderly fits := by
  obtain ⟨⟨method, field⟩, isField, isEntry⟩ := List.mem_filterMap.mp member
  obtain ⟨operation, found, rfl⟩ := Option.map_eq_some_iff.mp isEntry
  simp only [List.mem_cons, List.not_mem_nil, or_false, Prod.mk.injEq] at isField
  rcases isField with ⟨_, rfl⟩ | ⟨_, rfl⟩ | ⟨_, rfl⟩ | ⟨_, rfl⟩ | ⟨_, rfl⟩ | ⟨_, rfl⟩ | ⟨_, rfl⟩ |
    ⟨_, rfl⟩
  · exact orderly.get operation found
  · exact orderly.put operation found
  · exact orderly.post operation found
  · exact orderly.delete operation found
  · exact orderly.options operation found
  · exact orderly.head operation found
  · exact orderly.patch operation found
  · exact orderly.trace operation found

theorem Entity.Orderly.fits_of_holds {entity : Entity} (orderly : entity.Orderly fits)
    (holds : entity.Holds held) : fits held := by
  cases entity with
  | tag | «example» | link | securityScheme => cases holds
  | parameter value =>
      cases holds with
      | schema found => exact orderly.schema _ found
      | «example» member => exact orderly.examples.2 _ member
      | content member inside => exact (orderly.content.2 _ member).fits_of_holds inside
  | requestBody value =>
      cases holds with
      | content member inside => exact (orderly.content.2 _ member).fits_of_holds inside
  | response value =>
      cases holds with
      | header member => exact orderly.headers.2 _ member
      | content member inside => exact (orderly.content.2 _ member).fits_of_holds inside
      | link member => exact orderly.links.2 _ member
  | header value =>
      cases holds with
      | schema found => exact orderly.schema _ found
      | «example» member => exact orderly.examples.2 _ member
  | callback value =>
      cases holds with
      | expression member => exact orderly.expressions.2 _ member
  | pathItem value =>
      cases holds with
      | parameter member => exact orderly.parameters _ member
      | operation member inside =>
          exact (PathItem.Orderly.operation orderly member).fits_of_holds inside

theorem Components.Orderly.fits_of_holds {components : Components}
    (orderly : components.Orderly fits) (holds : components.Holds held) : fits held := by
  cases holds with
  | schema member => exact orderly.schemas.2 _ member
  | response member => exact orderly.responses.2 _ member
  | parameter member => exact orderly.parameters.2 _ member
  | «example» member => exact orderly.examples.2 _ member
  | requestBody member => exact orderly.requestBodies.2 _ member
  | header member => exact orderly.headers.2 _ member
  | securityScheme member => exact orderly.securitySchemes.2 _ member
  | link member => exact orderly.links.2 _ member
  | callback member => exact orderly.callbacks.2 _ member
  | pathItem member => exact orderly.pathItems.2 _ member

theorem Document.Orderly.fits_of_holds {document : Document} (orderly : document.Orderly fits)
    (holds : document.Holds held) : fits held := by
  cases holds with
  | path member => exact orderly.paths.2 _ member
  | webhook member => exact orderly.webhooks.2 _ member
  | component found inside => exact (orderly.components _ found).fits_of_holds inside
  | security member inside => exact (orderly.security _ member).fits_of_holds inside
  | tag member => exact orderly.tags _ member

end

end ApiLinker
