import ApiLinker.Linking.Place
import ApiLinker.Proofs.Relation

/-!
What entities and documents hold, and what a walk may do to it.

`Holds` names every position at which an object can hold an edge or a schema, and `Changes` relates
an object to what becomes of it, position by position: each edge and each schema changes as a
`Change` allows, and everything else stays.  Both are read off the fields of the objects, not off
the order in which a walk visits them.
-/

namespace ApiLinker

structure Change where
  edge : Category → Edge → Edge → Prop
  tag : Edge → Edge → Prop
  schema : Schema → Schema → Prop

namespace Change

/-- What a held object may become. -/
inductive Allows (change : Change) : Held → Held → Prop where
  | edge {category : Category} {before after : Edge} (changes : change.edge category before after) :
      Allows change (.edge category before) (.edge category after)
  | tag {before after : Edge} (changes : change.tag before after) :
      Allows change (.tag before) (.tag after)
  | schema {before after : Schema} (changes : change.schema before after) :
      Allows change (.schema before) (.schema after)
  | namedSchema {name : String} {before after : Schema} (changes : change.schema before after) :
      Allows change (.namedSchema name before) (.namedSchema name after)

/-- Edges stay. -/
def ofSchemas (R : Schema → Schema → Prop) : Change where
  edge _ := Eq
  tag := Eq
  schema := R

def none : Change :=
  ofSchemas Eq

end Change

section

/-! The positions of each kind of object. -/

inductive MediaType.Holds (media : MediaType) : Held → Prop where
  | schema {schema : Schema} (found : media.schema = some schema) : Holds media (.schema schema)
  | «example» {entry : String × Edge} (member : entry ∈ media.examples) :
      Holds media (.edge .examples entry.2)

inductive Parameter.Holds (parameter : Parameter) : Held → Prop where
  | schema {schema : Schema} (found : parameter.schema = some schema) :
      Holds parameter (.schema schema)
  | «example» {entry : String × Edge} (member : entry ∈ parameter.examples) :
      Holds parameter (.edge .examples entry.2)
  | content {entry : String × MediaType} {held : Held} (member : entry ∈ parameter.content)
      (inside : entry.2.Holds held) : Holds parameter held

inductive RequestBody.Holds (body : RequestBody) : Held → Prop where
  | content {entry : String × MediaType} {held : Held} (member : entry ∈ body.content)
      (inside : entry.2.Holds held) : Holds body held

inductive Response.Holds (response : Response) : Held → Prop where
  | header {entry : String × Edge} (member : entry ∈ response.headers) :
      Holds response (.edge .headers entry.2)
  | content {entry : String × MediaType} {held : Held} (member : entry ∈ response.content)
      (inside : entry.2.Holds held) : Holds response held
  | link {entry : String × Edge} (member : entry ∈ response.links) :
      Holds response (.edge .links entry.2)

inductive Header.Holds (header : Header) : Held → Prop where
  | schema {schema : Schema} (found : header.schema = some schema) : Holds header (.schema schema)
  | «example» {entry : String × Edge} (member : entry ∈ header.examples) :
      Holds header (.edge .examples entry.2)

inductive Callback.Holds (callback : Callback) : Held → Prop where
  | expression {entry : String × Edge} (member : entry ∈ callback.expressions) :
      Holds callback (.edge .pathItems entry.2)

inductive SecurityRequirement.Holds (requirement : SecurityRequirement) : Held → Prop where
  | scheme {entry : Edge × List String} (member : entry ∈ requirement.schemes) :
      Holds requirement (.edge .securitySchemes entry.1)

inductive Operation.Holds (operation : Operation) : Held → Prop where
  | tag {edge : Edge} (member : edge ∈ operation.tags) : Holds operation (.tag edge)
  | parameter {edge : Edge} (member : edge ∈ operation.parameters) :
      Holds operation (.edge .parameters edge)
  | requestBody {edge : Edge} (found : operation.requestBody = some edge) :
      Holds operation (.edge .requestBodies edge)
  | response {entry : String × Edge} (member : entry ∈ operation.responses) :
      Holds operation (.edge .responses entry.2)
  | callback {entry : String × Edge} (member : entry ∈ operation.callbacks) :
      Holds operation (.edge .callbacks entry.2)
  | security {requirement : SecurityRequirement} {held : Held}
      (member : requirement ∈ operation.security) (inside : requirement.Holds held) :
      Holds operation held

inductive PathItem.Holds (item : PathItem) : Held → Prop where
  | parameter {edge : Edge} (member : edge ∈ item.parameters) :
      Holds item (.edge .parameters edge)
  | operation {entry : String × Operation} {held : Held} (member : entry ∈ item.operations)
      (inside : entry.2.Holds held) : Holds item held

def Entity.Holds : Entity → Held → Prop
  | .parameter value => value.Holds
  | .requestBody value => value.Holds
  | .response value => value.Holds
  | .header value => value.Holds
  | .callback value => value.Holds
  | .pathItem value => value.Holds
  | .tag _ | .example _ | .link _ | .securityScheme _ => fun _ => False

inductive Components.Holds (components : Components) : Held → Prop where
  | schema {entry : String × Schema} (member : entry ∈ components.schemas) :
      Holds components (.namedSchema entry.1 entry.2)
  | response {entry : String × Edge} (member : entry ∈ components.responses) :
      Holds components (.edge .responses entry.2)
  | parameter {entry : String × Edge} (member : entry ∈ components.parameters) :
      Holds components (.edge .parameters entry.2)
  | «example» {entry : String × Edge} (member : entry ∈ components.examples) :
      Holds components (.edge .examples entry.2)
  | requestBody {entry : String × Edge} (member : entry ∈ components.requestBodies) :
      Holds components (.edge .requestBodies entry.2)
  | header {entry : String × Edge} (member : entry ∈ components.headers) :
      Holds components (.edge .headers entry.2)
  | securityScheme {entry : String × Edge} (member : entry ∈ components.securitySchemes) :
      Holds components (.edge .securitySchemes entry.2)
  | link {entry : String × Edge} (member : entry ∈ components.links) :
      Holds components (.edge .links entry.2)
  | callback {entry : String × Edge} (member : entry ∈ components.callbacks) :
      Holds components (.edge .callbacks entry.2)
  | pathItem {entry : String × Edge} (member : entry ∈ components.pathItems) :
      Holds components (.edge .pathItems entry.2)

inductive Document.Holds (document : Document) : Held → Prop where
  | path {entry : String × Edge} (member : entry ∈ document.paths) :
      Holds document (.edge .pathItems entry.2)
  | webhook {entry : String × Edge} (member : entry ∈ document.webhooks) :
      Holds document (.edge .pathItems entry.2)
  | component {components : Components} {held : Held}
      (found : document.components = some components) (inside : components.Holds held) :
      Holds document held
  | security {requirement : SecurityRequirement} {held : Held}
      (member : requirement ∈ document.security) (inside : requirement.Holds held) :
      Holds document held
  | tag {edge : Edge} (member : edge ∈ document.tags) : Holds document (.tag edge)

end

section

/-! What may become of each kind of object. -/

variable (change : Change)

structure MediaType.Changes (before after : MediaType) : Prop where
  schema : Option.Rel change.schema before.schema after.schema
  examples : Table.Rel (change.edge .examples) before.examples after.examples
  rest : after = { before with schema := after.schema, examples := after.examples }

structure Parameter.Changes (before after : Parameter) : Prop where
  schema : Option.Rel change.schema before.schema after.schema
  examples : Table.Rel (change.edge .examples) before.examples after.examples
  content : Table.Rel (MediaType.Changes change) before.content after.content
  rest : after = { before with
    schema := after.schema, examples := after.examples, content := after.content }

structure RequestBody.Changes (before after : RequestBody) : Prop where
  content : Table.Rel (MediaType.Changes change) before.content after.content
  rest : after = { before with content := after.content }

structure Response.Changes (before after : Response) : Prop where
  headers : Table.Rel (change.edge .headers) before.headers after.headers
  content : Table.Rel (MediaType.Changes change) before.content after.content
  links : Table.Rel (change.edge .links) before.links after.links
  rest : after = { before with
    headers := after.headers, content := after.content, links := after.links }

structure Header.Changes (before after : Header) : Prop where
  schema : Option.Rel change.schema before.schema after.schema
  examples : Table.Rel (change.edge .examples) before.examples after.examples
  rest : after = { before with schema := after.schema, examples := after.examples }

structure Callback.Changes (before after : Callback) : Prop where
  expressions : Table.Rel (change.edge .pathItems) before.expressions after.expressions

structure SecurityRequirement.Changes (before after : SecurityRequirement) : Prop where
  schemes : List.Forall₂
    (fun left right => change.edge .securitySchemes left.1 right.1 ∧ left.2 = right.2)
    before.schemes after.schemes

structure Operation.Changes (before after : Operation) : Prop where
  tags : List.Forall₂ change.tag before.tags after.tags
  parameters : List.Forall₂ (change.edge .parameters) before.parameters after.parameters
  requestBody : Option.Rel (change.edge .requestBodies) before.requestBody after.requestBody
  responses : Table.Rel (change.edge .responses) before.responses after.responses
  callbacks : Table.Rel (change.edge .callbacks) before.callbacks after.callbacks
  security : List.Forall₂ (SecurityRequirement.Changes change) before.security after.security
  rest : after = { before with
    tags := after.tags, parameters := after.parameters, requestBody := after.requestBody
    responses := after.responses, callbacks := after.callbacks, security := after.security }

structure PathItem.Changes (before after : PathItem) : Prop where
  get : Option.Rel (Operation.Changes change) before.get after.get
  put : Option.Rel (Operation.Changes change) before.put after.put
  post : Option.Rel (Operation.Changes change) before.post after.post
  delete : Option.Rel (Operation.Changes change) before.delete after.delete
  options : Option.Rel (Operation.Changes change) before.options after.options
  head : Option.Rel (Operation.Changes change) before.head after.head
  patch : Option.Rel (Operation.Changes change) before.patch after.patch
  trace : Option.Rel (Operation.Changes change) before.trace after.trace
  parameters : List.Forall₂ (change.edge .parameters) before.parameters after.parameters
  rest : after = { after with summary := before.summary, description := before.description }

/-- An entity stays of its kind, and one that holds nothing stays as it is. -/
inductive Entity.Changes : Entity → Entity → Prop where
  | parameter {before after : Parameter} (changes : before.Changes change after) :
      Changes (.parameter before) (.parameter after)
  | requestBody {before after : RequestBody} (changes : before.Changes change after) :
      Changes (.requestBody before) (.requestBody after)
  | response {before after : Response} (changes : before.Changes change after) :
      Changes (.response before) (.response after)
  | header {before after : Header} (changes : before.Changes change after) :
      Changes (.header before) (.header after)
  | callback {before after : Callback} (changes : before.Changes change after) :
      Changes (.callback before) (.callback after)
  | pathItem {before after : PathItem} (changes : before.Changes change after) :
      Changes (.pathItem before) (.pathItem after)
  | tag (value : Tag) : Changes (.tag value) (.tag value)
  | «example» (value : Example) : Changes (.example value) (.example value)
  | link (value : Link) : Changes (.link value) (.link value)
  | securityScheme (value : SecurityScheme) :
      Changes (.securityScheme value) (.securityScheme value)

structure Components.Changes (before after : Components) : Prop where
  schemas : Table.Rel change.schema before.schemas after.schemas
  responses : Table.Rel (change.edge .responses) before.responses after.responses
  parameters : Table.Rel (change.edge .parameters) before.parameters after.parameters
  examples : Table.Rel (change.edge .examples) before.examples after.examples
  requestBodies : Table.Rel (change.edge .requestBodies) before.requestBodies after.requestBodies
  headers : Table.Rel (change.edge .headers) before.headers after.headers
  securitySchemes :
    Table.Rel (change.edge .securitySchemes) before.securitySchemes after.securitySchemes
  links : Table.Rel (change.edge .links) before.links after.links
  callbacks : Table.Rel (change.edge .callbacks) before.callbacks after.callbacks
  pathItems : Table.Rel (change.edge .pathItems) before.pathItems after.pathItems

structure Document.Changes (before after : Document) : Prop where
  paths : Table.Rel (change.edge .pathItems) before.paths after.paths
  webhooks : Table.Rel (change.edge .pathItems) before.webhooks after.webhooks
  components : Option.Rel (Components.Changes change) before.components after.components
  security : List.Forall₂ (SecurityRequirement.Changes change) before.security after.security
  tags : List.Forall₂ change.tag before.tags after.tags
  rest : after = { before with
    paths := after.paths, webhooks := after.webhooks, components := after.components
    security := after.security, tags := after.tags }

end

end ApiLinker
