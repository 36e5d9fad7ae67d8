import ApiLinker.Linking.Place

/-!
Relinking: changing what entities and documents hold.

Each edge changes by a function of the edge alone.  Schemas are taken from a list that has one
schema for each place that holds one, in the order of the places.
-/

namespace ApiLinker

structure EdgeMap where
  edge : Category → Edge → Edge
  tag : Edge → Edge

/-- A holder after it took the schemas that are meant for it, and the schemas that are left. -/
abbrev Supplied (α : Type) := α × List Schema

def supplyOption : Option Schema → List Schema → Supplied (Option Schema)
  | some _, replacement :: rest => (some replacement, rest)
  | kept, rest => (kept, rest)

def mapEdges (change : Edge → Edge) (edges : Table Edge) : Table Edge :=
  edges.map fun (name, edge) => (name, change edge)

section

variable (edges : EdgeMap)

def MediaType.relink (media : MediaType) (schemas : List Schema) : Supplied MediaType :=
  let (schema, rest) := supplyOption media.schema schemas
  ({ media with schema, examples := mapEdges (edges.edge .examples) media.examples }, rest)

def relinkContent : Table MediaType → List Schema → Supplied (Table MediaType)
  | [], schemas => ([], schemas)
  | (name, media) :: content, schemas =>
      let (media, rest) := media.relink edges schemas
      let (content, rest) := relinkContent content rest
      ((name, media) :: content, rest)

def Parameter.relink (parameter : Parameter) (schemas : List Schema) : Supplied Parameter :=
  let (schema, rest) := supplyOption parameter.schema schemas
  let (content, rest) := relinkContent edges parameter.content rest
  ({ parameter with
      schema, content, examples := mapEdges (edges.edge .examples) parameter.examples }, rest)

def RequestBody.relink (body : RequestBody) (schemas : List Schema) : Supplied RequestBody :=
  let (content, rest) := relinkContent edges body.content schemas
  ({ body with content }, rest)

def Response.relink (response : Response) (schemas : List Schema) : Supplied Response :=
  let (content, rest) := relinkContent edges response.content schemas
  ({ response with
      content
      headers := mapEdges (edges.edge .headers) response.headers
      links := mapEdges (edges.edge .links) response.links }, rest)

def Header.relink (header : Header) (schemas : List Schema) : Supplied Header :=
  let (schema, rest) := supplyOption header.schema schemas
  ({ header with schema, examples := mapEdges (edges.edge .examples) header.examples }, rest)

def Callback.relink (callback : Callback) : Callback :=
  { expressions := mapEdges (edges.edge .pathItems) callback.expressions }

def SecurityRequirement.relink (requirement : SecurityRequirement) : SecurityRequirement :=
  { schemes := requirement.schemes.map fun (edge, scopes) =>
      (edges.edge .securitySchemes edge, scopes) }

def Operation.relink (operation : Operation) : Operation :=
  { operation with
    tags := operation.tags.map edges.tag
    parameters := operation.parameters.map (edges.edge .parameters)
    requestBody := operation.requestBody.map (edges.edge .requestBodies)
    responses := mapEdges (edges.edge .responses) operation.responses
    callbacks := mapEdges (edges.edge .callbacks) operation.callbacks
    security := operation.security.map (·.relink edges) }

def PathItem.relink (item : PathItem) : PathItem :=
  { item with
    get := item.get.map (·.relink edges)
    put := item.put.map (·.relink edges)
    post := item.post.map (·.relink edges)
    delete := item.delete.map (·.relink edges)
    options := item.options.map (·.relink edges)
    head := item.head.map (·.relink edges)
    patch := item.patch.map (·.relink edges)
    trace := item.trace.map (·.relink edges)
    parameters := item.parameters.map (edges.edge .parameters) }

def Entity.relink (schemas : List Schema) : Entity → Entity
  | .parameter value => .parameter (value.relink edges schemas).1
  | .requestBody value => .requestBody (value.relink edges schemas).1
  | .response value => .response (value.relink edges schemas).1
  | .header value => .header (value.relink edges schemas).1
  | .callback value => .callback (value.relink edges)
  | .pathItem value => .pathItem (value.relink edges)
  | .tag value => .tag value
  | .example value => .example value
  | .link value => .link value
  | .securityScheme value => .securityScheme value

def supplyTable : Table Schema → List Schema → Table Schema
  | (name, _) :: table, replacement :: rest => (name, replacement) :: supplyTable table rest
  | kept, _ => kept

def Components.relink (schemas : List Schema) (components : Components) : Components where
  schemas := supplyTable components.schemas schemas
  responses := mapEdges (edges.edge .responses) components.responses
  parameters := mapEdges (edges.edge .parameters) components.parameters
  examples := mapEdges (edges.edge .examples) components.examples
  requestBodies := mapEdges (edges.edge .requestBodies) components.requestBodies
  headers := mapEdges (edges.edge .headers) components.headers
  securitySchemes := mapEdges (edges.edge .securitySchemes) components.securitySchemes
  links := mapEdges (edges.edge .links) components.links
  callbacks := mapEdges (edges.edge .callbacks) components.callbacks
  pathItems := mapEdges (edges.edge .pathItems) components.pathItems

def Document.relink (schemas : List Schema) (document : Document) : Document :=
  { document with
    tags := document.tags.map edges.tag
    components := document.components.map (·.relink edges schemas)
    paths := mapEdges (edges.edge .pathItems) document.paths
    webhooks := mapEdges (edges.edge .pathItems) document.webhooks
    security := document.security.map (·.relink edges) }

end

end ApiLinker
