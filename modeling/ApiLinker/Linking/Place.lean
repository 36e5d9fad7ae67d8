import ApiLinker.Document
import ApiLinker.Schema.Registry

/-!
Places: where entities and documents hold what a walk can change.

`places` lists them in the order in which a walk visits them, each with its path from the holder.
-/

namespace ApiLinker

inductive Held where
  | edge (category : Category) (edge : Edge)
  /-- An edge to a tag, which is never entered. -/
  | tag (edge : Edge)
  | schema (schema : Schema)
  /-- A schema that is registered under a name. -/
  | namedSchema (name : String) (schema : Schema)

structure Place where
  path : List String
  held : Held

namespace Place

def under (path : List String) (place : Place) : Place :=
  { place with path := path ++ place.path }

def ofTable (category : Category) (edges : Table Edge) : List Place :=
  edges.map fun (name, edge) => { path := [name], held := .edge category edge }

def ofList (category : Category) (edges : List Edge) : List Place :=
  edges.zipIdx.map fun (edge, index) =>
    { path := [toString index], held := .edge category edge }

def ofTags (edges : List Edge) : List Place :=
  edges.zipIdx.map fun (edge, index) => { path := [toString index], held := .tag edge }

def ofSchema (schema : Option Schema) : List Place :=
  schema.toList.map fun schema => { path := ["schema"], held := .schema schema }

def within (segment : String) (places : List Place) : List Place :=
  places.map (under [segment])

end Place

open Place

def MediaType.places (media : MediaType) : List Place :=
  ofSchema media.schema ++ within "examples" (ofTable .examples media.examples)

def contentPlaces (content : Table MediaType) : List Place :=
  content.flatMap fun (name, media) => within name media.places

def Parameter.places (parameter : Parameter) : List Place :=
  ofSchema parameter.schema ++ within "examples" (ofTable .examples parameter.examples) ++
    within "content" (contentPlaces parameter.content)

def RequestBody.places (body : RequestBody) : List Place :=
  within "content" (contentPlaces body.content)

def Response.places (response : Response) : List Place :=
  within "headers" (ofTable .headers response.headers) ++
    within "content" (contentPlaces response.content) ++
    within "links" (ofTable .links response.links)

def Header.places (header : Header) : List Place :=
  ofSchema header.schema ++ within "examples" (ofTable .examples header.examples)

def Callback.places (callback : Callback) : List Place :=
  ofTable .pathItems callback.expressions

/-- The place of a scheme is named by the identifier under which it is referred to. -/
def SecurityRequirement.places (requirement : SecurityRequirement) : List Place :=
  requirement.schemes.map fun (edge, _) =>
    { path := [(edge.reference?.map Reference.identifier).getD ""]
      held := .edge .securitySchemes edge }

def securityPlaces (requirements : List SecurityRequirement) : List Place :=
  requirements.zipIdx.flatMap fun (requirement, index) =>
    within (toString index) requirement.places

def Operation.places (operation : Operation) : List Place :=
  operation.requestBody.toList.map
      (fun edge => { path := ["requestBody"], held := .edge .requestBodies edge }) ++
    within "parameters" (ofList .parameters operation.parameters) ++
    within "tags" (ofTags operation.tags) ++
    within "responses" (ofTable .responses operation.responses) ++
    within "callbacks" (ofTable .callbacks operation.callbacks) ++
    within "security" (securityPlaces operation.security)

def PathItem.places (item : PathItem) : List Place :=
  within "parameters" (ofList .parameters item.parameters) ++
    item.operations.flatMap fun (method, operation) => within method operation.places

def Entity.places : Entity → List Place
  | .parameter value => value.places
  | .requestBody value => value.places
  | .response value => value.places
  | .header value => value.places
  | .callback value => value.places
  | .pathItem value => value.places
  | .tag _ | .example _ | .link _ | .securityScheme _ => []

def Components.places (components : Components) : List Place :=
  within "parameters" (ofTable .parameters components.parameters) ++
    within "requestBodies" (ofTable .requestBodies components.requestBodies) ++
    within "responses" (ofTable .responses components.responses) ++
    within "links" (ofTable .links components.links) ++
    within "callbacks" (ofTable .callbacks components.callbacks) ++
    within "examples" (ofTable .examples components.examples) ++
    within "schemas" (components.schemas.map fun (name, schema) =>
      { path := [name], held := .namedSchema name schema }) ++
    within "pathItems" (ofTable .pathItems components.pathItems) ++
    within "securitySchemes" (ofTable .securitySchemes components.securitySchemes) ++
    within "headers" (ofTable .headers components.headers)

def Document.places (document : Document) : List Place :=
  within "tags" (ofTags document.tags) ++
    (document.components.toList.flatMap fun components =>
      within "components" components.places) ++
    within "paths" (ofTable .pathItems document.paths) ++
    within "webhooks" (ofTable .pathItems document.webhooks) ++
    within "security" (securityPlaces document.security)

end ApiLinker
