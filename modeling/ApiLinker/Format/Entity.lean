import ApiLinker.Format.Record
import ApiLinker.Graph
import ApiLinker.Schema.Format

/-!
The formats of entities.

An entity holds others by edges, so its format depends on the format of edges; `EdgeFormat` is what
an entity's format needs to know of it.
-/

namespace ApiLinker

structure EdgeFormat where
  edge : Category → Codec Graph Edge
  /-- Edges to tags by which operations are filed, written as names. -/
  tagName : Codec Graph Edge

namespace Format

def reference : Record Graph Reference where
  name := "Reference"
  blank := { pointer := "" }
  fields := [
    .required "$ref" .string (·.pointer) fun value record => { record with pointer := value }]

/-- Schema nodes read into a graph are counted by it. -/
def readSchema (node : Json.Node) : Decoder Graph Schema := fun graph => do
  let (schema, schemaCount) ← Schema.read node graph.schemaCount
  return (schema, { graph with schemaCount })

def schema : Codec Graph Schema where
  read := readSchema
  write value := .ok value.json
  same := Schema.same

def externalDocs : Record Graph ExternalDocs where
  name := "ExternalDocs"
  blank := {}
  fields := [
    .required "url" .string (·.url) fun value record => { record with url := value },
    .optional "description" .string (·.description)
      fun value record => { record with description := value }]

def tag : Record Graph Tag where
  name := "Tag"
  blank := {}
  fields := [
    .required "name" .string (·.name) fun value record => { record with name := value },
    .optional "description" .string (·.description)
      fun value record => { record with description := value },
    .optional "externalDocs" externalDocs.codec (·.externalDocs)
      fun value record => { record with externalDocs := value }]

def sample : Record Graph Example where
  name := "Example"
  blank := {}
  fields := [
    .optional "summary" .string (·.summary) fun value record => { record with summary := value },
    .optional "description" .string (·.description)
      fun value record => { record with description := value },
    .optional "value" .json (·.value) fun value record => { record with value },
    .optional "externalValue" .string (·.externalValue)
      fun value record => { record with externalValue := value }]

def link : Record Graph Link where
  name := "Link"
  blank := {}
  fields := [
    .optional "operationRef" .string (·.operationRef)
      fun value record => { record with operationRef := value },
    .optional "operationId" .string (·.operationId)
      fun value record => { record with operationId := value },
    .table "parameters" .json (·.parameters)
      fun value record => { record with parameters := value },
    .optional "requestBody" .json (·.requestBody)
      fun value record => { record with requestBody := value },
    .optional "description" .string (·.description)
      fun value record => { record with description := value }]

def securityScheme : Record Graph SecurityScheme where
  name := "SecurityScheme"
  blank := {}
  fields := [
    .required "type" .string (·.kind) fun value record => { record with kind := value },
    .optional "description" .string (·.description)
      fun value record => { record with description := value },
    .optional "name" .string (·.name) fun value record => { record with name := value },
    .optional "in" .string (·.location) fun value record => { record with location := value },
    .optional "scheme" .string (·.scheme) fun value record => { record with scheme := value },
    .optional "bearerFormat" .string (·.bearerFormat)
      fun value record => { record with bearerFormat := value },
    .optional "flows" .json (·.flows) fun value record => { record with flows := value },
    .optional "openIdConnectUrl" .string (·.openIdConnectUrl)
      fun value record => { record with openIdConnectUrl := value }]

def parameterLocations : List (String × ParameterLocation) :=
  [("query", .query), ("header", .header), ("path", .path), ("cookie", .cookie)]

def parameterLocationName : ParameterLocation → String
  | .query => "query"
  | .header => "header"
  | .path => "path"
  | .cookie => "cookie"

def parameterLocation : Codec σ ParameterLocation :=
  .variant parameterLocations parameterLocationName (· == ·)

def category : Codec σ Category :=
  .variant (Category.all.map fun category => (category.key, category)) Category.key (· == ·)

section

variable (edges : EdgeFormat)

def mediaType : Record Graph MediaType where
  name := "MediaType"
  blank := {}
  fields := [
    .optional "schema" schema (·.schema) fun value record => { record with schema := value },
    .optional "example" .json (·.sample) fun value record => { record with sample := value },
    .table "examples" (edges.edge .examples) (·.examples)
      fun value record => { record with examples := value }]

def header : Record Graph Header where
  name := "Header"
  blank := {}
  fields := [
    .optional "description" .string (·.description)
      fun value record => { record with description := value },
    .flag "required" (·.isRequired) fun value record => { record with isRequired := value },
    .flag "deprecated" (·.deprecated) fun value record => { record with deprecated := value },
    .optional "schema" schema (·.schema) fun value record => { record with schema := value },
    .optional "example" .json (·.sample) fun value record => { record with sample := value },
    .table "examples" (edges.edge .examples) (·.examples)
      fun value record => { record with examples := value }]

def parameter : Record Graph Parameter where
  name := "Parameter"
  blank := {}
  fields := [
    .required "name" .string (·.name) fun value record => { record with name := value },
    .required "in" parameterLocation (·.location)
      fun value record => { record with location := value },
    .optional "description" .string (·.description)
      fun value record => { record with description := value },
    .flag "required" (·.isRequired) fun value record => { record with isRequired := value },
    .flag "deprecated" (·.deprecated) fun value record => { record with deprecated := value },
    .optional "schema" schema (·.schema) fun value record => { record with schema := value },
    .optional "example" .json (·.sample) fun value record => { record with sample := value },
    .table "examples" (edges.edge .examples) (·.examples)
      fun value record => { record with examples := value },
    .table "content" (mediaType edges).codec (·.content)
      fun value record => { record with content := value }]

def requestBody : Record Graph RequestBody where
  name := "RequestBody"
  blank := {}
  fields := [
    .optional "description" .string (·.description)
      fun value record => { record with description := value },
    .always "content" (.table (mediaType edges).codec) (·.content)
      fun value record => { record with content := value },
    .flag "required" (·.isRequired) fun value record => { record with isRequired := value }]

def response : Record Graph Response where
  name := "Response"
  blank := {}
  fields := [
    .required "description" .string (·.description)
      fun value record => { record with description := value },
    .table "headers" (edges.edge .headers) (·.headers)
      fun value record => { record with headers := value },
    .table "content" (mediaType edges).codec (·.content)
      fun value record => { record with content := value },
    .table "links" (edges.edge .links) (·.links)
      fun value record => { record with links := value }]

def schemeOfEntry (entry : String × List String) : Edge × List String :=
  (.placeholder (Reference.toComponent .securitySchemes entry.1), entry.2)

def entryOfScheme (scheme : Edge × List String) : Except WriteFault (String × Json) :=
  match scheme.1.reference? with
  | some reference => .ok (reference.identifier, .array (scheme.2.map .string))
  | none => .error .inlineSecurityKey

/-- A requirement is written as an object from the names of schemes to their scopes. -/
def securityRequirement : Codec Graph SecurityRequirement where
  read node := do
    let entries ← (Codec.table (.list .string)).read node
    return { schemes := entries.map schemeOfEntry }
  write requirement := .object <$> requirement.schemes.mapM entryOfScheme
  same left right :=
    Codec.sameList
      (fun left right => (edges.edge .securitySchemes).same left.1 right.1 && left.2 == right.2)
      left.schemes right.schemes

def operation : Record Graph Operation where
  name := "Operation"
  blank := {}
  fields := [
    .list "tags" edges.tagName (·.tags) fun value record => { record with tags := value },
    .optional "summary" .string (·.summary) fun value record => { record with summary := value },
    .optional "description" .string (·.description)
      fun value record => { record with description := value },
    .optional "operationId" .string (·.operationId)
      fun value record => { record with operationId := value },
    .list "parameters" (edges.edge .parameters) (·.parameters)
      fun value record => { record with parameters := value },
    .optional "requestBody" (edges.edge .requestBodies) (·.requestBody)
      fun value record => { record with requestBody := value },
    .table "responses" (edges.edge .responses) (·.responses)
      fun value record => { record with responses := value },
    .table "callbacks" (edges.edge .callbacks) (·.callbacks)
      fun value record => { record with callbacks := value },
    .flag "deprecated" (·.deprecated) fun value record => { record with deprecated := value },
    .list "security" (securityRequirement edges) (·.security)
      fun value record => { record with security := value }]

def pathItem : Record Graph PathItem where
  name := "PathItem"
  blank := {}
  fields :=
    let operation := (operation edges).codec
    [.optional "summary" .string (·.summary) fun value record => { record with summary := value },
    .optional "description" .string (·.description)
      fun value record => { record with description := value },
    .optional "get" operation (·.get) fun value record => { record with get := value },
    .optional "put" operation (·.put) fun value record => { record with put := value },
    .optional "post" operation (·.post) fun value record => { record with post := value },
    .optional "delete" operation (·.delete) fun value record => { record with delete := value },
    .optional "options" operation (·.options) fun value record => { record with options := value },
    .optional "head" operation (·.head) fun value record => { record with head := value },
    .optional "patch" operation (·.patch) fun value record => { record with patch := value },
    .optional "trace" operation (·.trace) fun value record => { record with trace := value },
    .list "parameters" (edges.edge .parameters) (·.parameters)
      fun value record => { record with parameters := value }]

def callback : Codec Graph Callback :=
  .wrap Callback.mk Callback.expressions (.table (edges.edge .pathItems))

/-- Reads an entity of a category.  No entity is filed under the schemas. -/
def readEntity (category : Category) (node : Json.Node) : Decoder Graph Entity :=
  match category with
  | .tags => .tag <$> tag.read node
  | .parameters => .parameter <$> (parameter edges).read node
  | .requestBodies => .requestBody <$> (requestBody edges).read node
  | .responses => .response <$> (response edges).read node
  | .examples => .example <$> sample.read node
  | .headers => .header <$> (header edges).read node
  | .links => .link <$> link.read node
  | .callbacks => .callback <$> (callback edges).read node
  | .pathItems => .pathItem <$> (pathItem edges).read node
  | .securitySchemes => .securityScheme <$> securityScheme.read node
  | .schemas => throw .valueExpected

def writeEntity : Entity → Except WriteFault Json
  | .tag value => tag.codec.write value
  | .parameter value => (parameter edges).codec.write value
  | .requestBody value => (requestBody edges).codec.write value
  | .response value => (response edges).codec.write value
  | .example value => sample.codec.write value
  | .header value => (header edges).codec.write value
  | .link value => link.codec.write value
  | .callback value => (callback edges).write value
  | .pathItem value => (pathItem edges).codec.write value
  | .securityScheme value => securityScheme.codec.write value

def sameEntity : Entity → Entity → Bool
  | .tag left, .tag right => tag.codec.same left right
  | .parameter left, .parameter right => (parameter edges).codec.same left right
  | .requestBody left, .requestBody right => (requestBody edges).codec.same left right
  | .response left, .response right => (response edges).codec.same left right
  | .example left, .example right => sample.codec.same left right
  | .header left, .header right => (header edges).codec.same left right
  | .link left, .link right => link.codec.same left right
  | .callback left, .callback right => (callback edges).same left right
  | .pathItem left, .pathItem right => (pathItem edges).codec.same left right
  | .securityScheme left, .securityScheme right => securityScheme.codec.same left right
  | _, _ => false

end

end Format

end ApiLinker
