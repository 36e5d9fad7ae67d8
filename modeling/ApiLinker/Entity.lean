import ApiLinker.Category
import ApiLinker.Json.Value
import ApiLinker.Reference
import ApiLinker.Schema.Basic

/-!
Entities: the objects of an API description that others can refer to.

Entities are shared, so they hold each other by number, in edges.  What the numbers stand for is the
business of a `Graph`.
-/

namespace ApiLinker

abbrev EntityId := Nat

/-- How an entity, or the document, holds another entity. -/
inductive Edge where
  /-- Only named so far. -/
  | placeholder (reference : Reference)
  /-- Named and found. -/
  | linked (reference : Reference) (target : EntityId)
  /-- Held in place. -/
  | inline (target : EntityId)
deriving DecidableEq, Repr

namespace Edge

def reference? : Edge → Option Reference
  | .placeholder reference | .linked reference _ => some reference
  | .inline _ => none

def target? : Edge → Option EntityId
  | .placeholder _ => none
  | .linked _ target | .inline target => some target

end Edge

structure ExternalDocs where
  url : String := ""
  description : Option String := none

structure Tag where
  name : String := ""
  description : Option String := none
  externalDocs : Option ExternalDocs := none

structure Example where
  summary : Option String := none
  description : Option String := none
  value : Option Json := none
  externalValue : Option String := none

structure Link where
  operationRef : Option String := none
  operationId : Option String := none
  parameters : Table Json := []
  requestBody : Option Json := none
  description : Option String := none

structure SecurityScheme where
  kind : String := ""
  description : Option String := none
  name : Option String := none
  location : Option String := none
  scheme : Option String := none
  bearerFormat : Option String := none
  flows : Option Json := none
  openIdConnectUrl : Option String := none

structure MediaType where
  schema : Option Schema := none
  sample : Option Json := none
  examples : Table Edge := []

structure Header where
  description : Option String := none
  isRequired : Bool := false
  deprecated : Bool := false
  schema : Option Schema := none
  sample : Option Json := none
  examples : Table Edge := []

inductive ParameterLocation where
  | query
  | header
  | path
  | cookie
deriving DecidableEq, Repr

structure Parameter where
  name : String := ""
  location : ParameterLocation := .query
  description : Option String := none
  isRequired : Bool := false
  deprecated : Bool := false
  schema : Option Schema := none
  sample : Option Json := none
  examples : Table Edge := []
  content : Table MediaType := []

/-- A parameter in a path cannot be left out. -/
def Parameter.ofLocation (name : String) (location : ParameterLocation) : Parameter :=
  { name, location, isRequired := location == .path }

structure RequestBody where
  description : Option String := none
  content : Table MediaType := []
  isRequired : Bool := false

structure Response where
  description : String := ""
  headers : Table Edge := []
  content : Table MediaType := []
  links : Table Edge := []

/-- Security schemes that are required together, each with its scopes. -/
structure SecurityRequirement where
  schemes : List (Edge × List String) := []

namespace SecurityRequirement

def withScheme (requirement : SecurityRequirement) (name : String) (scopes : List String) :
    SecurityRequirement :=
  let edge := Edge.placeholder (Reference.toComponent .securitySchemes name)
  { schemes := requirement.schemes ++ [(edge, scopes)] }

/-- The scopes of the first scheme that is referred to by this name. -/
def scopesFor (requirement : SecurityRequirement) (name : String) : Option (List String) :=
  (requirement.schemes.find? fun (scheme, _) =>
    match scheme.reference? with
    | some reference => reference.identifier == name
    | none => false).map Prod.snd

end SecurityRequirement

structure Operation where
  tags : List Edge := []
  summary : Option String := none
  description : Option String := none
  operationId : Option String := none
  parameters : List Edge := []
  requestBody : Option Edge := none
  responses : Table Edge := []
  callbacks : Table Edge := []
  deprecated : Bool := false
  security : List SecurityRequirement := []

structure PathItem where
  summary : Option String := none
  description : Option String := none
  get : Option Operation := none
  put : Option Operation := none
  post : Option Operation := none
  delete : Option Operation := none
  options : Option Operation := none
  head : Option Operation := none
  patch : Option Operation := none
  trace : Option Operation := none
  parameters : List Edge := []

/-- The operations that are present, by method. -/
def PathItem.operations (item : PathItem) : Table Operation :=
  [("get", item.get), ("put", item.put), ("post", item.post), ("delete", item.delete),
    ("options", item.options), ("head", item.head), ("patch", item.patch),
    ("trace", item.trace)].filterMap fun (method, operation) => operation.map (method, ·)

/-- Requests that are made back to the caller, by the expression for their address. -/
structure Callback where
  expressions : Table Edge := []

inductive Entity where
  | tag (value : Tag)
  | parameter (value : Parameter)
  | requestBody (value : RequestBody)
  | response (value : Response)
  | «example» (value : Example)
  | header (value : Header)
  | link (value : Link)
  | callback (value : Callback)
  | pathItem (value : PathItem)
  | securityScheme (value : SecurityScheme)

def Entity.category : Entity → Category
  | .tag _ => .tags
  | .parameter _ => .parameters
  | .requestBody _ => .requestBodies
  | .response _ => .responses
  | .example _ => .examples
  | .header _ => .headers
  | .link _ => .links
  | .callback _ => .callbacks
  | .pathItem _ => .pathItems
  | .securityScheme _ => .securitySchemes

end ApiLinker
