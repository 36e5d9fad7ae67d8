import ApiLinker.Linking.Place

/-!
Views: what a document holds, listed in the order in which it is written.

`Graph.listing` is every edge and schema of a document, each with its path; the contents of an
inline entity follow the edge that holds it, and no other edge is entered.  Two views are made
from it: the edges with the places of their targets, and the schema nodes that are one object in
several places.
-/

namespace ApiLinker

open Place

namespace Operation

def writtenPlaces (operation : Operation) : List Place :=
  within "tags" (ofTags operation.tags) ++
    within "parameters" (ofList .parameters operation.parameters) ++
    operation.requestBody.toList.map
      (fun edge => { path := ["requestBody"], held := .edge .requestBodies edge }) ++
    within "responses" (ofTable .responses operation.responses) ++
    within "callbacks" (ofTable .callbacks operation.callbacks) ++
    within "security" (securityPlaces operation.security)

end Operation

def PathItem.writtenPlaces (item : PathItem) : List Place :=
  (item.operations.flatMap fun (method, operation) => within method operation.writtenPlaces) ++
    within "parameters" (ofList .parameters item.parameters)

/-- The places of an entity as they are written. -/
def Entity.writtenPlaces : Entity → List Place
  | .pathItem value => value.writtenPlaces
  | entity => entity.places

def Components.writtenPlaces (components : Components) : List Place :=
  within "schemas" (components.schemas.map fun (name, schema) =>
      { path := [name], held := .namedSchema name schema }) ++
    within "responses" (ofTable .responses components.responses) ++
    within "parameters" (ofTable .parameters components.parameters) ++
    within "examples" (ofTable .examples components.examples) ++
    within "requestBodies" (ofTable .requestBodies components.requestBodies) ++
    within "headers" (ofTable .headers components.headers) ++
    within "securitySchemes" (ofTable .securitySchemes components.securitySchemes) ++
    within "links" (ofTable .links components.links) ++
    within "callbacks" (ofTable .callbacks components.callbacks) ++
    within "pathItems" (ofTable .pathItems components.pathItems)

def Document.writtenPlaces (document : Document) : List Place :=
  within "tags" (ofTags document.tags) ++
    (document.components.toList.flatMap fun components =>
      within "components" components.writtenPlaces) ++
    within "paths" (ofTable .pathItems document.paths) ++
    within "webhooks" (ofTable .pathItems document.webhooks) ++
    within "security" (securityPlaces document.security)

namespace Held

def edge? : Held → Option Edge
  | .edge _ held | .tag held => some held
  | .schema _ | .namedSchema _ _ => none

def schema? : Held → Option Schema
  | .schema held | .namedSchema _ held => some held
  | .edge _ _ | .tag _ => none

def inline? (held : Held) : Option EntityId :=
  match held.edge? with
  | some (.inline target) => some target
  | _ => none

end Held

namespace Graph

/-- Places, each followed by the places of the entity that it holds in place.  Entities are
entered at most `depth` deep. -/
def listing (graph : Graph) : (depth : Nat) → List Place → List Place
  | 0, places => places
  | depth + 1, places =>
      places.flatMap fun place =>
        place :: match place.held.inline?.bind graph.entity? with
          | some entity => (graph.listing depth entity.writtenPlaces).map (under place.path)
          | none => []

/-- All places of a document.  Inline entities nest no deeper than there are entities. -/
def places (graph : Graph) (document : Document) : List Place :=
  graph.listing graph.size document.writtenPlaces

end Graph

/-- Where a target stands: at the first place that holds it inline, if there is one. -/
def locate (places : List Place) (target : EntityId) : Option (List String) :=
  (places.find? fun place => place.held.inline? == some target).map (·.path)

/-- The edges among places, each with the path of its target. -/
def edgeView (places : List Place) : List (List String × Edge × Option (List String)) :=
  places.filterMap fun place =>
    place.held.edge?.map fun edge => (place.path, edge, edge.target?.bind (locate places))

/-- Schema nodes that have been met, with their paths, and the paths at which a node was met
again. -/
structure Meetings where
  met : List (Nat × List String) := []
  repeated : List (List String × List String) := []

namespace Schema

/-- Meets the nodes of a schema.  A node that was met before is not entered. -/
def meet : Schema → (path : List String) → Meetings → Meetings :=
  recurse fun schema body path meetings =>
    match Table.find? schema.id meetings.met with
    | some first => { meetings with repeated := meetings.repeated ++ [(path, first)] }
    | none =>
        let meetings := { meetings with met := Table.insert schema.id path meetings.met }
        body.children.visits.foldl
          (fun meetings (slot, enter) => enter (path ++ slot.segments) meetings) meetings

end Schema

/-- The paths at which a schema node stands that stands at an earlier path too, with that path. -/
def sharingView (places : List Place) : List (List String × List String) :=
  (places.foldl (fun meetings place =>
    match place.held.schema? with
    | some schema => schema.meet place.path meetings
    | none => meetings) ({} : Meetings)).repeated

end ApiLinker
