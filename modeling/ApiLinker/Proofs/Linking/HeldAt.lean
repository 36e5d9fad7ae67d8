import ApiLinker.Proofs.Linking.Holding

/-!
What stands at a path.

`heldAt` follows a path through an object by the names of its members, the numbers of the elements
of its lists and the keys of its tables.  It gives all that stands there, as a security requirement
can name a scheme twice.  The places of an object are those at which something stands
(`Entity.heldAt_eq`, `Document.heldAt_eq`).
-/

namespace ApiLinker

namespace Held

def ofOption (hold : α → Held) (value : Option α) : List String → List Held
  | [] => value.toList.map hold
  | _ => []

def ofTable (category : Category) (edges : Table Edge) : List String → List Held
  | [key] => (edges.filter fun entry => entry.1 = key).map fun entry => .edge category entry.2
  | _ => []

def ofSchemas (schemas : Table Schema) : List String → List Held
  | [name] => (schemas.filter fun entry => entry.1 = name).map fun entry =>
      .namedSchema entry.1 entry.2
  | _ => []

def ofList (hold : Edge → Held) (edges : List Edge) : List String → List Held
  | [number] => (edges.zipIdx.filter fun entry => toString entry.2 = number).map fun entry =>
      hold entry.1
  | _ => []

end Held

section

/-! Each kind of object. -/

open Held

def MediaType.heldAt (media : MediaType) : List String → List Held
  | "schema" :: path => ofOption .schema media.schema path
  | "examples" :: path => ofTable .examples media.examples path
  | _ => []

def contentHeldAt (content : Table MediaType) : List String → List Held
  | key :: path => content.flatMap fun entry => if key = entry.1 then entry.2.heldAt path else []
  | [] => []

def Parameter.heldAt (parameter : Parameter) : List String → List Held
  | "schema" :: path => ofOption .schema parameter.schema path
  | "examples" :: path => ofTable .examples parameter.examples path
  | "content" :: path => contentHeldAt parameter.content path
  | _ => []

def RequestBody.heldAt (body : RequestBody) : List String → List Held
  | "content" :: path => contentHeldAt body.content path
  | _ => []

def Response.heldAt (response : Response) : List String → List Held
  | "headers" :: path => ofTable .headers response.headers path
  | "content" :: path => contentHeldAt response.content path
  | "links" :: path => ofTable .links response.links path
  | _ => []

def Header.heldAt (header : Header) : List String → List Held
  | "schema" :: path => ofOption .schema header.schema path
  | "examples" :: path => ofTable .examples header.examples path
  | _ => []

/-- The key of a scheme is the name by which it is referred to; one that is held in place has
none. -/
def SecurityRequirement.heldAt (requirement : SecurityRequirement) : List String → List Held
  | [key] => (requirement.schemes.filter fun entry =>
      (entry.1.reference?.map Reference.identifier).getD "" = key).map fun entry =>
        .edge .securitySchemes entry.1
  | _ => []

def securityHeldAt (requirements : List SecurityRequirement) : List String → List Held
  | number :: path => requirements.zipIdx.flatMap fun entry =>
      if number = toString entry.2 then entry.1.heldAt path else []
  | [] => []

def Operation.heldAt (operation : Operation) : List String → List Held
  | "tags" :: path => ofList .tag operation.tags path
  | "parameters" :: path => ofList (.edge .parameters) operation.parameters path
  | "requestBody" :: path => ofOption (.edge .requestBodies) operation.requestBody path
  | "responses" :: path => ofTable .responses operation.responses path
  | "callbacks" :: path => ofTable .callbacks operation.callbacks path
  | "security" :: path => securityHeldAt operation.security path
  | _ => []

def PathItem.heldAt (item : PathItem) : List String → List Held
  | "get" :: path => item.get.toList.flatMap (·.heldAt path)
  | "put" :: path => item.put.toList.flatMap (·.heldAt path)
  | "post" :: path => item.post.toList.flatMap (·.heldAt path)
  | "delete" :: path => item.delete.toList.flatMap (·.heldAt path)
  | "options" :: path => item.options.toList.flatMap (·.heldAt path)
  | "head" :: path => item.head.toList.flatMap (·.heldAt path)
  | "patch" :: path => item.patch.toList.flatMap (·.heldAt path)
  | "trace" :: path => item.trace.toList.flatMap (·.heldAt path)
  | "parameters" :: path => ofList (.edge .parameters) item.parameters path
  | _ => []

def Entity.heldAt : Entity → List String → List Held
  | .parameter value => value.heldAt
  | .requestBody value => value.heldAt
  | .response value => value.heldAt
  | .header value => value.heldAt
  | .callback value => ofTable .pathItems value.expressions
  | .pathItem value => value.heldAt
  | .tag _ | .example _ | .link _ | .securityScheme _ => fun _ => []

def Components.heldAt (components : Components) : List String → List Held
  | "schemas" :: path => ofSchemas components.schemas path
  | "responses" :: path => ofTable .responses components.responses path
  | "parameters" :: path => ofTable .parameters components.parameters path
  | "examples" :: path => ofTable .examples components.examples path
  | "requestBodies" :: path => ofTable .requestBodies components.requestBodies path
  | "headers" :: path => ofTable .headers components.headers path
  | "securitySchemes" :: path => ofTable .securitySchemes components.securitySchemes path
  | "links" :: path => ofTable .links components.links path
  | "callbacks" :: path => ofTable .callbacks components.callbacks path
  | "pathItems" :: path => ofTable .pathItems components.pathItems path
  | _ => []

def Document.heldAt (document : Document) : List String → List Held
  | "paths" :: path => ofTable .pathItems document.paths path
  | "webhooks" :: path => ofTable .pathItems document.webhooks path
  | "components" :: path => document.components.toList.flatMap (·.heldAt path)
  | "security" :: path => securityHeldAt document.security path
  | "tags" :: path => ofList .tag document.tags path
  | _ => []

end

namespace Place

/-- What stands at a path among places. -/
def heldsAt (places : List Place) (path : List String) : List Held :=
  helds (places.filter fun place => place.path = path)

theorem mem_helds_iff {places : List Place} {held : Held} :
    held ∈ helds places ↔ ∃ path, held ∈ heldsAt places path := by
  simp only [helds, heldsAt, List.mem_map, List.mem_filter, decide_eq_true_eq]
  constructor
  · rintro ⟨place, member, rfl⟩
    exact ⟨place.path, place, ⟨member, rfl⟩, rfl⟩
  · rintro ⟨_, place, ⟨member, _⟩, rfl⟩
    exact ⟨place, member, rfl⟩

@[simp] theorem heldsAt_append (left right : List Place) (path : List String) :
    heldsAt (left ++ right) path = heldsAt left path ++ heldsAt right path := by
  simp [heldsAt]

@[simp] theorem heldsAt_flatMap (list : List α) (places : α → List Place) (path : List String) :
    heldsAt (list.flatMap places) path = list.flatMap fun item => heldsAt (places item) path := by
  simp [heldsAt, List.filter_flatMap]

@[simp] theorem heldsAt_within_nil (name : String) (places : List Place) :
    heldsAt (within name places) [] = [] := by
  simp [heldsAt, within, under, List.filter_map, Function.comp_def]

@[simp] theorem heldsAt_within_cons (name : String) (places : List Place) (segment : String)
    (path : List String) :
    heldsAt (within name places) (segment :: path) =
      if segment = name then heldsAt places path else [] := by
  by_cases same : segment = name
  · simp [heldsAt, within, under, helds, List.filter_map, Function.comp_def, same]
  · simp [heldsAt, within, under, helds, List.filter_map, Function.comp_def, same, Ne.symm same]

@[simp] theorem heldsAt_ofTable (category : Category) (edges : Table Edge) (path : List String) :
    heldsAt (ofTable category edges) path = Held.ofTable category edges path := by
  rcases path with _ | ⟨key, _ | _⟩ <;>
    simp [heldsAt, ofTable, helds, Held.ofTable, List.filter_map, Function.comp_def]

@[simp] theorem heldsAt_ofList (category : Category) (edges : List Edge) (path : List String) :
    heldsAt (ofList category edges) path = Held.ofList (.edge category) edges path := by
  rcases path with _ | ⟨number, _ | _⟩ <;>
    simp [heldsAt, ofList, helds, Held.ofList, List.filter_map, Function.comp_def]

@[simp] theorem heldsAt_ofTags (edges : List Edge) (path : List String) :
    heldsAt (ofTags edges) path = Held.ofList .tag edges path := by
  rcases path with _ | ⟨number, _ | _⟩ <;>
    simp [heldsAt, ofTags, helds, Held.ofList, List.filter_map, Function.comp_def]

@[simp] theorem heldsAt_ofSchemas (schemas : Table Schema) (path : List String) :
    heldsAt (schemas.map fun entry =>
        { path := [entry.1], held := .namedSchema entry.1 entry.2 }) path =
      Held.ofSchemas schemas path := by
  rcases path with _ | ⟨name, _ | _⟩ <;>
    simp [heldsAt, helds, Held.ofSchemas, List.filter_map, Function.comp_def]

@[simp] theorem heldsAt_named_nil (name : String) (hold : α → Held) (value : Option α) :
    heldsAt (value.toList.map fun value => { path := [name], held := hold value }) [] = [] := by
  simp [heldsAt, List.filter_map, Function.comp_def]

@[simp] theorem heldsAt_named_cons (name : String) (hold : α → Held) (value : Option α)
    (segment : String) (path : List String) :
    heldsAt (value.toList.map fun value => { path := [name], held := hold value })
        (segment :: path) =
      if segment = name then Held.ofOption hold value path else [] := by
  by_cases same : segment = name
  · cases path <;>
      simp [heldsAt, helds, Held.ofOption, List.filter_map, Function.comp_def, same]
  · simp [heldsAt, helds, List.filter_map, Function.comp_def, same, Ne.symm same]

end Place

section

/-! What stands at a path stands there among the places. -/

open Place

variable (path : List String)

theorem MediaType.heldAt_eq (media : MediaType) :
    media.heldAt path = heldsAt media.places path := by
  fun_cases heldAt media path with
  | case1 | case2 => simp [places, ofSchema]
  | case3 => cases path <;> simp_all [places, ofSchema]

theorem contentHeldAt_eq (content : Table MediaType) :
    contentHeldAt content path = heldsAt (contentPlaces content) path := by
  cases path with
  | nil => simp [contentHeldAt, contentPlaces]
  | cons => simp [contentHeldAt, contentPlaces, MediaType.heldAt_eq]

theorem Parameter.heldAt_eq (parameter : Parameter) :
    parameter.heldAt path = heldsAt parameter.places path := by
  fun_cases heldAt parameter path with
  | case1 | case2 | case3 => simp [places, ofSchema, contentHeldAt_eq]
  | case4 => cases path <;> simp_all [places, ofSchema]

theorem RequestBody.heldAt_eq (body : RequestBody) :
    body.heldAt path = heldsAt body.places path := by
  fun_cases heldAt body path with
  | case1 => simp [places, contentHeldAt_eq]
  | case2 => cases path <;> simp_all [places]

theorem Response.heldAt_eq (response : Response) :
    response.heldAt path = heldsAt response.places path := by
  fun_cases heldAt response path with
  | case1 | case2 | case3 => simp [places, contentHeldAt_eq]
  | case4 => cases path <;> simp_all [places]

theorem Header.heldAt_eq (header : Header) :
    header.heldAt path = heldsAt header.places path := by
  fun_cases heldAt header path with
  | case1 | case2 => simp [places, ofSchema]
  | case3 => cases path <;> simp_all [places, ofSchema]

theorem SecurityRequirement.heldAt_eq (requirement : SecurityRequirement) :
    requirement.heldAt path = heldsAt requirement.places path := by
  rcases path with _ | ⟨key, _ | _⟩ <;>
    simp [heldAt, heldsAt, places, helds, List.filter_map, Function.comp_def]

theorem securityHeldAt_eq (requirements : List SecurityRequirement) :
    securityHeldAt requirements path = heldsAt (securityPlaces requirements) path := by
  cases path with
  | nil => simp [securityHeldAt, securityPlaces]
  | cons => simp [securityHeldAt, securityPlaces, SecurityRequirement.heldAt_eq]

theorem Operation.heldAt_eq (operation : Operation) :
    operation.heldAt path = heldsAt operation.places path := by
  fun_cases heldAt operation path with
  | case1 | case2 | case3 | case4 | case5 | case6 => simp [places, securityHeldAt_eq]
  | case7 => cases path <;> simp_all [places]

theorem flatMap_nothing (list : List α) : (list.flatMap fun _ => ([] : List β)) = [] :=
  List.flatMap_eq_nil_iff.mpr fun _ _ => rfl

theorem PathItem.heldAt_eq (item : PathItem) :
    item.heldAt path = heldsAt item.places path := by
  fun_cases heldAt item path with
  | case1 | case2 | case3 | case4 | case5 | case6 | case7 | case8 | case9 =>
      simp [places, flatMap_operations, Operation.heldAt_eq, flatMap_nothing]
  | case10 => cases path <;> simp_all [places, flatMap_operations, flatMap_nothing]

theorem Entity.heldAt_eq (entity : Entity) :
    entity.heldAt path = heldsAt entity.places path := by
  cases entity with
  | parameter value => exact value.heldAt_eq path
  | requestBody value => exact value.heldAt_eq path
  | response value => exact value.heldAt_eq path
  | header value => exact value.heldAt_eq path
  | callback value => exact (heldsAt_ofTable .pathItems value.expressions path).symm
  | pathItem value => exact value.heldAt_eq path
  | tag | «example» | link | securityScheme => rfl

theorem Components.heldAt_eq (components : Components) :
    components.heldAt path = heldsAt components.places path := by
  fun_cases heldAt components path with
  | case1 | case2 | case3 | case4 | case5 | case6 | case7 | case8 | case9 | case10 =>
      simp [places]
  | case11 => cases path <;> simp_all [places]

theorem Document.heldAt_eq (document : Document) :
    document.heldAt path = heldsAt document.places path := by
  fun_cases heldAt document path with
  | case1 | case2 | case3 | case4 | case5 =>
      simp [places, Components.heldAt_eq, securityHeldAt_eq]
  | case6 => cases path <;> simp_all [places]

end

/-- What an entity holds is what stands at its paths. -/
theorem Entity.holds_iff_heldAt {entity : Entity} {held : Held} :
    entity.Holds held ↔ ∃ path, held ∈ entity.heldAt path := by
  simp only [holds_iff, Place.mem_helds_iff, heldAt_eq]

theorem Document.holds_iff_heldAt {document : Document} {held : Held} :
    document.Holds held ↔ ∃ path, held ∈ document.heldAt path := by
  simp only [holds_iff, Place.mem_helds_iff, heldAt_eq]

end ApiLinker
