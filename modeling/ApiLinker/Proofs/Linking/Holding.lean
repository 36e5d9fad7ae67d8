import ApiLinker.Proofs.Linking.Change
import ApiLinker.View

/-!
What objects hold is what their places hold.

`places` lists the positions of an object in the order of a walk, and `Holds` names them.  The two
agree, and what becomes of an object by `Changes` becomes of its places one by one.
-/

namespace ApiLinker

namespace Place

def helds (places : List Place) : List Held :=
  places.map Place.held

@[simp] theorem helds_nil : helds [] = [] := rfl

@[simp] theorem helds_append (left right : List Place) :
    helds (left ++ right) = helds left ++ helds right :=
  List.map_append

@[simp] theorem helds_within (segment : String) (places : List Place) :
    helds (within segment places) = helds places := by
  simp [helds, within, under, Function.comp_def]

@[simp] theorem helds_flatMap (list : List α) (places : α → List Place) :
    helds (list.flatMap places) = list.flatMap fun item => helds (places item) :=
  List.map_flatMap

@[simp] theorem helds_ofTable (category : Category) (edges : Table Edge) :
    helds (ofTable category edges) = edges.map fun entry => .edge category entry.2 := by
  simp [helds, ofTable, Function.comp_def]

theorem map_zipIdx_fst (f : α → β) (list : List α) :
    (list.zipIdx.map fun entry => f entry.1) = list.map f := by
  rw [← Function.comp_def f Prod.fst, ← List.map_map, List.zipIdx_map_fst]

@[simp] theorem helds_ofList (category : Category) (edges : List Edge) :
    helds (ofList category edges) = edges.map (.edge category) := by
  rw [← map_zipIdx_fst, helds, ofList, List.map_map]
  rfl

@[simp] theorem helds_ofTags (edges : List Edge) : helds (ofTags edges) = edges.map .tag := by
  rw [← map_zipIdx_fst, helds, ofTags, List.map_map]
  rfl

@[simp] theorem helds_ofSchema (schema : Option Schema) :
    helds (ofSchema schema) = schema.toList.map .schema := by
  simp [helds, ofSchema, Function.comp_def]

end Place

section

/-! The places of each kind of object, without their paths. -/

open Place

@[simp] theorem MediaType.helds_places (media : MediaType) :
    helds media.places =
      media.schema.toList.map .schema ++
        media.examples.map fun entry => .edge .examples entry.2 := by
  simp [places]

@[simp] theorem helds_contentPlaces (content : Table MediaType) :
    helds (contentPlaces content) = content.flatMap fun entry => helds entry.2.places := by
  simp [contentPlaces]

@[simp] theorem SecurityRequirement.helds_places (requirement : SecurityRequirement) :
    helds requirement.places =
      requirement.schemes.map fun entry => .edge .securitySchemes entry.1 := by
  simp [helds, places, Function.comp_def]

@[simp] theorem helds_securityPlaces (requirements : List SecurityRequirement) :
    helds (securityPlaces requirements) =
      requirements.flatMap fun requirement => helds requirement.places := by
  simp only [securityPlaces, helds_flatMap, helds_within]
  rw [List.flatMap_def, List.flatMap_def,
    map_zipIdx_fst fun requirement : SecurityRequirement => helds requirement.places]

end

section

/-! The places of an object hold what it holds. -/

open Place

variable {held : Held}

theorem MediaType.holds_iff {media : MediaType} : media.Holds held ↔ held ∈ helds media.places := by
  simp only [helds_places, List.mem_append, List.mem_map, Option.mem_toList]
  constructor
  · intro holds
    cases holds with
    | schema found => exact .inl ⟨_, found, rfl⟩
    | «example» member => exact .inr ⟨_, member, rfl⟩
  · intro member
    rcases member with ⟨_, found, rfl⟩ | ⟨_, member, rfl⟩
    · exact .schema found
    · exact .example member

theorem Parameter.holds_iff {parameter : Parameter} :
    parameter.Holds held ↔ held ∈ helds parameter.places := by
  simp only [places, helds_append, helds_ofSchema, helds_within, helds_ofTable,
    helds_contentPlaces, List.mem_append, List.mem_map, List.mem_flatMap, Option.mem_toList,
    ← MediaType.holds_iff]
  constructor
  · intro holds
    cases holds with
    | schema found => exact .inl (.inl ⟨_, found, rfl⟩)
    | «example» member => exact .inl (.inr ⟨_, member, rfl⟩)
    | content member inside => exact .inr ⟨_, member, inside⟩
  · intro member
    rcases member with (⟨_, found, rfl⟩ | ⟨_, member, rfl⟩) | ⟨_, member, inside⟩
    · exact .schema found
    · exact .example member
    · exact .content member inside

theorem RequestBody.holds_iff {body : RequestBody} :
    body.Holds held ↔ held ∈ helds body.places := by
  simp only [places, helds_within, helds_contentPlaces, List.mem_flatMap, ← MediaType.holds_iff]
  constructor
  · intro holds
    cases holds with
    | content member inside => exact ⟨_, member, inside⟩
  · intro member
    obtain ⟨_, member, inside⟩ := member
    exact .content member inside

theorem Response.holds_iff {response : Response} :
    response.Holds held ↔ held ∈ helds response.places := by
  simp only [places, helds_append, helds_within, helds_ofTable, helds_contentPlaces,
    List.mem_append, List.mem_map, List.mem_flatMap, ← MediaType.holds_iff]
  constructor
  · intro holds
    cases holds with
    | header member => exact .inl (.inl ⟨_, member, rfl⟩)
    | content member inside => exact .inl (.inr ⟨_, member, inside⟩)
    | link member => exact .inr ⟨_, member, rfl⟩
  · intro member
    rcases member with (⟨_, member, rfl⟩ | ⟨_, member, inside⟩) | ⟨_, member, rfl⟩
    · exact .header member
    · exact .content member inside
    · exact .link member

theorem Header.holds_iff {header : Header} : header.Holds held ↔ held ∈ helds header.places := by
  simp only [places, helds_append, helds_ofSchema, helds_within, helds_ofTable, List.mem_append,
    List.mem_map, Option.mem_toList]
  constructor
  · intro holds
    cases holds with
    | schema found => exact .inl ⟨_, found, rfl⟩
    | «example» member => exact .inr ⟨_, member, rfl⟩
  · intro member
    rcases member with ⟨_, found, rfl⟩ | ⟨_, member, rfl⟩
    · exact .schema found
    · exact .example member

theorem Callback.holds_iff {callback : Callback} :
    callback.Holds held ↔ held ∈ helds callback.places := by
  simp only [places, helds_ofTable, List.mem_map]
  constructor
  · intro holds
    cases holds with
    | expression member => exact ⟨_, member, rfl⟩
  · intro member
    obtain ⟨_, member, rfl⟩ := member
    exact .expression member

theorem SecurityRequirement.holds_iff {requirement : SecurityRequirement} :
    requirement.Holds held ↔ held ∈ helds requirement.places := by
  simp only [helds_places, List.mem_map]
  constructor
  · intro holds
    cases holds with
    | scheme member => exact ⟨_, member, rfl⟩
  · intro member
    obtain ⟨_, member, rfl⟩ := member
    exact .scheme member

@[simp] theorem Operation.helds_places (operation : Operation) :
    helds operation.places = operation.requestBody.toList.map (.edge .requestBodies) ++
      operation.parameters.map (.edge .parameters) ++ operation.tags.map .tag ++
      operation.responses.map (fun entry => .edge .responses entry.2) ++
      operation.callbacks.map (fun entry => .edge .callbacks entry.2) ++
      operation.security.flatMap fun requirement => helds requirement.places := by
  have single : helds (operation.requestBody.toList.map fun edge =>
      { path := ["requestBody"], held := .edge .requestBodies edge }) =
        operation.requestBody.toList.map (.edge .requestBodies) := by
    simp [helds, Function.comp_def]
  simp only [places, helds_append, helds_within, helds_ofList, helds_ofTags, helds_ofTable,
    helds_securityPlaces, single]

theorem Operation.holds_iff {operation : Operation} :
    operation.Holds held ↔ held ∈ helds operation.places := by
  simp only [helds_places, List.mem_append, List.mem_map, List.mem_flatMap, Option.mem_toList,
    ← SecurityRequirement.holds_iff]
  constructor
  · intro holds
    cases holds with
    | tag member => exact .inl (.inl (.inl (.inr ⟨_, member, rfl⟩)))
    | parameter member => exact .inl (.inl (.inl (.inl (.inr ⟨_, member, rfl⟩))))
    | requestBody found => exact .inl (.inl (.inl (.inl (.inl ⟨_, found, rfl⟩))))
    | response member => exact .inl (.inl (.inr ⟨_, member, rfl⟩))
    | callback member => exact .inl (.inr ⟨_, member, rfl⟩)
    | security member inside => exact .inr ⟨_, member, inside⟩
  · intro member
    rcases member with
      ((((⟨_, found, rfl⟩ | ⟨_, member, rfl⟩) | ⟨_, member, rfl⟩) | ⟨_, member, rfl⟩) |
        ⟨_, member, rfl⟩) | ⟨_, member, inside⟩
    · exact .requestBody found
    · exact .parameter member
    · exact .tag member
    · exact .response member
    · exact .callback member
    · exact .security member inside

theorem PathItem.flatMap_operations (item : PathItem) (f : String × Operation → List β) :
    item.operations.flatMap f =
      [("get", item.get), ("put", item.put), ("post", item.post), ("delete", item.delete),
        ("options", item.options), ("head", item.head), ("patch", item.patch),
        ("trace", item.trace)].flatMap fun (method, operation) =>
          operation.toList.flatMap fun operation => f (method, operation) := by
  rw [operations, List.filterMap_eq_flatMap_toList, List.flatMap_assoc]
  simp [Option.toList_map, List.flatMap_map]

theorem PathItem.holds_iff {item : PathItem} : item.Holds held ↔ held ∈ helds item.places := by
  simp only [places, helds_append, helds_within, helds_ofList, helds_flatMap, List.mem_append,
    List.mem_map, List.mem_flatMap, ← Operation.holds_iff]
  constructor
  · intro holds
    cases holds with
    | parameter member => exact .inl ⟨_, member, rfl⟩
    | operation member inside => exact .inr ⟨_, member, inside⟩
  · intro member
    rcases member with ⟨_, member, rfl⟩ | ⟨_, member, inside⟩
    · exact .parameter member
    · exact .operation member inside

theorem Entity.holds_iff {entity : Entity} : entity.Holds held ↔ held ∈ helds entity.places := by
  cases entity with
  | parameter value => exact Parameter.holds_iff
  | requestBody value => exact RequestBody.holds_iff
  | response value => exact Response.holds_iff
  | header value => exact Header.holds_iff
  | callback value => exact Callback.holds_iff
  | pathItem value => exact PathItem.holds_iff
  | tag | «example» | link | securityScheme => simp [Holds, places]

theorem Components.helds_places (components : Components) :
    helds components.places =
      (components.parameters.map fun entry => .edge .parameters entry.2) ++
        (components.requestBodies.map fun entry => .edge .requestBodies entry.2) ++
        (components.responses.map fun entry => .edge .responses entry.2) ++
        (components.links.map fun entry => .edge .links entry.2) ++
        (components.callbacks.map fun entry => .edge .callbacks entry.2) ++
        (components.examples.map fun entry => .edge .examples entry.2) ++
        (components.schemas.map fun entry => .namedSchema entry.1 entry.2) ++
        (components.pathItems.map fun entry => .edge .pathItems entry.2) ++
        (components.securitySchemes.map fun entry => .edge .securitySchemes entry.2) ++
        components.headers.map fun entry => .edge .headers entry.2 := by
  simp only [places, helds_append, helds_within, helds_ofTable]
  simp [helds, Function.comp_def]

theorem Components.holds_iff {components : Components} :
    components.Holds held ↔ held ∈ helds components.places := by
  simp only [helds_places, List.mem_append, List.mem_map, or_assoc]
  constructor
  · intro holds
    cases holds <;> grind
  · intro member
    rcases member with
      ⟨_, member, rfl⟩ | ⟨_, member, rfl⟩ | ⟨_, member, rfl⟩ | ⟨_, member, rfl⟩ |
        ⟨_, member, rfl⟩ | ⟨_, member, rfl⟩ | ⟨_, member, rfl⟩ | ⟨_, member, rfl⟩ |
        ⟨_, member, rfl⟩ | ⟨_, member, rfl⟩
    · exact .parameter member
    · exact .requestBody member
    · exact .response member
    · exact .link member
    · exact .callback member
    · exact .example member
    · exact .schema member
    · exact .pathItem member
    · exact .securityScheme member
    · exact .header member

theorem Document.holds_iff {document : Document} :
    document.Holds held ↔ held ∈ helds document.places := by
  simp only [places, helds_append, helds_within, helds_ofTags, helds_ofTable, helds_flatMap,
    helds_securityPlaces, List.mem_append, List.mem_map, List.mem_flatMap, Option.mem_toList,
    ← SecurityRequirement.holds_iff, ← Components.holds_iff]
  constructor
  · intro holds
    cases holds with
    | path member => exact .inl (.inl (.inr ⟨_, member, rfl⟩))
    | webhook member => exact .inl (.inr ⟨_, member, rfl⟩)
    | component found inside => exact .inl (.inl (.inl (.inr ⟨_, found, inside⟩)))
    | security member inside => exact .inr ⟨_, member, inside⟩
    | tag member => exact .inl (.inl (.inl (.inl ⟨_, member, rfl⟩)))
  · intro member
    rcases member with
      (((⟨_, member, rfl⟩ | ⟨_, found, inside⟩) | ⟨_, member, rfl⟩) | ⟨_, member, rfl⟩) |
        ⟨_, member, inside⟩
    · exact .tag member
    · exact .component found inside
    · exact .path member
    · exact .webhook member
    · exact .security member inside

end

section

/-! What entities can hold. -/

/-- Not a named schema, nor a tag in the place of an object. -/
def Held.Ordinary : Held → Prop
  | .edge category _ => category ≠ .tags
  | .tag _ | .schema _ => True
  | .namedSchema _ _ => False

variable {held : Held}

theorem MediaType.ordinary_of_holds {media : MediaType} (holds : media.Holds held) :
    held.Ordinary := by
  cases holds with
  | schema => exact trivial
  | «example» => exact Category.noConfusion

theorem SecurityRequirement.ordinary_of_holds {requirement : SecurityRequirement}
    (holds : requirement.Holds held) : held.Ordinary := by
  cases holds with
  | scheme => exact Category.noConfusion

theorem Operation.ordinary_of_holds {operation : Operation} (holds : operation.Holds held) :
    held.Ordinary := by
  cases holds with
  | tag => exact trivial
  | parameter | requestBody | response | callback => exact Category.noConfusion
  | security _ inside => exact SecurityRequirement.ordinary_of_holds inside

theorem Entity.ordinary_of_holds {entity : Entity} (holds : entity.Holds held) :
    held.Ordinary := by
  cases entity with
  | parameter =>
      cases holds with
      | schema => exact trivial
      | «example» => exact Category.noConfusion
      | content _ inside => exact MediaType.ordinary_of_holds inside
  | requestBody =>
      cases holds with
      | content _ inside => exact MediaType.ordinary_of_holds inside
  | response =>
      cases holds with
      | header | link => exact Category.noConfusion
      | content _ inside => exact MediaType.ordinary_of_holds inside
  | header =>
      cases holds with
      | schema => exact trivial
      | «example» => exact Category.noConfusion
  | callback =>
      cases holds with
      | expression => exact Category.noConfusion
  | pathItem =>
      cases holds with
      | parameter => exact Category.noConfusion
      | operation _ inside => exact Operation.ordinary_of_holds inside
  | tag | «example» | link | securityScheme => cases holds

theorem Document.ordinary_of_holds {document : Document} (holds : document.Holds held) :
    held.Ordinary ∨ ∃ name schema, held = .namedSchema name schema ∧
      (name, schema) ∈ document.namedObjects.schemas := by
  cases holds with
  | path | webhook => exact .inl Category.noConfusion
  | tag => exact .inl trivial
  | security _ inside => exact .inl (SecurityRequirement.ordinary_of_holds inside)
  | component found inside =>
      cases inside with
      | schema member =>
          refine .inr ⟨_, _, rfl, ?_⟩
          rwa [namedObjects, found]
      | response | parameter | «example» | requestBody | header | securityScheme | link | callback
      | pathItem => exact .inl Category.noConfusion

variable {schema : Schema}

theorem SecurityRequirement.schema?_of_holds {requirement : SecurityRequirement}
    (holds : requirement.Holds held) : held.schema? = none := by
  cases holds with
  | scheme => rfl

theorem Operation.schema?_of_holds {operation : Operation} (holds : operation.Holds held) :
    held.schema? = none := by
  cases holds with
  | tag | parameter | requestBody | response | callback => rfl
  | security _ inside => exact SecurityRequirement.schema?_of_holds inside

/-- The schemas that a document holds itself are the named ones. -/
theorem Document.mem_schemas_of_holds {document : Document} {held : Held} {schema : Schema}
    (holds : document.Holds held) (isSchema : held.schema? = some schema) :
    ∃ entry ∈ document.namedObjects.schemas, entry.2 = schema := by
  cases holds with
  | path | webhook | tag => cases isSchema
  | security _ inside =>
      rw [SecurityRequirement.schema?_of_holds inside] at isSchema
      cases isSchema
  | component found inside =>
      cases inside with
      | schema member =>
          cases isSchema
          rw [namedObjects, found]
          exact ⟨_, member, rfl⟩
      | response | parameter | «example» | requestBody | header | securityScheme | link | callback
      | pathItem => cases isSchema

end

end ApiLinker
