import ApiLinker.Format.Edge
import ApiLinker.Proofs.Linking.Holding
import ApiLinker.Proofs.Schema.Reading

/-!
Entities that are read hold new nodes.

Whatever is read into a graph, the numbers of its schema nodes stand for these nodes alone.  Only
formats with schemas in them have something to say about the nodes; the others need only leave the
graph in order.
-/

namespace ApiLinker

section

/-! The schemas of each kind of object. -/

variable (nodes : NodeTable)

def MediaType.IsIn (media : MediaType) : Prop :=
  ∀ schema ∈ media.schema, schema.IsIn nodes

def ContentIn (content : Table MediaType) : Prop :=
  ∀ entry ∈ content, entry.2.IsIn nodes

def Parameter.IsIn (parameter : Parameter) : Prop :=
  (∀ schema ∈ parameter.schema, schema.IsIn nodes) ∧ ContentIn nodes parameter.content

def Header.IsIn (header : Header) : Prop :=
  ∀ schema ∈ header.schema, schema.IsIn nodes

/-- All schemas of the entity are made of nodes that their numbers stand for. -/
def Entity.IsIn : Entity → Prop
  | .parameter value => value.IsIn nodes
  | .requestBody value => ContentIn nodes value.content
  | .response value => ContentIn nodes value.content
  | .header value => value.IsIn nodes
  | .callback _ | .pathItem _ | .tag _ | .example _ | .link _ | .securityScheme _ => True

end

section

variable {nodes later : NodeTable}

theorem MediaType.IsIn.mono {media : MediaType} (isIn : media.IsIn nodes)
    (grows : nodes.Grows later) : media.IsIn later :=
  fun schema member => (isIn schema member).mono grows

theorem ContentIn.mono {content : Table MediaType} (isIn : ContentIn nodes content)
    (grows : nodes.Grows later) : ContentIn later content :=
  fun entry member => (isIn entry member).mono grows

theorem Parameter.IsIn.mono {parameter : Parameter} (isIn : parameter.IsIn nodes)
    (grows : nodes.Grows later) : parameter.IsIn later :=
  ⟨fun schema member => (isIn.1 schema member).mono grows, isIn.2.mono grows⟩

theorem Header.IsIn.mono {header : Header} (isIn : header.IsIn nodes)
    (grows : nodes.Grows later) : header.IsIn later :=
  fun schema member => (isIn schema member).mono grows

theorem Entity.IsIn.mono {entity : Entity} (isIn : entity.IsIn nodes)
    (grows : nodes.Grows later) : entity.IsIn later := by
  cases entity with
  | parameter => exact Parameter.IsIn.mono isIn grows
  | requestBody | response => exact ContentIn.mono isIn grows
  | header => exact Header.IsIn.mono isIn grows
  | callback | pathItem | tag | «example» | link | securityScheme => exact trivial

variable {held : Held} {schema : Schema}

theorem MediaType.IsIn.schema_of_holds {media : MediaType} (isIn : media.IsIn nodes)
    (holds : media.Holds held) (isSchema : held.schema? = some schema) : schema.IsIn nodes := by
  cases holds with
  | schema found =>
      cases isSchema
      exact isIn _ found
  | «example» => cases isSchema

theorem Entity.IsIn.schema_of_holds {entity : Entity} (isIn : entity.IsIn nodes)
    (holds : entity.Holds held) (isSchema : held.schema? = some schema) : schema.IsIn nodes := by
  cases entity with
  | parameter =>
      cases holds with
      | schema found =>
          cases isSchema
          exact isIn.1 _ found
      | «example» => cases isSchema
      | content member inside => exact (isIn.2 _ member).schema_of_holds inside isSchema
  | requestBody =>
      cases holds with
      | content member inside => exact (isIn _ member).schema_of_holds inside isSchema
  | response =>
      cases holds with
      | header | link => cases isSchema
      | content member inside => exact (isIn _ member).schema_of_holds inside isSchema
  | header =>
      cases holds with
      | schema found =>
          cases isSchema
          exact isIn _ found
      | «example» => cases isSchema
  | callback =>
      cases holds with
      | expression => cases isSchema
  | pathItem =>
      cases holds with
      | parameter => cases isSchema
      | operation _ inside =>
          rw [Operation.schema?_of_holds inside] at isSchema
          cases isSchema
  | tag | «example» | link | securityScheme => cases holds

end

theorem Graph.eq_or_found_of_add {graph : Graph} {added entity : Entity} {id : EntityId}
    (found : (graph.add added).2.entity? id = some entity) :
    (id = graph.size ∧ entity = added) ∨ graph.entity? id = some entity := by
  by_cases last : id = graph.size
  · subst last
    exact .inl ⟨rfl, (Option.some.inj ((graph.entity?_add added).symm.trans found)).symm⟩
  · rw [entity?_add_of_ne last] at found
    exact .inr found

namespace Format

open Rules

section

/-! Formats without edges or schemas add nothing to what is known. -/

variable {ω : Type} {rules : Rules ω Graph}

theorem stable_true {σ α : Type} {rules : Rules ω σ} : rules.Stable fun _ (_ : α) => True :=
  fun _ _ _ _ _ => trivial

theorem reads_externalDocs : rules.Reads externalDocs.read fun _ _ => True := by
  refine reads_record stable_true ?_ fun _ => trivial
  simp only [externalDocs, List.forall_mem_cons]
  exact ⟨keeps_general reads_string fun _ _ _ _ => id,
    keeps_optional reads_string fun _ _ _ _ => id,
    nofun⟩

theorem reads_tag : rules.Reads tag.read fun _ _ => True := by
  refine reads_record stable_true ?_ fun _ => trivial
  simp only [tag, List.forall_mem_cons]
  exact ⟨keeps_general reads_string fun _ _ _ _ => id,
    keeps_optional reads_string fun _ _ _ _ => id,
    keeps_optional reads_externalDocs fun _ _ _ _ => id,
    nofun⟩

/-- The scopes that are required of schemes, by the names of the schemes. -/
theorem reads_scopes :
    rules.Reads (Codec.table (.list .string)).read fun _ table =>
      table.names.Nodup ∧ ∀ entry ∈ table, ∀ scope ∈ entry.2, True :=
  reads_readTable (reads_readList reads_string stable_true) fun _ _ _ _ holds => holds

theorem reads_sample : rules.Reads sample.read fun _ _ => True := by
  refine reads_record stable_true ?_ fun _ => trivial
  simp only [sample, List.forall_mem_cons]
  exact ⟨keeps_optional reads_string fun _ _ _ _ => id,
    keeps_optional reads_string fun _ _ _ _ => id,
    keeps_optional reads_json fun _ _ _ _ => id,
    keeps_optional reads_string fun _ _ _ _ => id,
    nofun⟩

theorem reads_link : rules.Reads link.read fun _ _ => True := by
  refine reads_record stable_true ?_ fun _ => trivial
  simp only [link, List.forall_mem_cons]
  exact ⟨keeps_optional reads_string fun _ _ _ _ => id,
    keeps_optional reads_string fun _ _ _ _ => id,
    keeps_general (reads_readTable reads_json stable_true) fun _ _ _ _ => id,
    keeps_optional reads_json fun _ _ _ _ => id,
    keeps_optional reads_string fun _ _ _ _ => id,
    nofun⟩

theorem reads_securityScheme : rules.Reads securityScheme.read fun _ _ => True := by
  refine reads_record stable_true ?_ fun _ => trivial
  simp only [securityScheme, List.forall_mem_cons]
  exact ⟨keeps_general reads_string fun _ _ _ _ => id,
    keeps_optional reads_string fun _ _ _ _ => id,
    keeps_optional reads_string fun _ _ _ _ => id,
    keeps_optional reads_string fun _ _ _ _ => id,
    keeps_optional reads_string fun _ _ _ _ => id,
    keeps_optional reads_string fun _ _ _ _ => id,
    keeps_optional reads_json fun _ _ _ _ => id,
    keeps_optional reads_string fun _ _ _ _ => id,
    nofun⟩

end

/-- The rules for reading into a graph. -/
def reading : Rules NodeTable Graph where
  grows := NodeTable.Grows
  refl := NodeTable.Grows.refl
  trans := NodeTable.Grows.trans
  describes nodes graph := nodes.Bounded graph.schemaCount ∧
    ∀ id entity, graph.entity? id = some entity → entity.IsIn nodes

theorem reads_schema : reading.Reads schema.read fun nodes schema => schema.IsIn nodes := by
  intro node nodes graph value last described ran
  change (Schema.read node graph.schemaCount).bind _ = _ at ran
  cases read : Schema.read node graph.schemaCount with
  | error => rw [read] at ran; cases ran
  | ok result =>
      rw [read] at ran
      cases ran
      obtain ⟨later, grows, bounded, isIn⟩ :=
        Schema.decodes_read_isIn node nodes _ _ _ described.1 read
      have entities := fun id entity found => (described.2 id entity found).mono grows
      exact ⟨later, grows, ⟨bounded, entities⟩, isIn⟩

/-- Reading an edge leaves the graph in order. -/
structure ReadsEdges (edges : EdgeFormat) : Prop where
  edge : ∀ category, reading.Reads (edges.edge category).read fun _ _ => True
  tagName : reading.Reads edges.tagName.read fun _ _ => True

section

/-! Formats with edges and schemas. -/

variable {edges : EdgeFormat} (sound : ReadsEdges edges)
include sound

theorem reads_edges (category : Category) :
    reading.Reads (Codec.readTable (edges.edge category).read) fun _ table =>
      table.names.Nodup ∧ ∀ entry ∈ table, True :=
  reads_readTable (sound.edge category) stable_true

theorem reads_mediaType :
    reading.Reads (mediaType edges).read fun nodes media => media.IsIn nodes := by
  refine reads_record (fun _ _ _ grows isIn => isIn.mono grows) ?_ fun _ => nofun
  simp only [mediaType, List.forall_mem_cons]
  exact ⟨keeps_optional reads_schema fun _ _ _ isIn _ => isIn,
    keeps_optional reads_json fun _ _ _ _ => id,
    keeps_general (reads_edges sound .examples) fun _ _ _ _ => id,
    nofun⟩

theorem reads_content :
    reading.Reads (Codec.readTable (mediaType edges).read) fun nodes content =>
      content.names.Nodup ∧ ContentIn nodes content :=
  reads_readTable (reads_mediaType sound) fun _ _ _ grows isIn => isIn.mono grows

theorem reads_header : reading.Reads (header edges).read fun nodes header => header.IsIn nodes := by
  refine reads_record (fun _ _ _ grows isIn => isIn.mono grows) ?_ fun _ => nofun
  simp only [header, List.forall_mem_cons]
  exact ⟨keeps_optional reads_string fun _ _ _ _ => id,
    keeps_general reads_bool fun _ _ _ _ => id,
    keeps_general reads_bool fun _ _ _ _ => id,
    keeps_optional reads_schema fun _ _ _ isIn _ => isIn,
    keeps_optional reads_json fun _ _ _ _ => id,
    keeps_general (reads_edges sound .examples) fun _ _ _ _ => id,
    nofun⟩

theorem reads_parameter :
    reading.Reads (parameter edges).read fun nodes parameter => parameter.IsIn nodes := by
  have blank : ∀ nodes, (parameter edges).blank.IsIn nodes :=
    fun _ => ⟨nofun, nofun⟩
  refine reads_record (fun _ _ _ grows isIn => isIn.mono grows) ?_ blank
  simp only [parameter, List.forall_mem_cons]
  exact ⟨keeps_general reads_string fun _ _ _ _ => id,
    keeps_general reads_variant fun _ _ _ _ => id,
    keeps_optional reads_string fun _ _ _ _ => id,
    keeps_general reads_bool fun _ _ _ _ => id,
    keeps_general reads_bool fun _ _ _ _ => id,
    keeps_optional reads_schema fun _ _ _ isIn kept => ⟨isIn, kept.2⟩,
    keeps_optional reads_json fun _ _ _ _ => id,
    keeps_general (reads_edges sound .examples) fun _ _ _ _ => id,
    keeps_general (reads_content sound) fun _ _ _ isIn kept => ⟨kept.1, isIn.2⟩,
    nofun⟩

theorem reads_requestBody :
    reading.Reads (requestBody edges).read fun nodes body => ContentIn nodes body.content := by
  refine reads_record (fun _ _ _ grows isIn => isIn.mono grows) ?_ fun _ => nofun
  simp only [requestBody, List.forall_mem_cons]
  exact ⟨keeps_optional reads_string fun _ _ _ _ => id,
    keeps_general (reads_content sound) fun _ _ _ isIn _ => isIn.2,
    keeps_general reads_bool fun _ _ _ _ => id, nofun⟩

theorem reads_response :
    reading.Reads (response edges).read fun nodes response => ContentIn nodes response.content := by
  refine reads_record (fun _ _ _ grows isIn => isIn.mono grows) ?_ fun _ => nofun
  simp only [response, List.forall_mem_cons]
  exact ⟨keeps_general reads_string fun _ _ _ _ => id,
    keeps_general (reads_edges sound .headers) fun _ _ _ _ => id,
    keeps_general (reads_content sound) fun _ _ _ isIn _ => isIn.2,
    keeps_general (reads_edges sound .links) fun _ _ _ _ => id, nofun⟩

omit sound in
theorem reads_securityRequirement :
    reading.Reads (securityRequirement edges).read fun _ _ => True := by
  intro node nodes
  exact (reads_scopes node nodes).bind fun _ _ _ _ => decodes_pure trivial

theorem reads_operation : reading.Reads (operation edges).read fun _ _ => True := by
  refine reads_record stable_true ?_ fun _ => trivial
  simp only [operation, List.forall_mem_cons]
  exact ⟨keeps_general (reads_readList sound.tagName stable_true) fun _ _ _ _ => id,
    keeps_optional reads_string fun _ _ _ _ => id,
    keeps_optional reads_string fun _ _ _ _ => id,
    keeps_optional reads_string fun _ _ _ _ => id,
    keeps_general (reads_readList (sound.edge .parameters) stable_true) fun _ _ _ _ => id,
    keeps_optional (sound.edge .requestBodies) fun _ _ _ _ => id,
    keeps_general (reads_edges sound .responses) fun _ _ _ _ => id,
    keeps_general (reads_edges sound .callbacks) fun _ _ _ _ => id,
    keeps_general reads_bool fun _ _ _ _ => id,
    keeps_general (reads_readList reads_securityRequirement stable_true) fun _ _ _ _ => id, nofun⟩

theorem reads_pathItem : reading.Reads (pathItem edges).read fun _ _ => True := by
  have operation := reads_operation sound
  refine reads_record stable_true ?_ fun _ => trivial
  simp only [pathItem, List.forall_mem_cons]
  exact ⟨keeps_optional reads_string fun _ _ _ _ => id,
    keeps_optional reads_string fun _ _ _ _ => id,
    keeps_optional operation fun _ _ _ _ => id,
    keeps_optional operation fun _ _ _ _ => id,
    keeps_optional operation fun _ _ _ _ => id,
    keeps_optional operation fun _ _ _ _ => id,
    keeps_optional operation fun _ _ _ _ => id,
    keeps_optional operation fun _ _ _ _ => id,
    keeps_optional operation fun _ _ _ _ => id,
    keeps_optional operation fun _ _ _ _ => id,
    keeps_general (reads_readList (sound.edge .parameters) stable_true) fun _ _ _ _ => id, nofun⟩

theorem reads_callback : reading.Reads (callback edges).read fun _ _ => True :=
  fun node nodes => (reads_edges sound .pathItems node nodes).map fun _ _ _ => trivial

theorem reads_entity (category : Category) :
    reading.Reads (readEntity edges category) fun nodes entity => entity.IsIn nodes := by
  intro node nodes
  cases category with
  | tags => exact (reads_tag node nodes).map fun _ _ _ => trivial
  | parameters => exact (reads_parameter sound node nodes).map fun _ _ isIn => isIn
  | requestBodies => exact (reads_requestBody sound node nodes).map fun _ _ isIn => isIn
  | responses => exact (reads_response sound node nodes).map fun _ _ isIn => isIn
  | examples => exact (reads_sample node nodes).map fun _ _ _ => trivial
  | headers => exact (reads_header sound node nodes).map fun _ _ isIn => isIn
  | links => exact (reads_link node nodes).map fun _ _ _ => trivial
  | callbacks => exact (reads_callback sound node nodes).map fun _ _ _ => trivial
  | pathItems => exact (reads_pathItem sound node nodes).map fun _ _ _ => trivial
  | securitySchemes => exact (reads_securityScheme node nodes).map fun _ _ _ => trivial
  | schemas => exact decodes_throw

/-- An edge with an entity in place adds that entity, any other adds nothing. -/
theorem reads_edge (category : Category) :
    reading.Reads (Edge.read edges category) fun _ _ => True := by
  intro node nodes graph edge last described ran
  simp only [Edge.read] at ran
  cases whole : node.value with
  | error => rw [whole] at ran; cases ran
  | ok =>
      rw [whole] at ran
      cases pointing : reference.read node graph with
      | ok result =>
          rw [pointing] at ran
          cases ran
          exact ⟨nodes, .refl nodes, described, trivial⟩
      | error =>
          rw [pointing] at ran
          cases read : readEntity edges category node graph with
          | error => rw [read] at ran; cases ran
          | ok result =>
              rw [read] at ran
              cases ran
              obtain ⟨later, grows, ⟨bounded, isIn⟩, entityIn⟩ :=
                reads_entity sound category node nodes _ _ _ described read
              refine ⟨later, grows, ⟨bounded, fun id entity found => ?_⟩, trivial⟩
              rcases Graph.eq_or_found_of_add found with ⟨_, rfl⟩ | old
              · exact entityIn
              · exact isIn id entity old

end

theorem readsEdges_nested (left right : Graph) (depth : Nat) :
    ReadsEdges (.nested left right depth) := by
  induction depth with
  | zero => exact ⟨fun _ _ _ => decodes_throw, fun _ _ => decodes_throw⟩
  | succ depth sound =>
      refine ⟨fun category => reads_edge sound category, fun node nodes => ?_⟩
      exact (reads_string node nodes).bind fun _ _ _ _ => decodes_pure trivial

end Format

end ApiLinker
