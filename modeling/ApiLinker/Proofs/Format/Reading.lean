import ApiLinker.Format.Document
import ApiLinker.Proofs.Format.Orderly
import ApiLinker.Proofs.Format.Document
import ApiLinker.Proofs.Json.Printing

/-!
What is read is orderly.

A graph into which is read only gets new entities.  Each entity holds inline only entities that were
read before it, of the category that is asked for at its place, and no edge is linked.
-/

namespace ApiLinker

/-- What can be held by an object that is written with entities of numbers below `bound`. -/
inductive Held.Fits (graph : Graph) (bound : Nat) : Held → Prop where
  | placeholder (category : Category) (pointer : String) :
      Fits graph bound (.edge category (.placeholder { pointer }))
  | linked (category : Category) (pointer : String) (target : EntityId) :
      Fits graph bound (.edge category (.linked { pointer } target))
  | inline {category : Category} {id : EntityId} {entity : Entity} (below : id < bound)
      (found : graph.entity? id = some entity) (filed : entity.category = category) :
      Fits graph bound (.edge category (.inline id))
  | openTag (pointer : String) : Fits graph bound (.tag (.placeholder { pointer }))
  | linkedTag (pointer : String) (target : EntityId) :
      Fits graph bound (.tag (.linked { pointer } target))
  | heldTag {id : EntityId} {tag : Tag} (found : graph.entity? id = some (.tag tag)) :
      Fits graph bound (.tag (.inline id))
  | schema {schema : Schema} (distinct : schema.Distinct) : Fits graph bound (.schema schema)
  | namedSchema {name : String} {schema : Schema} (distinct : schema.Distinct) :
      Fits graph bound (.namedSchema name schema)

/-- Not an edge that was linked. -/
def Held.Unlinked (held : Held) : Prop :=
  ∀ reference target, held.edge? ≠ some (.linked reference target)

/-- What an object holds that was read after the entities below `bound`. -/
structure Held.AsRead (graph : Graph) (bound : Nat) (held : Held) : Prop where
  fits : held.Fits graph bound
  unlinked : held.Unlinked

/-- The edge is nothing but the name of a tag. -/
def Edge.NamesTag (edge : Edge) : Prop :=
  ∃ name, edge = .placeholder (Reference.toTag name)

/-- What is held inside a document that was read.  There operations are filed under names alone. -/
structure Held.Inside (graph : Graph) (bound : Nat) (held : Held) : Prop
    extends held.AsRead graph bound where
  named : ∀ edge, held = .tag edge → edge.NamesTag

/-- The document is orderly, and so is every entity, by the measure for its number. -/
structure Graph.Orderly (graph : Graph) (fits : Nat → Held → Prop) (document : Document) :
    Prop where
  root : document.Orderly (fits graph.size)
  entity : ∀ id entity, graph.entity? id = some entity → entity.Orderly (fits id)

/-- Entities keep their numbers and contents. -/
def Graph.Grows (graph later : Graph) : Prop :=
  ∀ id entity, graph.entity? id = some entity → later.entity? id = some entity

namespace Graph

variable {graph later last : Graph}

theorem Grows.refl (graph : Graph) : graph.Grows graph := fun _ _ found => found

theorem Grows.trans (first : graph.Grows later) (second : later.Grows last) :
    graph.Grows last :=
  fun id entity found => second id entity (first id entity found)

theorem size_le_of_present (present : ∀ id entity, graph.entity? id = some entity →
    ∃ after, later.entity? id = some after) : graph.size ≤ later.size := by
  by_contra smaller
  have known : later.size < graph.size := Nat.lt_of_not_le smaller
  have found : graph.entity? later.size = some graph.entities[later.size] :=
    Array.getElem?_eq_getElem known
  obtain ⟨_, isThere⟩ := present _ _ found
  exact absurd (lt_size_of_entity? isThere) (Nat.lt_irrefl _)

theorem Grows.size_le (grows : graph.Grows later) : graph.size ≤ later.size :=
  size_le_of_present fun _ entity found => ⟨entity, grows _ _ found⟩

theorem grows_add (graph : Graph) (entity : Entity) : graph.Grows (graph.add entity).2 := by
  intro id other found
  rw [entity?_add_of_ne (Nat.ne_of_lt (lt_size_of_entity? found))]
  exact found

end Graph

section

variable {graph later : Graph} {bound above : Nat} {held : Held}

theorem Held.Fits.mono (fits : held.Fits graph bound) (grows : graph.Grows later)
    (le : bound ≤ above) : held.Fits later above := by
  cases fits with
  | placeholder category pointer => exact .placeholder category pointer
  | linked category pointer target => exact .linked category pointer target
  | inline below found filed => exact .inline (Nat.lt_of_lt_of_le below le) (grows _ _ found) filed
  | openTag pointer => exact .openTag pointer
  | linkedTag pointer target => exact .linkedTag pointer target
  | heldTag found => exact .heldTag (grows _ _ found)
  | schema distinct => exact .schema distinct
  | namedSchema distinct => exact .namedSchema distinct

theorem Held.AsRead.mono (asRead : held.AsRead graph bound) (grows : graph.Grows later)
    (le : bound ≤ above) : held.AsRead later above :=
  ⟨asRead.fits.mono grows le, asRead.unlinked⟩

theorem Held.Inside.mono (inside : held.Inside graph bound) (grows : graph.Grows later)
    (le : bound ≤ above) : held.Inside later above :=
  ⟨inside.toAsRead.mono grows le, inside.named⟩

theorem Entity.Orderly.mono {entity : Entity} (orderly : entity.Orderly (Held.Inside graph bound))
    (grows : graph.Grows later) : entity.Orderly (Held.Inside later bound) :=
  orderly.after (Change.keeps_none fun _ inside => inside.mono grows (Nat.le_refl _))
    (entity.changes_refl Change.reflexive_none)

theorem Held.inside_placeholder (category : Category) (pointer : String) :
    Inside graph bound (.edge category (.placeholder { pointer })) :=
  ⟨⟨.placeholder category pointer, nofun⟩, nofun⟩

theorem Held.inside_inline {category : Category} {id : EntityId} {entity : Entity}
    (below : id < bound) (found : graph.entity? id = some entity)
    (filed : entity.category = category) : Inside graph bound (.edge category (.inline id)) :=
  ⟨⟨.inline below found filed, nofun⟩, nofun⟩

theorem Held.inside_schema {schema : Schema} (distinct : schema.Distinct) :
    Inside graph bound (.schema schema) :=
  ⟨⟨.schema distinct, nofun⟩, nofun⟩

theorem Held.Inside.namedSchema {name : String} {schema : Schema}
    (inside : Inside graph bound (.schema schema)) :
    Inside graph bound (.namedSchema name schema) := by
  cases inside.fits with
  | schema distinct => exact ⟨⟨.namedSchema distinct, nofun⟩, nofun⟩

/-- An edge that was read where a tag is expected is one to a tag. -/
theorem Held.AsRead.tag {edge : Edge} (asRead : AsRead graph bound (.edge .tags edge)) :
    AsRead graph bound (.tag edge) := by
  refine ⟨?_, asRead.unlinked⟩
  cases asRead.fits with
  | placeholder _ pointer => exact .openTag pointer
  | linked _ pointer target => exact .linkedTag pointer target
  | @inline _ _ entity _ found filed =>
      cases entity with
      | tag => exact .heldTag found
      | _ => cases filed

/-- A document that is orderly by one measure may be orderly by another. -/
theorem Graph.Orderly.imp {fits other : Nat → Held → Prop} {document : Document}
    (orderly : graph.Orderly fits document)
    (implies : ∀ bound held, fits bound held → other bound held) : graph.Orderly other document where
  root := orderly.root.after (Change.keeps_none (implies _))
    (document.changes_refl Change.reflexive_none)
  entity id entity found := (orderly.entity id entity found).after (Change.keeps_none (implies id))
    (entity.changes_refl Change.reflexive_none)

/-- What an object that is read last may hold. -/
abbrev Graph.takes (graph : Graph) : Held → Prop :=
  Held.Inside graph graph.size

theorem Graph.Grows.keeps (grows : graph.Grows later) :
    Change.none.Keeps graph.takes later.takes :=
  Change.keeps_none fun _ inside => inside.mono grows grows.size_le

theorem Held.keeps_inside :
    Change.none.Keeps (Held.Inside graph bound) (Held.AsRead graph bound) :=
  Change.keeps_none fun _ => Inside.toAsRead

end

namespace Format

open Rules

open List (forall_mem_nil)

/-- The rules for reading into a graph of which all entities are orderly. -/
def growing : Rules Graph Graph where
  grows := Graph.Grows
  refl := .refl
  trans := .trans
  describes world graph :=
    graph = world ∧ ∀ id entity, graph.entity? id = some entity →
      entity.Orderly (Held.Inside graph id)

theorem forall_mem_none {P : α → Prop} : ∀ value ∈ (none : Option α), P value := by
  rintro _ ⟨⟩

theorem reads_distinct : growing.Reads Codec.json.read fun _ json => json.Distinct :=
  fun node _ => decodes_lift fun _ read => Json.distinct_of_value node read

theorem decodes_kept (node : Json.Node) (graph : Graph) (present : node.isNull = false) :
    growing.Decodes (Codec.json.read node) (fun _ json => json.Kept) graph := by
  refine decodes_lift fun json read => ⟨Json.distinct_of_value node read, ?_⟩
  rintro rfl
  cases node with
  | null => cases present
  | absent | brokenWord | brokenNumber | bool => cases read
  | number | quoted =>
      obtain ⟨_, _, never⟩ := Outcome.map_eq_ok read
      cases never
  | array tooDeep | object tooDeep =>
      cases tooDeep with
      | true => cases read
      | false =>
          obtain ⟨_, _, never⟩ := Outcome.map_eq_ok read
          cases never

theorem growing_schema :
    growing.Reads readSchema fun graph schema => graph.takes (.schema schema) := by
  rintro node _ graph schema last ⟨rfl, orderly⟩ ran
  obtain ⟨⟨read, count⟩, isRead, same⟩ := Outcome.bind_eq_ok ran
  cases same
  obtain ⟨_, _, _, distinct⟩ :=
    Schema.decodes_read_distinct node (fun _ => none) _ _ _ (fun _ _ => rfl) isRead
  have grows : graph.Grows { graph with schemaCount := count } := fun _ _ found => found
  exact ⟨_, grows, ⟨rfl, fun id entity found => (orderly id entity found).mono grows⟩,
    Held.inside_schema distinct⟩

section

/-! Formats without edges. -/

theorem growing_sample :
    growing.Reads sample.read fun _ value => ∀ json ∈ value.value, json.Kept := by
  refine reads_record (fun _ _ _ _ => id) ?_ fun _ => forall_mem_none
  simp only [sample, List.forall_mem_cons]
  exact ⟨keeps_optional reads_string fun _ _ _ _ => id,
    keeps_optional reads_string fun _ _ _ _ => id,
    keeps_optional_of_present decodes_kept fun _ _ _ kept _ => kept,
    keeps_optional reads_string fun _ _ _ _ => id, forall_mem_nil _⟩

theorem growing_link : growing.Reads link.read fun _ value => value.Orderly := by
  refine reads_record (fun _ _ _ _ => id) ?_ fun _ => ⟨Table.orderly_nil, forall_mem_none⟩
  simp only [link, List.forall_mem_cons]
  exact ⟨keeps_optional reads_string fun _ _ _ _ kept => { kept with },
    keeps_optional reads_string fun _ _ _ _ kept => { kept with },
    keeps_general (reads_readTable reads_distinct fun _ _ _ _ => id)
      fun _ _ _ parameters kept => { kept with parameters },
    keeps_optional_of_present decodes_kept fun _ _ _ requestBody kept => { kept with requestBody },
    keeps_optional reads_string fun _ _ _ _ kept => { kept with }, forall_mem_nil _⟩

theorem growing_securityScheme :
    growing.Reads securityScheme.read fun _ value => ∀ json ∈ value.flows, json.Kept := by
  refine reads_record (fun _ _ _ _ => id) ?_ fun _ => forall_mem_none
  simp only [securityScheme, List.forall_mem_cons]
  exact ⟨keeps_general reads_string fun _ _ _ _ => id,
    keeps_optional reads_string fun _ _ _ _ => id,
    keeps_optional reads_string fun _ _ _ _ => id,
    keeps_optional reads_string fun _ _ _ _ => id,
    keeps_optional reads_string fun _ _ _ _ => id,
    keeps_optional reads_string fun _ _ _ _ => id,
    keeps_optional_of_present decodes_kept fun _ _ _ kept _ => kept,
    keeps_optional reads_string fun _ _ _ _ => id, forall_mem_nil _⟩

end

/-- Edges that are read go into the graph that they are read into. -/
structure GrowsByEdges (edges : EdgeFormat) : Prop where
  edge : ∀ category, growing.Reads (edges.edge category).read fun graph edge =>
    graph.takes (.edge category edge)
  tagName : growing.Reads edges.tagName.read fun graph edge => graph.takes (.tag edge)

theorem stable_takes (held : α → Held) :
    growing.Stable fun graph value => graph.takes (held value) :=
  fun _ _ _ grows inside => inside.mono grows grows.size_le

section

/-! Formats with edges and schemas. -/

variable {edges : EdgeFormat} (sound : GrowsByEdges edges)
include sound

theorem growing_edges (category : Category) :
    growing.Reads (Codec.readTable (edges.edge category).read) fun graph table =>
      table.Orderly fun edge => graph.takes (.edge category edge) :=
  reads_readTable (sound.edge category) (stable_takes (.edge category))

theorem growing_list (category : Category) :
    growing.Reads (Codec.readList (edges.edge category).read) fun graph list =>
      ∀ edge ∈ list, graph.takes (.edge category edge) :=
  reads_readList (sound.edge category) (stable_takes (.edge category))

omit sound in
theorem stable_mediaType :
    growing.Stable fun graph (media : MediaType) => media.Orderly graph.takes :=
  fun _ _ _ grows orderly =>
    orderly.after grows.keeps (MediaType.changes_refl Change.reflexive_none _)

theorem growing_mediaType :
    growing.Reads (mediaType edges).read fun graph media => media.Orderly graph.takes := by
  refine reads_record stable_mediaType ?_
    fun _ => ⟨forall_mem_none, forall_mem_none, Table.orderly_nil⟩
  simp only [mediaType, List.forall_mem_cons]
  exact ⟨keeps_optional growing_schema fun _ _ _ schema kept => { kept with schema },
    keeps_optional_of_present decodes_kept fun _ _ _ sample kept => { kept with sample },
    keeps_general (growing_edges sound .examples) fun _ _ _ examples kept => { kept with examples },
    forall_mem_nil _⟩

theorem growing_content :
    growing.Reads (Codec.readTable (mediaType edges).read) fun graph content =>
      content.Orderly (MediaType.Orderly graph.takes) :=
  reads_readTable (growing_mediaType sound) stable_mediaType

omit sound in
theorem stable_entity {α : Type} (entity : α → Entity) :
    growing.Stable fun graph value => (entity value).Orderly graph.takes :=
  fun _ _ _ grows orderly =>
    orderly.after grows.keeps (Entity.changes_refl Change.reflexive_none _)

theorem growing_header :
    growing.Reads (header edges).read fun graph header => header.Orderly graph.takes := by
  refine reads_record (stable_entity .header) ?_
    fun _ => ⟨forall_mem_none, forall_mem_none, Table.orderly_nil⟩
  simp only [header, List.forall_mem_cons]
  exact ⟨keeps_optional reads_string fun _ _ _ _ kept => { kept with },
    keeps_general reads_bool fun _ _ _ _ kept => { kept with },
    keeps_general reads_bool fun _ _ _ _ kept => { kept with },
    keeps_optional growing_schema fun _ _ _ schema kept => { kept with schema },
    keeps_optional_of_present decodes_kept fun _ _ _ sample kept => { kept with sample },
    keeps_general (growing_edges sound .examples) fun _ _ _ examples kept => { kept with examples },
    forall_mem_nil _⟩

theorem growing_parameter :
    growing.Reads (parameter edges).read fun graph parameter => parameter.Orderly graph.takes := by
  refine reads_record (stable_entity .parameter) ?_
    fun _ => ⟨forall_mem_none, forall_mem_none, Table.orderly_nil, Table.orderly_nil⟩
  simp only [parameter, List.forall_mem_cons]
  exact ⟨keeps_general reads_string fun _ _ _ _ kept => { kept with },
    keeps_general reads_variant fun _ _ _ _ kept => { kept with },
    keeps_optional reads_string fun _ _ _ _ kept => { kept with },
    keeps_general reads_bool fun _ _ _ _ kept => { kept with },
    keeps_general reads_bool fun _ _ _ _ kept => { kept with },
    keeps_optional growing_schema fun _ _ _ schema kept => { kept with schema },
    keeps_optional_of_present decodes_kept fun _ _ _ sample kept => { kept with sample },
    keeps_general (growing_edges sound .examples) fun _ _ _ examples kept => { kept with examples },
    keeps_general (growing_content sound) fun _ _ _ content kept => { kept with content },
    forall_mem_nil _⟩

theorem growing_requestBody :
    growing.Reads (requestBody edges).read fun graph body => body.Orderly graph.takes := by
  refine reads_record (stable_entity .requestBody) ?_ fun _ => ⟨Table.orderly_nil⟩
  simp only [requestBody, List.forall_mem_cons]
  exact ⟨keeps_optional reads_string fun _ _ _ _ kept => { kept with },
    keeps_general (growing_content sound) fun _ _ _ content kept => { kept with content },
    keeps_general reads_bool fun _ _ _ _ kept => { kept with }, forall_mem_nil _⟩

theorem growing_response :
    growing.Reads (response edges).read fun graph response => response.Orderly graph.takes := by
  refine reads_record (stable_entity .response) ?_
    fun _ => ⟨Table.orderly_nil, Table.orderly_nil, Table.orderly_nil⟩
  simp only [response, List.forall_mem_cons]
  exact ⟨keeps_general reads_string fun _ _ _ _ kept => { kept with },
    keeps_general (growing_edges sound .headers) fun _ _ _ headers kept => { kept with headers },
    keeps_general (growing_content sound) fun _ _ _ content kept => { kept with content },
    keeps_general (growing_edges sound .links) fun _ _ _ links kept => { kept with links },
    forall_mem_nil _⟩

omit sound in
theorem growing_securityRequirement :
    growing.Reads (securityRequirement edges).read fun graph requirement =>
      requirement.Orderly graph.takes := by
  intro node graph
  refine (reads_scopes node graph).bind fun later entries _ orderly => decodes_pure {
    schemes := fun scheme member => ?_
    names := ⟨entries.names, orderly.1, ?_⟩ }
  · obtain ⟨entry, _, rfl⟩ := List.mem_map.mp member
    rw [schemeOfEntry, Reference.toComponent, if_neg Category.noConfusion]
    exact Held.inside_placeholder .securitySchemes _
  · simp [Table.names, schemeOfEntry, Edge.reference?, Function.comp_def]

omit sound in
theorem stable_securityRequirement :
    growing.Stable fun graph (requirement : SecurityRequirement) =>
      requirement.Orderly graph.takes :=
  fun _ _ _ grows orderly =>
    orderly.after grows.keeps (SecurityRequirement.changes_refl Change.reflexive_none _)

omit sound in
theorem growing_security :
    growing.Reads (Codec.readList (securityRequirement edges).read) fun graph requirements =>
      ∀ requirement ∈ requirements, requirement.Orderly graph.takes :=
  reads_readList growing_securityRequirement stable_securityRequirement

omit sound in
theorem stable_operation :
    growing.Stable fun graph (operation : Operation) => operation.Orderly graph.takes :=
  fun _ _ _ grows orderly =>
    orderly.after grows.keeps (Operation.changes_refl Change.reflexive_none _)

theorem growing_operation :
    growing.Reads (operation edges).read fun graph operation => operation.Orderly graph.takes := by
  refine reads_record stable_operation ?_
    fun _ => ⟨forall_mem_nil _, forall_mem_nil _, forall_mem_none, Table.orderly_nil,
      Table.orderly_nil, forall_mem_nil _⟩
  simp only [operation, List.forall_mem_cons]
  exact ⟨keeps_general (reads_readList sound.tagName (stable_takes .tag))
      fun _ _ _ tags kept => { kept with tags },
    keeps_optional reads_string fun _ _ _ _ kept => { kept with },
    keeps_optional reads_string fun _ _ _ _ kept => { kept with },
    keeps_optional reads_string fun _ _ _ _ kept => { kept with },
    keeps_general (growing_list sound .parameters)
      fun _ _ _ parameters kept => { kept with parameters },
    keeps_optional (sound.edge .requestBodies)
      fun _ _ _ requestBody kept => { kept with requestBody },
    keeps_general (growing_edges sound .responses)
      fun _ _ _ responses kept => { kept with responses },
    keeps_general (growing_edges sound .callbacks)
      fun _ _ _ callbacks kept => { kept with callbacks },
    keeps_general reads_bool fun _ _ _ _ kept => { kept with },
    keeps_general growing_security fun _ _ _ security kept => { kept with security },
    forall_mem_nil _⟩

theorem growing_pathItem :
    growing.Reads (pathItem edges).read fun graph item => item.Orderly graph.takes := by
  have operation := growing_operation sound
  refine reads_record (stable_entity .pathItem) ?_
    fun _ => ⟨forall_mem_none, forall_mem_none, forall_mem_none, forall_mem_none, forall_mem_none,
      forall_mem_none, forall_mem_none, forall_mem_none, forall_mem_nil _⟩
  simp only [pathItem, List.forall_mem_cons]
  exact ⟨keeps_optional reads_string fun _ _ _ _ kept => { kept with },
    keeps_optional reads_string fun _ _ _ _ kept => { kept with },
    keeps_optional operation fun _ _ _ get kept => { kept with get },
    keeps_optional operation fun _ _ _ put kept => { kept with put },
    keeps_optional operation fun _ _ _ post kept => { kept with post },
    keeps_optional operation fun _ _ _ delete kept => { kept with delete },
    keeps_optional operation fun _ _ _ options kept => { kept with options },
    keeps_optional operation fun _ _ _ head kept => { kept with head },
    keeps_optional operation fun _ _ _ patch kept => { kept with patch },
    keeps_optional operation fun _ _ _ trace kept => { kept with trace },
    keeps_general (growing_list sound .parameters)
      fun _ _ _ parameters kept => { kept with parameters }, forall_mem_nil _⟩

theorem growing_callback :
    growing.Reads (callback edges).read fun graph callback => callback.Orderly graph.takes :=
  fun node graph => (growing_edges sound .pathItems node graph).map fun _ _ orderly => ⟨orderly⟩

theorem growing_entity (category : Category) :
    growing.Reads (readEntity edges category) fun graph entity =>
      entity.Orderly graph.takes ∧ entity.category = category := by
  intro node graph
  cases category with
  | tags => exact (reads_tag node graph).map fun _ _ _ => ⟨trivial, rfl⟩
  | parameters =>
      exact (growing_parameter sound node graph).map fun _ _ orderly => ⟨orderly, rfl⟩
  | requestBodies =>
      exact (growing_requestBody sound node graph).map fun _ _ orderly => ⟨orderly, rfl⟩
  | responses => exact (growing_response sound node graph).map fun _ _ orderly => ⟨orderly, rfl⟩
  | examples => exact (growing_sample node graph).map fun _ _ orderly => ⟨orderly, rfl⟩
  | headers => exact (growing_header sound node graph).map fun _ _ orderly => ⟨orderly, rfl⟩
  | links => exact (growing_link node graph).map fun _ _ orderly => ⟨orderly, rfl⟩
  | callbacks => exact (growing_callback sound node graph).map fun _ _ orderly => ⟨orderly, rfl⟩
  | pathItems => exact (growing_pathItem sound node graph).map fun _ _ orderly => ⟨orderly, rfl⟩
  | securitySchemes =>
      exact (growing_securityScheme node graph).map fun _ _ orderly => ⟨orderly, rfl⟩
  | schemas => exact decodes_throw

omit sound in
theorem growing_reference :
    growing.Reads reference.read fun _ reference => reference.host = none := by
  refine reads_record (fun _ _ _ _ => id) ?_ fun _ => rfl
  simp only [reference, List.forall_mem_cons]
  exact ⟨keeps_general reads_string fun _ _ _ _ => id, forall_mem_nil _⟩

theorem growing_edge (category : Category) :
    growing.Reads (Edge.read edges category) fun graph edge =>
      graph.takes (.edge category edge) := by
  intro node world state edge last described ran
  simp only [Edge.read] at ran
  obtain ⟨_, _, ran⟩ := Outcome.bind_eq_ok ran
  cases pointing : reference.read node state with
  | ok result =>
      rw [pointing] at ran
      cases ran
      obtain ⟨_, _, _, unhosted⟩ := growing_reference node world _ _ _ described pointing
      obtain ⟨⟨pointer, host⟩, _⟩ := result
      cases unhosted
      exact ⟨world, .refl world, described, Held.inside_placeholder category pointer⟩
  | error =>
      rw [pointing] at ran
      cases read : readEntity edges category node state with
      | error => rw [read] at ran; cases ran
      | ok result =>
          rw [read] at ran
          cases ran
          obtain ⟨_, grows, ⟨rfl, orderly⟩, isOrderly, filed⟩ :=
            growing_entity sound category node world _ _ _ described read
          have added := Graph.grows_add result.2 result.1
          refine ⟨_, grows.trans added, ⟨rfl, fun id entity found => ?_⟩, ?_⟩
          · rcases Graph.eq_or_found_of_add found with ⟨rfl, rfl⟩ | old
            · exact isOrderly.mono added
            · exact (orderly id entity old).mono added
          · refine Held.inside_inline ?_ (Graph.entity?_add _ _) filed
            rw [Graph.size_add]
            exact Nat.lt_succ_self _

omit sound in
theorem growsByEdges_nested (left right : Graph) (depth : Nat) :
    GrowsByEdges (.nested left right depth) := by
  induction depth with
  | zero => exact ⟨fun _ _ _ => decodes_throw, fun _ _ => decodes_throw⟩
  | succ depth sound =>
      refine ⟨fun category => growing_edge sound category, fun node graph => ?_⟩
      refine (reads_string node graph).bind fun later name _ _ =>
        decodes_pure ⟨⟨.openTag _, nofun⟩, ?_⟩
      rintro _ ⟨⟩
      exact ⟨name, rfl⟩

theorem growing_components :
    growing.Reads (components edges).read fun graph components =>
      components.Orderly graph.takes := by
  have stable : growing.Stable fun graph (components : Components) =>
      components.Orderly graph.takes := fun _ _ _ grows orderly =>
    orderly.after grows.keeps (Components.changes_refl Change.reflexive_none _)
  have schemas := reads_readTable growing_schema (stable_takes Held.schema)
  have table := growing_edges sound
  have blank {P : Edge → Prop} : Table.Orderly P ([] : Table Edge) := Table.orderly_nil
  refine reads_record stable ?_ fun _ => ⟨⟨List.nodup_nil, forall_mem_nil _⟩, blank, blank, blank,
    blank, blank, blank, blank, blank, blank⟩
  simp only [components, List.forall_mem_cons]
  exact ⟨keeps_general schemas fun _ _ _ schemas kept => { kept with
      schemas := ⟨schemas.1, fun entry member => (schemas.2 entry member).namedSchema⟩ },
    keeps_general (table .responses) fun _ _ _ responses kept => { kept with responses },
    keeps_general (table .parameters) fun _ _ _ parameters kept => { kept with parameters },
    keeps_general (table .examples) fun _ _ _ examples kept => { kept with examples },
    keeps_general (table .requestBodies) fun _ _ _ requestBodies kept =>
      { kept with requestBodies },
    keeps_general (table .headers) fun _ _ _ headers kept => { kept with headers },
    keeps_general (table .securitySchemes) fun _ _ _ securitySchemes kept =>
      { kept with securitySchemes },
    keeps_general (table .links) fun _ _ _ links kept => { kept with links },
    keeps_general (table .callbacks) fun _ _ _ callbacks kept => { kept with callbacks },
    keeps_general (table .pathItems) fun _ _ _ pathItems kept => { kept with pathItems },
    forall_mem_nil _⟩

theorem growing_document :
    growing.Reads (document edges).read fun graph document =>
      document.Orderly (Held.AsRead graph graph.size) := by
  have stable : growing.Stable fun graph (document : Document) =>
      document.Orderly (Held.AsRead graph graph.size) := fun _ _ _ grows orderly =>
    orderly.after (Change.keeps_none fun _ asRead => asRead.mono grows grows.size_le)
      (Document.changes_refl Change.reflexive_none _)
  have table {graph : Graph} {edges : Table Edge}
      (inside : edges.Orderly fun edge => graph.takes (.edge .pathItems edge)) :
      edges.Orderly fun edge => Held.AsRead graph graph.size (.edge .pathItems edge) :=
    inside.imp fun _ inside => inside.toAsRead
  refine reads_record stable ?_
    fun _ => ⟨Table.orderly_nil, Table.orderly_nil, forall_mem_none, forall_mem_nil _,
      forall_mem_nil _⟩
  simp only [document, List.forall_mem_cons]
  exact ⟨keeps_general reads_string fun _ _ _ _ kept => { kept with },
    keeps_general reads_info fun _ _ _ _ kept => { kept with },
    keeps_general (reads_readList reads_server stable_true) fun _ _ _ _ kept => { kept with },
    keeps_general (growing_edges sound .pathItems) fun _ _ _ paths kept =>
      { kept with paths := table paths },
    keeps_general (growing_edges sound .pathItems) fun _ _ _ webhooks kept =>
      { kept with webhooks := table webhooks },
    keeps_optional (growing_components sound) fun _ _ _ components kept => { kept with
      components := fun value member => (components value member).after Held.keeps_inside
        (Components.changes_refl Change.reflexive_none value) },
    keeps_general growing_security fun _ _ _ security kept => { kept with
      security := fun value member => (security value member).after Held.keeps_inside
        (SecurityRequirement.changes_refl Change.reflexive_none value) },
    keeps_general (growing_list sound .tags) fun _ _ _ tags kept =>
      { kept with tags := fun edge member => (tags edge member).tag },
    keeps_optional reads_externalDocs fun _ _ _ _ kept => { kept with }, forall_mem_nil _⟩

end

end Format

theorem Document.inside_of_parse {text : String} {location : Option String} {graph : Graph}
    {document : Document} (parsed : parse text location {} = .ok (document, graph)) :
    document.Orderly (Held.AsRead graph graph.size) ∧
      ∀ id entity, graph.entity? id = some entity → entity.Orderly (Held.Inside graph id) := by
  rw [parse] at parsed
  obtain ⟨⟨read, _⟩, decoded, same⟩ := Outcome.bind_eq_ok parsed
  cases same
  obtain ⟨_, _, ⟨rfl, entity⟩, orderly⟩ :=
    Format.growing_document (Format.growsByEdges_nested {} {} EdgeFormat.readingDepth) _ {} _ _ _
      ⟨rfl, fun id entity found => by simp [Graph.entity?] at found⟩
      (Json.Text.read_of_decode decoded)
  exact ⟨{ orderly with }, entity⟩

/-- A document that is read from a text is orderly, and nothing in it is linked. -/
theorem Document.orderly_of_parse {text : String} {location : Option String} {graph : Graph}
    {document : Document} (parsed : parse text location {} = .ok (document, graph)) :
    graph.Orderly (Held.AsRead graph) document where
  root := (inside_of_parse parsed).1
  entity id entity found := ((inside_of_parse parsed).2 id entity found).after Held.keeps_inside
    (entity.changes_refl Change.reflexive_none)

/-- A document is read from the text of a value as it is read from its tree. -/
theorem Document.parse_compact {json : Json} (legible : json.Legible Json.nestingLimit)
    (location : Option String) {graph : Graph} {document : Document}
    (read : (Format.document .reading).codec.read json.node {} = .ok (document, graph)) :
    parse json.compact location {} = .ok ({ document with location }, graph) := by
  rw [parse, Format.parse, Json.decode_compact legible, read]
  rfl

end ApiLinker
