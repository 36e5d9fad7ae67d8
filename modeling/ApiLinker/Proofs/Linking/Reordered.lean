import ApiLinker.Proofs.Json.Reordered
import ApiLinker.Proofs.Linking.Changing

/-!
Entities and documents whose tables stand in another order.

`Reorders` relates an object to one with the same entries in each of its tables, in any order: what
is held under each name is related as a `Change` allows, JSON may have its members in another order,
lists keep theirs, and everything else is the same.  Objects so related hold the same things, and
what becomes of them under two changes is related in the same way.
-/

namespace ApiLinker

open ListRel Place

section

variable (change : Change)

structure MediaType.Reorders (before after : MediaType) : Prop where
  schema : Option.Rel change.schema before.schema after.schema
  sample : Option.Rel Json.Reorders before.sample after.sample
  examples : Table.Reorders (change.edge .examples) before.examples after.examples

structure Parameter.Reorders (before after : Parameter) : Prop where
  schema : Option.Rel change.schema before.schema after.schema
  sample : Option.Rel Json.Reorders before.sample after.sample
  examples : Table.Reorders (change.edge .examples) before.examples after.examples
  content : Table.Reorders (MediaType.Reorders change) before.content after.content
  rest : after = { before with
    schema := after.schema, sample := after.sample, examples := after.examples
    content := after.content }

structure RequestBody.Reorders (before after : RequestBody) : Prop where
  content : Table.Reorders (MediaType.Reorders change) before.content after.content
  rest : after = { before with content := after.content }

structure Response.Reorders (before after : Response) : Prop where
  headers : Table.Reorders (change.edge .headers) before.headers after.headers
  content : Table.Reorders (MediaType.Reorders change) before.content after.content
  links : Table.Reorders (change.edge .links) before.links after.links
  description : before.description = after.description

structure Header.Reorders (before after : Header) : Prop where
  schema : Option.Rel change.schema before.schema after.schema
  sample : Option.Rel Json.Reorders before.sample after.sample
  examples : Table.Reorders (change.edge .examples) before.examples after.examples
  rest : after = { before with
    schema := after.schema, sample := after.sample, examples := after.examples }

structure Callback.Reorders (before after : Callback) : Prop where
  expressions : Table.Reorders (change.edge .pathItems) before.expressions after.expressions

structure Example.Reorders (before after : Example) : Prop where
  value : Option.Rel Json.Reorders before.value after.value
  rest : after = { before with value := after.value }

structure Link.Reorders (before after : Link) : Prop where
  parameters : Table.Reorders Json.Reorders before.parameters after.parameters
  requestBody : Option.Rel Json.Reorders before.requestBody after.requestBody
  rest : after = { before with
    parameters := after.parameters, requestBody := after.requestBody }

structure SecurityScheme.Reorders (before after : SecurityScheme) : Prop where
  flows : Option.Rel Json.Reorders before.flows after.flows
  rest : after = { before with flows := after.flows }

/-- The schemes of a requirement are a table under the names in their references. -/
structure SecurityRequirement.Reorders (before after : SecurityRequirement) : Prop where
  schemes : Permuted
    (fun left right => change.edge .securitySchemes left.1 right.1 ∧ left.2 = right.2)
    before.schemes after.schemes

structure Operation.Reorders (before after : Operation) : Prop where
  tags : List.Forall₂ change.tag before.tags after.tags
  parameters : List.Forall₂ (change.edge .parameters) before.parameters after.parameters
  requestBody : Option.Rel (change.edge .requestBodies) before.requestBody after.requestBody
  responses : Table.Reorders (change.edge .responses) before.responses after.responses
  callbacks : Table.Reorders (change.edge .callbacks) before.callbacks after.callbacks
  security : List.Forall₂ (SecurityRequirement.Reorders change) before.security after.security
  rest : after = { before with
    tags := after.tags, parameters := after.parameters, requestBody := after.requestBody
    responses := after.responses, callbacks := after.callbacks, security := after.security }

structure PathItem.Reorders (before after : PathItem) : Prop where
  get : Option.Rel (Operation.Reorders change) before.get after.get
  put : Option.Rel (Operation.Reorders change) before.put after.put
  post : Option.Rel (Operation.Reorders change) before.post after.post
  delete : Option.Rel (Operation.Reorders change) before.delete after.delete
  options : Option.Rel (Operation.Reorders change) before.options after.options
  head : Option.Rel (Operation.Reorders change) before.head after.head
  patch : Option.Rel (Operation.Reorders change) before.patch after.patch
  trace : Option.Rel (Operation.Reorders change) before.trace after.trace
  parameters : List.Forall₂ (change.edge .parameters) before.parameters after.parameters
  rest : after = { after with summary := before.summary, description := before.description }

inductive Entity.Reorders : Entity → Entity → Prop where
  | parameter {before after : Parameter} (reorders : before.Reorders change after) :
      Reorders (.parameter before) (.parameter after)
  | requestBody {before after : RequestBody} (reorders : before.Reorders change after) :
      Reorders (.requestBody before) (.requestBody after)
  | response {before after : Response} (reorders : before.Reorders change after) :
      Reorders (.response before) (.response after)
  | header {before after : Header} (reorders : before.Reorders change after) :
      Reorders (.header before) (.header after)
  | callback {before after : Callback} (reorders : before.Reorders change after) :
      Reorders (.callback before) (.callback after)
  | pathItem {before after : PathItem} (reorders : before.Reorders change after) :
      Reorders (.pathItem before) (.pathItem after)
  | tag (value : Tag) : Reorders (.tag value) (.tag value)
  | «example» {before after : Example} (reorders : before.Reorders after) :
      Reorders (.example before) (.example after)
  | link {before after : Link} (reorders : before.Reorders after) :
      Reorders (.link before) (.link after)
  | securityScheme {before after : SecurityScheme} (reorders : before.Reorders after) :
      Reorders (.securityScheme before) (.securityScheme after)

structure Components.Reorders (before after : Components) : Prop where
  schemas : Table.Reorders change.schema before.schemas after.schemas
  responses : Table.Reorders (change.edge .responses) before.responses after.responses
  parameters : Table.Reorders (change.edge .parameters) before.parameters after.parameters
  examples : Table.Reorders (change.edge .examples) before.examples after.examples
  requestBodies :
    Table.Reorders (change.edge .requestBodies) before.requestBodies after.requestBodies
  headers : Table.Reorders (change.edge .headers) before.headers after.headers
  securitySchemes :
    Table.Reorders (change.edge .securitySchemes) before.securitySchemes after.securitySchemes
  links : Table.Reorders (change.edge .links) before.links after.links
  callbacks : Table.Reorders (change.edge .callbacks) before.callbacks after.callbacks
  pathItems : Table.Reorders (change.edge .pathItems) before.pathItems after.pathItems

structure Document.Reorders (before after : Document) : Prop where
  paths : Table.Reorders (change.edge .pathItems) before.paths after.paths
  webhooks : Table.Reorders (change.edge .pathItems) before.webhooks after.webhooks
  components : Option.Rel (Components.Reorders change) before.components after.components
  security : List.Forall₂ (SecurityRequirement.Reorders change) before.security after.security
  tags : List.Forall₂ change.tag before.tags after.tags
  rest : after = { before with
    paths := after.paths, webhooks := after.webhooks, components := after.components
    security := after.security, tags := after.tags }

end

section

/-! What is held in another order is the same. -/

variable {change : Change}

namespace Change

theorem permuted_schema {before after : Option Schema}
    (related : Option.Rel change.schema before after) :
    Permuted change.Allows (before.toList.map .schema) (after.toList.map .schema) :=
  permuted_map.mpr (permuted_of_forall₂ ((OptionRel.toList related).imp fun _ _ => .schema))

theorem permuted_table {category : Category} {before after : Table Edge}
    (related : Table.Reorders (change.edge category) before after) :
    Permuted change.Allows (before.map fun entry => .edge category entry.2)
      (after.map fun entry => .edge category entry.2) :=
  permuted_map.mpr (related.imp fun _ _ holds => .edge holds.2)

theorem permuted_list {category : Category} {before after : List Edge}
    (related : List.Forall₂ (change.edge category) before after) :
    Permuted change.Allows (before.map (.edge category)) (after.map (.edge category)) :=
  permuted_map.mpr (permuted_of_forall₂ (related.imp fun _ _ => .edge))

theorem permuted_tags {before after : List Edge} (related : List.Forall₂ change.tag before after) :
    Permuted change.Allows (before.map .tag) (after.map .tag) :=
  permuted_map.mpr (permuted_of_forall₂ (related.imp fun _ _ => .tag))

end Change

open Change

theorem MediaType.Reorders.helds {before after : MediaType}
    (reorders : before.Reorders change after) :
    Permuted change.Allows (helds before.places) (helds after.places) := by
  simp only [helds_places]
  exact (permuted_schema reorders.schema).append (permuted_table reorders.examples)

theorem Change.permuted_content {before after : Table MediaType}
    (related : Table.Reorders (MediaType.Reorders change) before after) :
    Permuted change.Allows (helds (contentPlaces before)) (helds (contentPlaces after)) := by
  simp only [helds_contentPlaces]
  exact ListRel.Permuted.flatMap related fun _ _ holds => holds.2.helds

theorem SecurityRequirement.Reorders.helds {before after : SecurityRequirement}
    (reorders : before.Reorders change after) :
    Permuted change.Allows (helds before.places) (helds after.places) := by
  simp only [helds_places]
  exact permuted_map.mpr (reorders.schemes.imp fun _ _ holds => .edge holds.1)

theorem Change.permuted_security {before after : List SecurityRequirement}
    (related : List.Forall₂ (SecurityRequirement.Reorders change) before after) :
    Permuted change.Allows (helds (securityPlaces before)) (helds (securityPlaces after)) := by
  simp only [helds_securityPlaces]
  exact (permuted_of_forall₂ related).flatMap fun _ _ reorders => reorders.helds

theorem Operation.Reorders.helds {before after : Operation}
    (reorders : before.Reorders change after) :
    Permuted change.Allows (helds before.places) (helds after.places) := by
  have requestBody : Permuted change.Allows
      (before.requestBody.toList.map (.edge .requestBodies))
      (after.requestBody.toList.map (.edge .requestBodies)) :=
    permuted_list (OptionRel.toList reorders.requestBody)
  have security := permuted_security reorders.security
  simp only [helds_securityPlaces] at security
  simp only [helds_places]
  exact ((((requestBody.append (permuted_list reorders.parameters)).append
    (permuted_tags reorders.tags)).append (permuted_table reorders.responses)).append
    (permuted_table reorders.callbacks)).append security

theorem PathItem.Reorders.operations {before after : PathItem}
    (reorders : before.Reorders change after) :
    Table.Rel (Operation.Reorders change) before.operations after.operations := by
  refine List.rel_filterMap (R := fun left right => left.1 = right.1 ∧
    Option.Rel (Operation.Reorders change) left.2 right.2) ?_ ?_
  · rintro ⟨method, operation⟩ ⟨_, other⟩ ⟨rfl, related⟩
    cases related with
    | none => exact .none
    | some reorders => exact .some ⟨rfl, reorders⟩
  · exact .cons ⟨rfl, reorders.get⟩ (.cons ⟨rfl, reorders.put⟩ (.cons ⟨rfl, reorders.post⟩
      (.cons ⟨rfl, reorders.delete⟩ (.cons ⟨rfl, reorders.options⟩ (.cons ⟨rfl, reorders.head⟩
        (.cons ⟨rfl, reorders.patch⟩ (.cons ⟨rfl, reorders.trace⟩ .nil)))))))

theorem PathItem.Reorders.helds {before after : PathItem}
    (reorders : before.Reorders change after) :
    Permuted change.Allows (helds before.places) (helds after.places) := by
  simp only [places, helds_append, helds_within, helds_ofList, helds_flatMap]
  exact (permuted_list reorders.parameters).append
    ((permuted_of_forall₂ reorders.operations).flatMap fun _ _ holds => holds.2.helds)

theorem Entity.Reorders.helds {before after : Entity} (reorders : before.Reorders change after) :
    Permuted change.Allows (helds before.places) (helds after.places) := by
  cases reorders with
  | parameter reorders =>
      simp only [places, Parameter.places, helds_append, helds_ofSchema, helds_within, helds_ofTable]
      exact ((permuted_schema reorders.schema).append (permuted_table reorders.examples)).append
        (permuted_content reorders.content)
  | requestBody reorders =>
      simp only [places, RequestBody.places, helds_within]
      exact permuted_content reorders.content
  | response reorders =>
      simp only [places, Response.places, helds_append, helds_within, helds_ofTable]
      exact ((permuted_table reorders.headers).append (permuted_content reorders.content)).append
        (permuted_table reorders.links)
  | header reorders =>
      simp only [places, Header.places, helds_append, helds_ofSchema, helds_within, helds_ofTable]
      exact (permuted_schema reorders.schema).append (permuted_table reorders.examples)
  | callback reorders =>
      simp only [places, Callback.places, helds_ofTable]
      exact permuted_table reorders.expressions
  | pathItem reorders => exact reorders.helds
  | tag | «example» | link | securityScheme => exact permuted_nil

theorem Components.Reorders.helds {before after : Components}
    (reorders : before.Reorders change after) :
    Permuted change.Allows (helds before.places) (helds after.places) := by
  have schemas : Permuted change.Allows
      (before.schemas.map fun entry => .namedSchema entry.1 entry.2)
      (after.schemas.map fun entry => .namedSchema entry.1 entry.2) := by
    refine permuted_map.mpr (reorders.schemas.imp ?_)
    rintro ⟨name, schema⟩ ⟨_, other⟩ ⟨rfl, changes⟩
    exact .namedSchema changes
  simp only [helds_places]
  exact (((((((((permuted_table reorders.parameters).append
    (permuted_table reorders.requestBodies)).append (permuted_table reorders.responses)).append
    (permuted_table reorders.links)).append (permuted_table reorders.callbacks)).append
    (permuted_table reorders.examples)).append schemas).append
    (permuted_table reorders.pathItems)).append (permuted_table reorders.securitySchemes)).append
    (permuted_table reorders.headers)

theorem Document.Reorders.helds {before after : Document}
    (reorders : before.Reorders change after) :
    Permuted change.Allows (helds before.places) (helds after.places) := by
  have security := permuted_security reorders.security
  simp only [places, helds_append, helds_within, helds_ofTags, helds_flatMap, helds_ofTable]
  exact ((((permuted_tags reorders.tags).append
    ((permuted_of_forall₂ (OptionRel.toList reorders.components)).flatMap
      fun _ _ reorders => reorders.helds)).append (permuted_table reorders.paths)).append
    (permuted_table reorders.webhooks)).append security

theorem Entity.Reorders.held_before {before after : Entity}
    (reorders : before.Reorders change after) {held : Held} (holds : after.Holds held) :
    ∃ origin, before.Holds origin ∧ change.Allows origin held := by
  obtain ⟨origin, member, allowed⟩ :=
    reorders.helds.exists_of_mem_right (Entity.holds_iff.mp holds)
  exact ⟨origin, Entity.holds_iff.mpr member, allowed⟩

theorem Entity.Reorders.held_after {before after : Entity}
    (reorders : before.Reorders change after) {held : Held} (holds : before.Holds held) :
    ∃ result, after.Holds result ∧ change.Allows held result := by
  obtain ⟨result, member, allowed⟩ :=
    reorders.helds.exists_of_mem_left (Entity.holds_iff.mp holds)
  exact ⟨result, Entity.holds_iff.mpr member, allowed⟩

theorem Document.Reorders.held_before {before after : Document}
    (reorders : before.Reorders change after) {held : Held} (holds : after.Holds held) :
    ∃ origin, before.Holds origin ∧ change.Allows origin held := by
  obtain ⟨origin, member, allowed⟩ :=
    reorders.helds.exists_of_mem_right (Document.holds_iff.mp holds)
  exact ⟨origin, Document.holds_iff.mpr member, allowed⟩

theorem Document.Reorders.held_after {before after : Document}
    (reorders : before.Reorders change after) {held : Held} (holds : before.Holds held) :
    ∃ result, after.Holds result ∧ change.Allows held result := by
  obtain ⟨result, member, allowed⟩ :=
    reorders.helds.exists_of_mem_left (Document.holds_iff.mp holds)
  exact ⟨result, Document.holds_iff.mpr member, allowed⟩

end

section

/-! What becomes of objects that are the same but for their order. -/

variable {change first second result : Change}

/-- What two things that are held become is related by `result`, where they are related
themselves. -/
structure Change.Squares (change first second result : Change) : Prop where
  edge : ∀ category before other after otherAfter, change.edge category before other →
    first.edge category before after → second.edge category other otherAfter →
    result.edge category after otherAfter
  tag : ∀ before other after otherAfter, change.tag before other → first.tag before after →
    second.tag other otherAfter → result.tag after otherAfter
  schema : ∀ before other after otherAfter, change.schema before other →
    first.schema before after → second.schema other otherAfter → result.schema after otherAfter

variable (squares : change.Squares first second result)
include squares

theorem MediaType.Reorders.square {before other after otherAfter : MediaType}
    (reorders : before.Reorders change other) (changes : before.Changes first after)
    (becomes : other.Changes second otherAfter) : after.Reorders result otherAfter where
  schema := OptionRel.square reorders.schema changes.schema becomes.schema squares.schema
  sample := by
    rw [changes.rest, becomes.rest]
    exact reorders.sample
  examples := reorders.examples.square changes.examples becomes.examples (squares.edge .examples)

theorem Change.Squares.content {before other after otherAfter : Table MediaType}
    (reorders : Table.Reorders (MediaType.Reorders change) before other)
    (changes : Table.Rel (MediaType.Changes first) before after)
    (becomes : Table.Rel (MediaType.Changes second) other otherAfter) :
    Table.Reorders (MediaType.Reorders result) after otherAfter :=
  reorders.square changes becomes fun _ _ _ _ => MediaType.Reorders.square squares

theorem SecurityRequirement.Reorders.square {before other after otherAfter : SecurityRequirement}
    (reorders : before.Reorders change other) (changes : before.Changes first after)
    (becomes : other.Changes second otherAfter) : after.Reorders result otherAfter where
  schemes := reorders.schemes.square changes.schemes becomes.schemes
    fun _ _ _ _ holds changes becomes =>
      ⟨squares.edge _ _ _ _ _ holds.1 changes.1 becomes.1,
        changes.2.symm.trans (holds.2.trans becomes.2)⟩

theorem Operation.Reorders.square {before other after otherAfter : Operation}
    (reorders : before.Reorders change other) (changes : before.Changes first after)
    (becomes : other.Changes second otherAfter) : after.Reorders result otherAfter where
  tags := ListRel.square reorders.tags changes.tags becomes.tags squares.tag
  parameters := ListRel.square reorders.parameters changes.parameters becomes.parameters
    (squares.edge .parameters)
  requestBody := OptionRel.square reorders.requestBody changes.requestBody becomes.requestBody
    (squares.edge .requestBodies)
  responses := reorders.responses.square changes.responses becomes.responses
    (squares.edge .responses)
  callbacks := reorders.callbacks.square changes.callbacks becomes.callbacks
    (squares.edge .callbacks)
  security := ListRel.square reorders.security changes.security becomes.security
    fun _ _ _ _ => SecurityRequirement.Reorders.square squares
  rest := by rw [becomes.rest, changes.rest, reorders.rest]

theorem PathItem.Reorders.square {before other after otherAfter : PathItem}
    (reorders : before.Reorders change other) (changes : before.Changes first after)
    (becomes : other.Changes second otherAfter) : after.Reorders result otherAfter :=
  have operation := fun {before other after otherAfter : Option Operation}
      (reorders : Option.Rel (Operation.Reorders change) before other)
      (changes : Option.Rel (Operation.Changes first) before after)
      (becomes : Option.Rel (Operation.Changes second) other otherAfter) =>
    OptionRel.square reorders changes becomes fun _ _ _ _ => Operation.Reorders.square squares
  { get := operation reorders.get changes.get becomes.get
    put := operation reorders.put changes.put becomes.put
    post := operation reorders.post changes.post becomes.post
    delete := operation reorders.delete changes.delete becomes.delete
    options := operation reorders.options changes.options becomes.options
    head := operation reorders.head changes.head becomes.head
    patch := operation reorders.patch changes.patch becomes.patch
    trace := operation reorders.trace changes.trace becomes.trace
    parameters := ListRel.square reorders.parameters changes.parameters becomes.parameters
      (squares.edge .parameters)
    rest := by rw [becomes.rest, changes.rest, reorders.rest] }

theorem Parameter.Reorders.square {before other after otherAfter : Parameter}
    (reorders : before.Reorders change other) (changes : before.Changes first after)
    (becomes : other.Changes second otherAfter) : after.Reorders result otherAfter where
  schema := OptionRel.square reorders.schema changes.schema becomes.schema squares.schema
  sample := by
    rw [changes.rest, becomes.rest]
    exact reorders.sample
  examples := reorders.examples.square changes.examples becomes.examples (squares.edge .examples)
  content := squares.content reorders.content changes.content becomes.content
  rest := by rw [becomes.rest, changes.rest, reorders.rest]

theorem RequestBody.Reorders.square {before other after otherAfter : RequestBody}
    (reorders : before.Reorders change other) (changes : before.Changes first after)
    (becomes : other.Changes second otherAfter) : after.Reorders result otherAfter where
  content := squares.content reorders.content changes.content becomes.content
  rest := by rw [becomes.rest, changes.rest, reorders.rest]

theorem Response.Reorders.square {before other after otherAfter : Response}
    (reorders : before.Reorders change other) (changes : before.Changes first after)
    (becomes : other.Changes second otherAfter) : after.Reorders result otherAfter where
  headers := reorders.headers.square changes.headers becomes.headers (squares.edge .headers)
  content := squares.content reorders.content changes.content becomes.content
  links := reorders.links.square changes.links becomes.links (squares.edge .links)
  description := by rw [becomes.rest, changes.rest, reorders.description]

theorem Header.Reorders.square {before other after otherAfter : Header}
    (reorders : before.Reorders change other) (changes : before.Changes first after)
    (becomes : other.Changes second otherAfter) : after.Reorders result otherAfter where
  schema := OptionRel.square reorders.schema changes.schema becomes.schema squares.schema
  sample := by
    rw [changes.rest, becomes.rest]
    exact reorders.sample
  examples := reorders.examples.square changes.examples becomes.examples (squares.edge .examples)
  rest := by rw [becomes.rest, changes.rest, reorders.rest]

theorem Callback.Reorders.square {before other after otherAfter : Callback}
    (reorders : before.Reorders change other) (changes : before.Changes first after)
    (becomes : other.Changes second otherAfter) : after.Reorders result otherAfter where
  expressions := reorders.expressions.square changes.expressions becomes.expressions
    (squares.edge .pathItems)

theorem Entity.Reorders.square {before other after otherAfter : Entity}
    (reorders : before.Reorders change other) (changes : before.Changes first after)
    (becomes : other.Changes second otherAfter) : after.Reorders result otherAfter := by
  cases reorders with
  | parameter reorders =>
      cases changes with
      | parameter changes =>
          cases becomes with
          | parameter becomes => exact .parameter (reorders.square squares changes becomes)
  | requestBody reorders =>
      cases changes with
      | requestBody changes =>
          cases becomes with
          | requestBody becomes => exact .requestBody (reorders.square squares changes becomes)
  | response reorders =>
      cases changes with
      | response changes =>
          cases becomes with
          | response becomes => exact .response (reorders.square squares changes becomes)
  | header reorders =>
      cases changes with
      | header changes =>
          cases becomes with
          | header becomes => exact .header (reorders.square squares changes becomes)
  | callback reorders =>
      cases changes with
      | callback changes =>
          cases becomes with
          | callback becomes => exact .callback (reorders.square squares changes becomes)
  | pathItem reorders =>
      cases changes with
      | pathItem changes =>
          cases becomes with
          | pathItem becomes => exact .pathItem (reorders.square squares changes becomes)
  | tag value =>
      cases changes
      cases becomes
      exact .tag value
  | «example» reorders =>
      cases changes
      cases becomes
      exact .example reorders
  | link reorders =>
      cases changes
      cases becomes
      exact .link reorders
  | securityScheme reorders =>
      cases changes
      cases becomes
      exact .securityScheme reorders

theorem Components.Reorders.square {before other after otherAfter : Components}
    (reorders : before.Reorders change other) (changes : before.Changes first after)
    (becomes : other.Changes second otherAfter) : after.Reorders result otherAfter where
  schemas := reorders.schemas.square changes.schemas becomes.schemas squares.schema
  responses := reorders.responses.square changes.responses becomes.responses
    (squares.edge .responses)
  parameters := reorders.parameters.square changes.parameters becomes.parameters
    (squares.edge .parameters)
  examples := reorders.examples.square changes.examples becomes.examples (squares.edge .examples)
  requestBodies := reorders.requestBodies.square changes.requestBodies becomes.requestBodies
    (squares.edge .requestBodies)
  headers := reorders.headers.square changes.headers becomes.headers (squares.edge .headers)
  securitySchemes := reorders.securitySchemes.square changes.securitySchemes
    becomes.securitySchemes (squares.edge .securitySchemes)
  links := reorders.links.square changes.links becomes.links (squares.edge .links)
  callbacks := reorders.callbacks.square changes.callbacks becomes.callbacks
    (squares.edge .callbacks)
  pathItems := reorders.pathItems.square changes.pathItems becomes.pathItems
    (squares.edge .pathItems)

theorem Document.Reorders.square {before other after otherAfter : Document}
    (reorders : before.Reorders change other) (changes : before.Changes first after)
    (becomes : other.Changes second otherAfter) : after.Reorders result otherAfter where
  paths := reorders.paths.square changes.paths becomes.paths (squares.edge .pathItems)
  webhooks := reorders.webhooks.square changes.webhooks becomes.webhooks (squares.edge .pathItems)
  components := OptionRel.square reorders.components changes.components becomes.components
    fun _ _ _ _ => Components.Reorders.square squares
  security := ListRel.square reorders.security changes.security becomes.security
    fun _ _ _ _ => SecurityRequirement.Reorders.square squares
  tags := ListRel.square reorders.tags changes.tags becomes.tags squares.tag
  rest := by rw [becomes.rest, changes.rest, reorders.rest]

end

end ApiLinker
