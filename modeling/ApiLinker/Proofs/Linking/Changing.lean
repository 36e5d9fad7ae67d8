import ApiLinker.Proofs.Linking.Holding

/-!
Properties of changes.

The places of an object before and after a change correspond one to one, a change is known from what
it does to the things held, and an object of which nothing held changes is the same object.
-/

namespace ApiLinker

open Place

variable {change weaker : Change}

namespace Change

/-- For this held object, one change allows no more than the other. -/
def Implies (change weaker : Change) (held : Held) : Prop :=
  ∀ after, change.Allows held after → weaker.Allows held after

theorem Implies.edge {category : Category} {before after : Edge}
    (implies : change.Implies weaker (.edge category before))
    (changes : change.edge category before after) : weaker.edge category before after := by
  cases implies _ (.edge changes) with
  | edge changes => exact changes

theorem Implies.tag {before after : Edge} (implies : change.Implies weaker (.tag before))
    (changes : change.tag before after) : weaker.tag before after := by
  cases implies _ (.tag changes) with
  | tag changes => exact changes

theorem Implies.schema {before after : Schema} (implies : change.Implies weaker (.schema before))
    (changes : change.schema before after) : weaker.schema before after := by
  cases implies _ (.schema changes) with
  | schema changes => exact changes

theorem Implies.namedSchema {name : String} {before after : Schema}
    (implies : change.Implies weaker (.namedSchema name before))
    (changes : change.schema before after) : weaker.schema before after := by
  cases implies _ (.namedSchema changes) with
  | namedSchema changes => exact changes

theorem Allows.schema_before {before after : Held} {schema : Schema}
    (allowed : change.Allows before after) (isSchema : after.schema? = some schema) :
    ∃ origin, before.schema? = some origin ∧ change.schema origin schema := by
  cases allowed with
  | edge | tag => cases isSchema
  | schema changes | namedSchema changes =>
      cases isSchema
      exact ⟨_, rfl, changes⟩

theorem Allows.schema_after {before after : Held} {schema : Schema}
    (allowed : change.Allows before after) (isSchema : before.schema? = some schema) :
    ∃ result, after.schema? = some result ∧ change.schema schema result := by
  cases allowed with
  | edge | tag => cases isSchema
  | schema changes | namedSchema changes =>
      cases isSchema
      exact ⟨_, rfl, changes⟩

theorem implies_ofSchemas {R S : Schema → Schema → Prop} {held : Held}
    (implies : ∀ before after, held.schema? = some before → R before after → S before after) :
    (ofSchemas R).Implies (ofSchemas S) held := by
  intro after allowed
  cases allowed with
  | edge same => exact .edge same
  | tag same => exact .tag same
  | schema changes => exact .schema (implies _ _ rfl changes)
  | namedSchema changes => exact .namedSchema (implies _ _ rfl changes)

/-- A security scheme goes on being referred to by the same name, which names its place. -/
def KeepsNames (change : Change) : Prop :=
  ∀ before after, change.edge .securitySchemes before after → after.reference? = before.reference?

/-- What a place may become.  It stays where it is. -/
structure AllowsAt (change : Change) (before after : Place) : Prop where
  held : change.Allows before.held after.held
  path : change.KeepsNames → after.path = before.path

section

/-! Places in options, lists and tables. -/

theorem forall₂_within (segment : String) {before after : List Place}
    (related : List.Forall₂ change.AllowsAt before after) :
    List.Forall₂ change.AllowsAt (within segment before) (within segment after) := by
  simp only [within, List.forall₂_map_left_iff, List.forall₂_map_right_iff]
  exact related.imp fun _ _ allowed =>
    ⟨allowed.held, fun keeps => congrArg ([segment] ++ ·) (allowed.path keeps)⟩

theorem forall₂_ofTable {category : Category} {before after : Table Edge}
    (related : Table.Rel (change.edge category) before after) :
    List.Forall₂ change.AllowsAt (ofTable category before) (ofTable category after) := by
  simp only [ofTable, List.forall₂_map_left_iff, List.forall₂_map_right_iff]
  exact related.imp fun _ _ holds =>
    ⟨.edge holds.2, fun _ => congrArg (fun name => [name]) holds.1.symm⟩

theorem forall₂_ofList {category : Category} {before after : List Edge}
    (related : List.Forall₂ (change.edge category) before after) :
    List.Forall₂ change.AllowsAt (ofList category before) (ofList category after) := by
  simp only [ofList, List.forall₂_map_left_iff, List.forall₂_map_right_iff]
  exact (ListRel.zipIdx related 0).imp fun _ _ holds =>
    ⟨.edge holds.1, fun _ => congrArg (fun index => [toString index]) holds.2.symm⟩

theorem forall₂_ofTags {before after : List Edge}
    (related : List.Forall₂ change.tag before after) :
    List.Forall₂ change.AllowsAt (ofTags before) (ofTags after) := by
  simp only [ofTags, List.forall₂_map_left_iff, List.forall₂_map_right_iff]
  exact (ListRel.zipIdx related 0).imp fun _ _ holds =>
    ⟨.tag holds.1, fun _ => congrArg (fun index => [toString index]) holds.2.symm⟩

theorem forall₂_ofSchema {before after : Option Schema}
    (related : Option.Rel change.schema before after) :
    List.Forall₂ change.AllowsAt (ofSchema before) (ofSchema after) := by
  simp only [ofSchema, List.forall₂_map_left_iff, List.forall₂_map_right_iff]
  exact (OptionRel.toList related).imp fun _ _ changes => ⟨.schema changes, fun _ => rfl⟩

/-- Entries of one name, with related places. -/
theorem forall₂_entries {before after : Table α} {S : α → α → Prop} {places : α → List Place}
    (related : Table.Rel S before after)
    (each : ∀ left right, S left right →
      List.Forall₂ change.AllowsAt (places left) (places right)) :
    List.Forall₂ change.AllowsAt (before.flatMap fun (name, value) => within name (places value))
      (after.flatMap fun (name, value) => within name (places value)) := by
  refine List.rel_flatMap related fun left right holds => ?_
  simp only [holds.1]
  exact forall₂_within _ (each _ _ holds.2)

end

end Change

section

/-! The places of an object before and after a change. -/

open Change

theorem MediaType.Changes.places {before after : MediaType}
    (changes : before.Changes change after) :
    List.Forall₂ change.AllowsAt before.places after.places :=
  List.rel_append (forall₂_ofSchema changes.schema)
    (forall₂_within _ (forall₂_ofTable changes.examples))

theorem Change.forall₂_content {before after : Table MediaType}
    (related : Table.Rel (MediaType.Changes change) before after) :
    List.Forall₂ change.AllowsAt (contentPlaces before) (contentPlaces after) :=
  forall₂_entries related fun _ _ changes => changes.places

theorem SecurityRequirement.Changes.places {before after : SecurityRequirement}
    (changes : before.Changes change after) :
    List.Forall₂ change.AllowsAt before.places after.places := by
  simp only [SecurityRequirement.places, List.forall₂_map_left_iff, List.forall₂_map_right_iff]
  exact changes.schemes.imp fun left right holds =>
    ⟨.edge holds.1, fun keeps => by simp only [keeps _ _ holds.1]⟩

theorem Change.forall₂_security {before after : List SecurityRequirement}
    (related : List.Forall₂ (SecurityRequirement.Changes change) before after) :
    List.Forall₂ change.AllowsAt (securityPlaces before) (securityPlaces after) := by
  refine List.rel_flatMap (ListRel.zipIdx related 0) fun left right holds => ?_
  simp only [holds.2]
  exact forall₂_within _ holds.1.places

theorem Operation.Changes.places {before after : Operation}
    (changes : before.Changes change after) :
    List.Forall₂ change.AllowsAt before.places after.places := by
  have requestBody : List.Forall₂ change.AllowsAt
      (before.requestBody.toList.map fun edge =>
        { path := ["requestBody"], held := .edge .requestBodies edge })
      (after.requestBody.toList.map fun edge =>
        { path := ["requestBody"], held := .edge .requestBodies edge }) := by
    simp only [List.forall₂_map_left_iff, List.forall₂_map_right_iff]
    exact (OptionRel.toList changes.requestBody).imp fun _ _ changes =>
      ⟨.edge changes, fun _ => rfl⟩
  exact List.rel_append (List.rel_append (List.rel_append (List.rel_append
    (List.rel_append requestBody (forall₂_within _ (forall₂_ofList changes.parameters)))
    (forall₂_within _ (forall₂_ofTags changes.tags)))
    (forall₂_within _ (forall₂_ofTable changes.responses)))
    (forall₂_within _ (forall₂_ofTable changes.callbacks)))
    (forall₂_within _ (forall₂_security changes.security))

theorem PathItem.Changes.operations {before after : PathItem}
    (changes : before.Changes change after) :
    Table.Rel (Operation.Changes change) before.operations after.operations := by
  refine List.rel_filterMap (R := fun left right => left.1 = right.1 ∧
    Option.Rel (Operation.Changes change) left.2 right.2) ?_ ?_
  · intro left right related
    obtain ⟨method, operation⟩ := left
    obtain ⟨_, changed⟩ := right
    obtain ⟨rfl, related⟩ := related
    cases related with
    | none => exact .none
    | some changes => exact .some ⟨rfl, changes⟩
  · exact .cons ⟨rfl, changes.get⟩ (.cons ⟨rfl, changes.put⟩ (.cons ⟨rfl, changes.post⟩
      (.cons ⟨rfl, changes.delete⟩ (.cons ⟨rfl, changes.options⟩ (.cons ⟨rfl, changes.head⟩
        (.cons ⟨rfl, changes.patch⟩ (.cons ⟨rfl, changes.trace⟩ .nil)))))))

theorem PathItem.Changes.places {before after : PathItem} (changes : before.Changes change after) :
    List.Forall₂ change.AllowsAt before.places after.places :=
  List.rel_append (forall₂_within _ (forall₂_ofList changes.parameters))
    (forall₂_entries changes.operations fun _ _ changes => changes.places)

theorem Entity.Changes.places {before after : Entity} (changes : before.Changes change after) :
    List.Forall₂ change.AllowsAt before.places after.places := by
  cases changes with
  | parameter changes =>
      exact List.rel_append (List.rel_append (forall₂_ofSchema changes.schema)
        (forall₂_within _ (forall₂_ofTable changes.examples)))
        (forall₂_within _ (forall₂_content changes.content))
  | requestBody changes => exact forall₂_within _ (forall₂_content changes.content)
  | response changes =>
      exact List.rel_append (List.rel_append
        (forall₂_within _ (forall₂_ofTable changes.headers))
        (forall₂_within _ (forall₂_content changes.content)))
        (forall₂_within _ (forall₂_ofTable changes.links))
  | header changes =>
      exact List.rel_append (forall₂_ofSchema changes.schema)
        (forall₂_within _ (forall₂_ofTable changes.examples))
  | callback changes => exact forall₂_ofTable changes.expressions
  | pathItem changes => exact changes.places
  | tag | «example» | link | securityScheme => exact .nil

theorem Components.Changes.places {before after : Components}
    (changes : before.Changes change after) :
    List.Forall₂ change.AllowsAt before.places after.places := by
  have schemas : List.Forall₂ change.AllowsAt
      (before.schemas.map fun entry =>
        { path := [entry.1], held := .namedSchema entry.1 entry.2 })
      (after.schemas.map fun entry =>
        { path := [entry.1], held := .namedSchema entry.1 entry.2 }) := by
    simp only [List.forall₂_map_left_iff, List.forall₂_map_right_iff]
    refine changes.schemas.imp ?_
    intro left right related
    obtain ⟨name, schema⟩ := left
    obtain ⟨_, changed⟩ := right
    obtain ⟨rfl, changes⟩ := related
    exact ⟨.namedSchema changes, fun _ => rfl⟩
  exact List.rel_append (List.rel_append (List.rel_append (List.rel_append (List.rel_append
    (List.rel_append (List.rel_append (List.rel_append (List.rel_append
    (forall₂_within _ (forall₂_ofTable changes.parameters))
    (forall₂_within _ (forall₂_ofTable changes.requestBodies)))
    (forall₂_within _ (forall₂_ofTable changes.responses)))
    (forall₂_within _ (forall₂_ofTable changes.links)))
    (forall₂_within _ (forall₂_ofTable changes.callbacks)))
    (forall₂_within _ (forall₂_ofTable changes.examples))) (forall₂_within _ schemas))
    (forall₂_within _ (forall₂_ofTable changes.pathItems)))
    (forall₂_within _ (forall₂_ofTable changes.securitySchemes)))
    (forall₂_within _ (forall₂_ofTable changes.headers))

theorem Document.Changes.places {before after : Document}
    (changes : before.Changes change after) :
    List.Forall₂ change.AllowsAt before.places after.places :=
  List.rel_append (List.rel_append (List.rel_append (List.rel_append
    (forall₂_within _ (forall₂_ofTags changes.tags))
    (List.rel_flatMap (OptionRel.toList changes.components) fun _ _ changes =>
      forall₂_within _ changes.places))
    (forall₂_within _ (forall₂_ofTable changes.paths)))
    (forall₂_within _ (forall₂_ofTable changes.webhooks)))
    (forall₂_within _ (forall₂_security changes.security))

theorem Change.forall₂_helds {before after : List Place}
    (related : List.Forall₂ change.AllowsAt before after) :
    List.Forall₂ change.Allows (helds before) (helds after) := by
  simp only [helds, List.forall₂_map_left_iff, List.forall₂_map_right_iff]
  exact related.imp fun _ _ allowed => allowed.held

theorem Entity.Changes.category {before after : Entity} (changes : before.Changes change after) :
    after.category = before.category := by
  cases changes <;> rfl

/-- Whatever an entity holds after a change has come of something that it held before. -/
theorem Entity.Changes.held_before {before after : Entity} (changes : before.Changes change after)
    {held : Held} (holds : after.Holds held) :
    ∃ origin, before.Holds origin ∧ change.Allows origin held := by
  obtain ⟨origin, member, allowed⟩ :=
    ListRel.exists_of_mem_right (forall₂_helds changes.places) (Entity.holds_iff.mp holds)
  exact ⟨origin, Entity.holds_iff.mpr member, allowed⟩

theorem Entity.Changes.held_after {before after : Entity} (changes : before.Changes change after)
    {held : Held} (holds : before.Holds held) :
    ∃ result, after.Holds result ∧ change.Allows held result := by
  obtain ⟨result, member, allowed⟩ :=
    ListRel.exists_of_mem_left (forall₂_helds changes.places) (Entity.holds_iff.mp holds)
  exact ⟨result, Entity.holds_iff.mpr member, allowed⟩

theorem Document.Changes.held_before {before after : Document}
    (changes : before.Changes change after) {held : Held} (holds : after.Holds held) :
    ∃ origin, before.Holds origin ∧ change.Allows origin held := by
  obtain ⟨origin, member, allowed⟩ :=
    ListRel.exists_of_mem_right (forall₂_helds changes.places) (Document.holds_iff.mp holds)
  exact ⟨origin, Document.holds_iff.mpr member, allowed⟩

theorem Document.Changes.held_after {before after : Document}
    (changes : before.Changes change after) {held : Held} (holds : before.Holds held) :
    ∃ result, after.Holds result ∧ change.Allows held result := by
  obtain ⟨result, member, allowed⟩ :=
    ListRel.exists_of_mem_left (forall₂_helds changes.places) (Document.holds_iff.mp holds)
  exact ⟨result, Document.holds_iff.mpr member, allowed⟩

end

section

/-! A change that is allowed for all that an object holds is allowed for the object. -/

theorem Change.imp_table {category : Category} {before after : Table Edge}
    (related : Table.Rel (change.edge category) before after)
    (implies : ∀ entry ∈ before, change.Implies weaker (.edge category entry.2)) :
    Table.Rel (weaker.edge category) before after :=
  related.imp_of_mem fun entry member _ changes => (implies entry member).edge changes

theorem MediaType.Changes.imp {before after : MediaType} (changes : before.Changes change after)
    (implies : ∀ held, before.Holds held → change.Implies weaker held) :
    before.Changes weaker after where
  schema := OptionRel.imp_of_mem changes.schema fun _ found _ changes =>
    (implies _ (.schema found)).schema changes
  examples := Change.imp_table changes.examples fun _ member => implies _ (.example member)
  rest := changes.rest

theorem Change.imp_content {before after : Table MediaType}
    (related : Table.Rel (MediaType.Changes change) before after)
    (implies : ∀ entry ∈ before, ∀ held, entry.2.Holds held → change.Implies weaker held) :
    Table.Rel (MediaType.Changes weaker) before after :=
  related.imp_of_mem fun entry member _ changes => changes.imp (implies entry member)

theorem SecurityRequirement.Changes.imp {before after : SecurityRequirement}
    (changes : before.Changes change after)
    (implies : ∀ held, before.Holds held → change.Implies weaker held) :
    before.Changes weaker after where
  schemes := ListRel.imp_of_mem changes.schemes fun _ member _ holds =>
    ⟨(implies _ (.scheme member)).edge holds.1, holds.2⟩

theorem Operation.Changes.imp {before after : Operation} (changes : before.Changes change after)
    (implies : ∀ held, before.Holds held → change.Implies weaker held) :
    before.Changes weaker after where
  tags := ListRel.imp_of_mem changes.tags fun _ member _ changes =>
    (implies _ (.tag member)).tag changes
  parameters := ListRel.imp_of_mem changes.parameters fun _ member _ changes =>
    (implies _ (.parameter member)).edge changes
  requestBody := OptionRel.imp_of_mem changes.requestBody fun _ found _ changes =>
    (implies _ (.requestBody found)).edge changes
  responses := Change.imp_table changes.responses fun _ member => implies _ (.response member)
  callbacks := Change.imp_table changes.callbacks fun _ member => implies _ (.callback member)
  security := ListRel.imp_of_mem changes.security fun _ member _ changes =>
    changes.imp fun held inside => implies held (.security member inside)
  rest := changes.rest

theorem PathItem.Changes.imp {before after : PathItem} (changes : before.Changes change after)
    (implies : ∀ held, before.Holds held → change.Implies weaker held) :
    before.Changes weaker after := by
  have each : ∀ entry ∈ before.operations, ∀ after, entry.2.Changes change after →
      entry.2.Changes weaker after :=
    fun entry member after changes =>
      changes.imp fun held inside => implies held (.operation member inside)
  simp only [PathItem.operations, List.mem_filterMap] at each
  have present : ∀ (method : String) {operation after : Option Operation},
      (method, operation) ∈ [("get", before.get), ("put", before.put), ("post", before.post),
        ("delete", before.delete), ("options", before.options), ("head", before.head),
        ("patch", before.patch), ("trace", before.trace)] →
      Option.Rel (Operation.Changes change) operation after →
      Option.Rel (Operation.Changes weaker) operation after := by
    intro method operation after listed related
    refine OptionRel.imp_of_mem related fun left found right changes => ?_
    cases found
    exact each (method, left) ⟨_, listed, rfl⟩ right changes
  exact {
    get := present "get" (by simp) changes.get
    put := present "put" (by simp) changes.put
    post := present "post" (by simp) changes.post
    delete := present "delete" (by simp) changes.delete
    options := present "options" (by simp) changes.options
    head := present "head" (by simp) changes.head
    patch := present "patch" (by simp) changes.patch
    trace := present "trace" (by simp) changes.trace
    parameters := ListRel.imp_of_mem changes.parameters fun _ member _ changes =>
      (implies _ (.parameter member)).edge changes
    rest := changes.rest }

theorem Entity.Changes.imp {before after : Entity} (changes : before.Changes change after)
    (implies : ∀ held, before.Holds held → change.Implies weaker held) :
    before.Changes weaker after := by
  cases changes with
  | parameter changes =>
      exact .parameter {
        schema := OptionRel.imp_of_mem changes.schema fun _ found _ changes =>
          (implies _ (.schema found)).schema changes
        examples := Change.imp_table changes.examples fun _ member => implies _ (.example member)
        content := Change.imp_content changes.content fun _ member held inside =>
          implies held (.content member inside)
        rest := changes.rest }
  | requestBody changes =>
      exact .requestBody {
        content := Change.imp_content changes.content fun _ member held inside =>
          implies held (.content member inside)
        rest := changes.rest }
  | response changes =>
      exact .response {
        headers := Change.imp_table changes.headers fun _ member => implies _ (.header member)
        content := Change.imp_content changes.content fun _ member held inside =>
          implies held (.content member inside)
        links := Change.imp_table changes.links fun _ member => implies _ (.link member)
        rest := changes.rest }
  | header changes =>
      exact .header {
        schema := OptionRel.imp_of_mem changes.schema fun _ found _ changes =>
          (implies _ (.schema found)).schema changes
        examples := Change.imp_table changes.examples fun _ member => implies _ (.example member)
        rest := changes.rest }
  | callback changes =>
      exact .callback {
        expressions := Change.imp_table changes.expressions fun _ member =>
          implies _ (.expression member) }
  | pathItem changes => exact .pathItem (changes.imp implies)
  | tag value => exact .tag value
  | «example» value => exact .example value
  | link value => exact .link value
  | securityScheme value => exact .securityScheme value

theorem Components.Changes.imp {before after : Components} (changes : before.Changes change after)
    (implies : ∀ held, before.Holds held → change.Implies weaker held) :
    before.Changes weaker after where
  schemas := changes.schemas.imp_of_mem fun _ member _ changes =>
    (implies _ (.schema member)).namedSchema changes
  responses := Change.imp_table changes.responses fun _ member => implies _ (.response member)
  parameters := Change.imp_table changes.parameters fun _ member => implies _ (.parameter member)
  examples := Change.imp_table changes.examples fun _ member => implies _ (.example member)
  requestBodies := Change.imp_table changes.requestBodies fun _ member =>
    implies _ (.requestBody member)
  headers := Change.imp_table changes.headers fun _ member => implies _ (.header member)
  securitySchemes := Change.imp_table changes.securitySchemes fun _ member =>
    implies _ (.securityScheme member)
  links := Change.imp_table changes.links fun _ member => implies _ (.link member)
  callbacks := Change.imp_table changes.callbacks fun _ member => implies _ (.callback member)
  pathItems := Change.imp_table changes.pathItems fun _ member => implies _ (.pathItem member)

theorem Document.Changes.imp {before after : Document} (changes : before.Changes change after)
    (implies : ∀ held, before.Holds held → change.Implies weaker held) :
    before.Changes weaker after where
  paths := Change.imp_table changes.paths fun _ member => implies _ (.path member)
  webhooks := Change.imp_table changes.webhooks fun _ member => implies _ (.webhook member)
  components := OptionRel.imp_of_mem changes.components fun _ found _ changes =>
    changes.imp fun held inside => implies held (.component found inside)
  security := ListRel.imp_of_mem changes.security fun _ member _ changes =>
    changes.imp fun held inside => implies held (.security member inside)
  tags := ListRel.imp_of_mem changes.tags fun _ member _ changes =>
    (implies _ (.tag member)).tag changes
  rest := changes.rest

end

section

/-! What nothing happens to stays the same. -/

theorem MediaType.Changes.eq {before after : MediaType} (changes : before.Changes .none after) :
    before = after := by
  rw [changes.rest, ← OptionRel.eq changes.schema, ← Table.Rel.eq changes.examples]

theorem Change.eq_content {before after : Table MediaType}
    (related : Table.Rel (MediaType.Changes .none) before after) : before = after :=
  Table.Rel.eq (related.imp_of_mem fun _ _ _ changes => changes.eq)

theorem SecurityRequirement.Changes.eq {before after : SecurityRequirement}
    (changes : before.Changes .none after) : before = after := by
  have same : List.Forall₂ Eq before.schemes after.schemes :=
    changes.schemes.imp fun _ _ holds => Prod.ext holds.1 holds.2
  rw [List.forall₂_eq_eq_eq] at same
  cases before
  cases after
  exact congrArg _ same

theorem Change.eq_security {before after : List SecurityRequirement}
    (related : List.Forall₂ (SecurityRequirement.Changes .none) before after) : before = after := by
  have same := related.imp fun _ _ changes => changes.eq
  rwa [List.forall₂_eq_eq_eq] at same

theorem Change.eq_list {before after : List Edge} (related : List.Forall₂ Eq before after) :
    before = after := by
  rwa [List.forall₂_eq_eq_eq] at related

theorem Operation.Changes.eq {before after : Operation} (changes : before.Changes .none after) :
    before = after := by
  rw [changes.rest, ← Change.eq_list changes.tags, ← Change.eq_list changes.parameters,
    ← OptionRel.eq changes.requestBody, ← Table.Rel.eq changes.responses,
    ← Table.Rel.eq changes.callbacks, ← Change.eq_security changes.security]

theorem PathItem.Changes.eq {before after : PathItem} (changes : before.Changes .none after) :
    before = after := by
  have same : ∀ {before after : Option Operation},
      Option.Rel (Operation.Changes .none) before after → before = after :=
    fun related => OptionRel.eq (OptionRel.imp_of_mem related fun _ _ _ changes => changes.eq)
  rw [changes.rest, ← same changes.get, ← same changes.put, ← same changes.post,
    ← same changes.delete, ← same changes.options, ← same changes.head, ← same changes.patch,
    ← same changes.trace, ← Change.eq_list changes.parameters]

theorem Entity.Changes.eq {before after : Entity} (changes : before.Changes .none after) :
    before = after := by
  cases changes with
  | parameter changes =>
      rw [changes.rest, ← OptionRel.eq changes.schema, ← Table.Rel.eq changes.examples,
        ← Change.eq_content changes.content]
  | requestBody changes => rw [changes.rest, ← Change.eq_content changes.content]
  | response changes =>
      rw [changes.rest, ← Table.Rel.eq changes.headers, ← Change.eq_content changes.content,
        ← Table.Rel.eq changes.links]
  | header changes =>
      rw [changes.rest, ← OptionRel.eq changes.schema, ← Table.Rel.eq changes.examples]
  | callback changes => exact congrArg _ (congrArg Callback.mk (Table.Rel.eq changes.expressions))
  | pathItem changes => rw [changes.eq]
  | tag | «example» | link | securityScheme => rfl

theorem Components.Changes.eq {before after : Components} (changes : before.Changes .none after) :
    before = after := by
  cases before
  cases after
  simp only [Components.mk.injEq]
  exact ⟨Table.Rel.eq changes.schemas, Table.Rel.eq changes.responses,
    Table.Rel.eq changes.parameters, Table.Rel.eq changes.examples,
    Table.Rel.eq changes.requestBodies, Table.Rel.eq changes.headers,
    Table.Rel.eq changes.securitySchemes, Table.Rel.eq changes.links,
    Table.Rel.eq changes.callbacks, Table.Rel.eq changes.pathItems⟩

theorem Document.Changes.eq {before after : Document} (changes : before.Changes .none after) :
    before = after := by
  have components : before.components = after.components :=
    OptionRel.eq (OptionRel.imp_of_mem changes.components fun _ _ _ changes => changes.eq)
  rw [changes.rest, ← Table.Rel.eq changes.paths, ← Table.Rel.eq changes.webhooks, ← components,
    ← Change.eq_security changes.security, ← Change.eq_list changes.tags]

end

section

/-! What may stay as it is in every position may stay as it is. -/

/-- Whatever is held may stay. -/
structure Change.Reflexive (change : Change) : Prop where
  edge : ∀ category edge, change.edge category edge edge
  tag : ∀ edge, change.tag edge edge
  schema : ∀ schema, change.schema schema schema

theorem Change.reflexive_none : Change.none.Reflexive where
  edge _ _ := rfl
  tag _ := rfl
  schema _ := rfl

variable (stays : change.Reflexive)
include stays

theorem MediaType.changes_refl (media : MediaType) : media.Changes change media where
  schema := OptionRel.refl stays.schema _
  examples := .refl (stays.edge .examples) _
  rest := rfl

theorem Change.content_refl (content : Table MediaType) :
    Table.Rel (MediaType.Changes change) content content :=
  .refl (MediaType.changes_refl stays) content

theorem SecurityRequirement.changes_refl (requirement : SecurityRequirement) :
    requirement.Changes change requirement where
  schemes := List.forall₂_same.mpr fun _ _ => ⟨stays.edge .securitySchemes _, rfl⟩

theorem Operation.changes_refl (operation : Operation) : operation.Changes change operation where
  tags := List.forall₂_same.mpr fun edge _ => stays.tag edge
  parameters := List.forall₂_same.mpr fun edge _ => stays.edge .parameters edge
  requestBody := OptionRel.refl (stays.edge .requestBodies) _
  responses := .refl (stays.edge .responses) _
  callbacks := .refl (stays.edge .callbacks) _
  security := List.forall₂_same.mpr fun requirement _ =>
    SecurityRequirement.changes_refl stays requirement
  rest := rfl

theorem PathItem.changes_refl (item : PathItem) : item.Changes change item :=
  have operation := OptionRel.refl (Operation.changes_refl stays)
  { get := operation _
    put := operation _
    post := operation _
    delete := operation _
    options := operation _
    head := operation _
    patch := operation _
    trace := operation _
    parameters := List.forall₂_same.mpr fun edge _ => stays.edge .parameters edge
    rest := rfl }

theorem Entity.changes_refl (entity : Entity) : entity.Changes change entity := by
  have edges := fun category => Table.Rel.refl (stays.edge category)
  have content := Change.content_refl stays
  have schema := OptionRel.refl stays.schema
  cases entity with
  | parameter => exact .parameter ⟨schema _, edges .examples _, content _, rfl⟩
  | requestBody => exact .requestBody ⟨content _, rfl⟩
  | response => exact .response ⟨edges .headers _, content _, edges .links _, rfl⟩
  | header => exact .header ⟨schema _, edges .examples _, rfl⟩
  | callback => exact .callback ⟨edges .pathItems _⟩
  | pathItem item => exact .pathItem (PathItem.changes_refl stays item)
  | tag value => exact .tag value
  | «example» value => exact .example value
  | link value => exact .link value
  | securityScheme value => exact .securityScheme value

theorem Components.changes_refl (components : Components) :
    components.Changes change components :=
  have edges := fun category => Table.Rel.refl (stays.edge category)
  { schemas := .refl stays.schema _
    responses := edges .responses _
    parameters := edges .parameters _
    examples := edges .examples _
    requestBodies := edges .requestBodies _
    headers := edges .headers _
    securitySchemes := edges .securitySchemes _
    links := edges .links _
    callbacks := edges .callbacks _
    pathItems := edges .pathItems _ }

theorem Document.changes_refl (document : Document) : document.Changes change document where
  paths := .refl (stays.edge .pathItems) _
  webhooks := .refl (stays.edge .pathItems) _
  components := OptionRel.refl (Components.changes_refl stays) _
  security := List.forall₂_same.mpr fun requirement _ =>
    SecurityRequirement.changes_refl stays requirement
  tags := List.forall₂_same.mpr fun edge _ => stays.tag edge
  rest := rfl

end

end ApiLinker
