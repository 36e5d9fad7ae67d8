import ApiLinker.Proofs.Format.Copying
import ApiLinker.Proofs.Format.Standing
import ApiLinker.Proofs.Schema.Restored

/-!
Documents, read again.

What is written for an orderly document is read as the document, with every link as the reference
that it was made of and every tag of an operation as its name; and this is written as the document
was (`Graph.Orderly.restored`).
-/

namespace ApiLinker

open Codec Json Outcome Record

namespace Format

section

/-! Documents and their components. -/

variable {left right : EdgeFormat} {depth : Nat} {change : Graph → Change} {fits : Held → Prop}
variable (restores : left.Restores right depth change fits)
include restores

theorem restores_components {before : Components} (orderly : before.Orderly fits)
    (schemas : ∀ entry ∈ before.schemas, fits (.schema entry.2)) :
    (components left).codec.Restores (depth + 1) (components right).codec
      (fun later => Components.Changes (change later)) before := by
  have named : (Codec.table schema).Restores depth (.table schema)
      (fun later => Table.Rel (change later).schema) before.schemas :=
    (Codec.restores_table orderly.schemas.1 fun entry member =>
      restores.schema (schemas entry member)).mono (Nat.le_succ depth)
  refine Record.restores (by simp [components]) ?_
  exact Record.restores_table named rfl fun _ =>
    Record.restores_table (restores_edges restores orderly.responses) rfl fun _ =>
    Record.restores_table (restores_edges restores orderly.parameters) rfl fun _ =>
    Record.restores_table (restores_edges restores orderly.examples) rfl fun _ =>
    Record.restores_table (restores_edges restores orderly.requestBodies) rfl fun _ =>
    Record.restores_table (restores_edges restores orderly.headers) rfl fun _ =>
    Record.restores_table (restores_edges restores orderly.securitySchemes) rfl fun _ =>
    Record.restores_table (restores_edges restores orderly.links) rfl fun _ =>
    Record.restores_table (restores_edges restores orderly.callbacks) rfl fun _ =>
    Record.restores_table (restores_edges restores orderly.pathItems) rfl fun _ =>
    restores_nil fun _ pathItems callbacks links securitySchemes headers requestBodies examples
        parameters responses schemas => {
      schemas, responses, parameters, examples, requestBodies, headers, securitySchemes, links
      callbacks, pathItems }

/-- The tags of a document are restored as all else that is edges. -/
theorem restores_document {before : Document} (unplaced : before.location = none)
    (orderly : before.Orderly fits)
    (schemas : ∀ components ∈ before.components, ∀ entry ∈ components.schemas,
      fits (.schema entry.2))
    (tags : ∀ edge ∈ before.tags, fits (.edge .tags edge)) :
    (document left).codec.Restores (depth + 1) (document right).codec
      (fun later => Document.Changes { change later with tag := (change later).edge .tags })
      before := by
  have servers : (Codec.list server.codec).Restores depth (.list server.codec)
      (fun later => List.Forall₂ (kept later)) before.servers :=
    (Codec.restores_list fun value _ =>
      (restores_server value).mono (Nat.le_succ depth)).mono (Nat.le_succ depth)
  refine Record.restores (by simp [document]) ?_
  exact restores_given (restores_string _) fun _ =>
    restores_given ((restores_info _).mono (Nat.le_succ depth)) fun _ =>
    Record.restores_list servers rfl fun _ =>
    Record.restores_table (restores_edges restores orderly.paths) rfl fun _ =>
    Record.restores_table (restores_edges restores orderly.webhooks) rfl fun _ =>
    restores_optional (fun _ _ _ => Record.write_ne_null)
      (fun value member => (restores_components restores (orderly.components value member)
        (schemas value member)).mono (Nat.le_succ depth)) rfl fun _ =>
    Record.restores_list (restores_security restores orderly.security) rfl fun _ =>
    Record.restores_list (restores_edgeList restores tags) rfl fun _ =>
    restores_optional_kept (fun _ _ _ => Record.write_ne_null)
      (fun docs _ => (restores_externalDocs docs).mono (Nat.le_succ depth)) rfl fun _ =>
    restores_nil fun _ externalDocs tags security components webhooks paths servers info openapi => {
      paths, webhooks, tags
      components := OptionRel.imp_of_mem components fun _ _ _ changes => { changes with }
      security := security.imp fun _ _ changes => ⟨changes.schemes⟩
      rest := by
        have same : before.servers = _ := List.forall₂_eq_eq_eq ▸ servers
        subst externalDocs info openapi
        simp [← same, unplaced, document] }

end

section

/-! What is written for an entity is not read as a reference. -/

/-- An object in which only an object can stand under the name of a pointer. -/
inductive Unreferring : Json → Prop where
  | object {members : List (String × Json)}
      (each : ∀ member ∈ members, member.1 = "$ref" → ∃ inner, member.2 = .object inner) :
      Unreferring (.object members)

theorem names_writeFields {σ ρ : Type} {record : ρ} {fields : List (Field σ ρ)}
    {members : List (String × Json)} (written : writeFields record fields = .ok members) :
    ∀ member ∈ members, member.1 ∈ fields.map Field.name := by
  induction fields generalizing members with
  | nil =>
      cases written
      exact List.forall_mem_nil _
  | cons field fields ih =>
      obtain ⟨value, _, written⟩ := bind_eq_ok written
      obtain ⟨others, areOthers, same⟩ := bind_eq_ok written
      cases same
      have among : ∀ member ∈ others, member.1 ∈ (field :: fields).map Field.name :=
        fun member inside => List.mem_cons_of_mem _ (ih areOthers member inside)
      cases value with
      | none => exact among
      | some value => exact List.forall_mem_cons.mpr ⟨List.mem_cons_self, among⟩

theorem unreferring_record {ρ : Type} {format : Record Graph ρ} {value : ρ} {json : Json}
    (unnamed : "$ref" ∉ format.fields.map Field.name)
    (written : format.codec.write value = .ok json) : Unreferring json := by
  obtain ⟨members, areWritten, rfl⟩ := map_eq_ok written
  exact .object fun member inside same =>
    absurd (same ▸ names_writeFields areWritten member inside) unnamed

variable {graph : Graph} {edges : EdgeFormat}

theorem unreferring_entity {entity : Entity} {json : Json}
    (objects : ∀ edge value, (edges.edge .pathItems).write edge = .ok value →
      ∃ inner, value = .object inner)
    (written : writeEntity edges entity = .ok json) : Unreferring json := by
  cases entity with
  | callback callback =>
      obtain ⟨members, areWritten, rfl⟩ := map_eq_ok written
      refine .object fun member inside _ => ?_
      obtain ⟨entry, _, isEntry⟩ :=
        ListRel.exists_of_mem_right (mapM_eq_ok_iff.mp areWritten) inside
      obtain ⟨value, isValue, same⟩ := bind_eq_ok isEntry
      cases same
      exact objects entry.2 value isValue
  | tag => exact unreferring_record (by simp [tag]) written
  | parameter => exact unreferring_record (by simp [parameter]) written
  | requestBody => exact unreferring_record (by simp [requestBody]) written
  | response => exact unreferring_record (by simp [response]) written
  | «example» => exact unreferring_record (by simp [sample]) written
  | header => exact unreferring_record (by simp [header]) written
  | link => exact unreferring_record (by simp [link]) written
  | pathItem => exact unreferring_record (by simp [pathItem]) written
  | securityScheme => exact unreferring_record (by simp [securityScheme]) written

theorem isObject_entity {entity : Entity} {json : Json} (written : writeEntity edges entity = .ok json) :
    ∃ members, json = .object members := by
  cases entity <;> (obtain ⟨members, _, rfl⟩ := map_eq_ok written; exact ⟨members, rfl⟩)

theorem isObject_edge {edge : Edge} {json : Json} (written : edge.write edges graph = .ok json) :
    ∃ members, json = .object members := by
  cases edge with
  | placeholder | linked =>
      cases written
      exact ⟨_, rfl⟩
  | inline id =>
      rw [Edge.write] at written
      split at written
      · exact isObject_entity written
      · cases written

/-- A member that is no field is passed over. -/
theorem readMembers_unknown {σ ρ : Type} {format : Record σ ρ} {given : List String} {record : ρ}
    {name : String} {value : Json} {rest : List (String × Json)}
    (unknown : format.field? name = none) :
    format.readMembers given record (memberNodes ((name, value) :: rest)) =
      format.readMembers given record (memberNodes rest) := by
  rw [memberNodes, readMembers, text_ofText, skip_node, lift_ok_bind, unknown]
  rfl

theorem refused_of_unreferring {json : Json} (unreferring : Unreferring json) (graph : Graph) :
    ∃ fault, reference.read json.node graph = .error fault := by
  cases unreferring with
  | @object members each =>
      change ∃ fault, reference.readMembers [] reference.blank (memberNodes members) graph =
        .error fault
      induction members with
      | nil => exact ⟨_, rfl⟩
      | cons member members ih =>
          obtain ⟨name, value⟩ := member
          obtain ⟨first, each⟩ := List.forall_mem_cons.mp each
          obtain ⟨fault, refused⟩ := ih each
          by_cases isPointer : name = "$ref"
          · obtain ⟨inner, isObject⟩ := first isPointer
            obtain rfl : value = .object inner := isObject
            subst isPointer
            exact ⟨_, rfl⟩
          · have other : reference.field? name = none := by
              simp [field?, reference, Field.required, Field.general, Ne.symm isPointer]
            exact ⟨fault, (congrFun (readMembers_unknown other) graph).trans refused⟩

theorem restores_reference (pointer : String) :
    reference.codec.Restores 1 reference.codec kept { pointer } :=
  Record.restores (by simp [reference]) <|
    restores_given (restores_string _) fun _ => restores_nil fun _ same => by
      subst same
      rfl

end

end Format

/-- An inline edge whose entity has a copy, as `inner` says of what it holds. -/
inductive Graph.Copies (graph later : Graph) (inner : Change) : Edge → Edge → Prop where
  | inline {id target : EntityId} {entity other : Entity} (found : graph.entity? id = some entity)
      (isOther : later.entity? target = some other) (changes : entity.Changes inner other) :
      Copies graph later inner (.inline id) (.inline target)

/-- References stay references and tags of operations keep their names, but nothing is linked any
more. -/
def Graph.unlinks (graph : Graph) : Change where
  edge _ before after :=
    ∃ reference, before.reference? = some reference ∧ after = .placeholder reference
  tag before after := ∃ name, before.writeTagName graph = .ok (.string name) ∧
    after = .placeholder (Reference.toTag name)
  schema before after := after.contents = before.contents

/-- Inline edges lead to copies, down to `depth` levels, and with all else is done as `outer` says. -/
def Graph.copies (graph later : Graph) (outer : Change) : (depth : Nat) → Change
  | 0 => outer
  | depth + 1 => { outer with
      edge := fun category before after => outer.edge category before after ∨
        graph.Copies later (graph.copies later outer depth) before after }

namespace Graph

variable {graph later : Graph} {outer : Change} {depth : Nat}

theorem copies_of_outer {category : Category} {before after : Edge}
    (holds : outer.edge category before after) :
    (graph.copies later outer depth).edge category before after := by
  cases depth with
  | zero => exact holds
  | succ => exact .inl holds

theorem tag_copies : (graph.copies later outer depth).tag = outer.tag := by
  cases depth <;> rfl

theorem schema_copies : (graph.copies later outer depth).schema = outer.schema := by
  cases depth <;> rfl

end Graph

section

/-! Edges, level by level. -/

variable {graph : Graph} {left right : EdgeFormat} {category : Category} {before : Edge}
variable {bound depth : Nat}

theorem gives_reference {R : Graph → Edge → Prop} (pointer : String)
    (holds : ∀ later, R later (.placeholder { pointer })) :
    Gives (Edge.read right category (Reference.json { pointer }).node) R := fun start => by
  have legible : Legible 1 (Reference.json { pointer }) := .object (by simp)
  obtain ⟨value, isValue⟩ := exists_value _ legible
  obtain ⟨read, last, ran, _, same⟩ :=
    Format.restores_reference pointer (Reference.json { pointer }) rfl legible start
  obtain rfl : _ = read := same last (le_refl last)
  refine ⟨_, start, ?_, le_refl start, fun later _ => holds later⟩
  have ran : Format.reference.read (Reference.json { pointer }).node start =
    .ok ({ pointer }, last) := ran
  simp only [Edge.read, isValue, ran]
  rfl

theorem gives_inline {id : EntityId} {entity : Entity} {json : Json} {inner : Graph → Change}
    (found : graph.entity? id = some entity) (legible : Legible depth json)
    (unreferring : Format.Unreferring json)
    (gives : Gives (Format.readEntity right entity.category json.node) fun later after =>
      entity.Changes (inner later) after) :
    Gives (Edge.read right entity.category json.node) fun later after =>
      graph.Copies later (inner later) (.inline id) after := fun start => by
  obtain ⟨value, isValue⟩ := exists_value json legible
  obtain ⟨fault, refused⟩ := Format.refused_of_unreferring unreferring start
  obtain ⟨other, last, ran, grows, changes⟩ := gives start
  have added := last.grows_add other
  refine ⟨.inline (last.add other).1, (last.add other).2, ?_, le_trans grows added, ?_⟩
  · simp only [Edge.read, isValue, refused, ran]
    rfl
  · exact fun later le => .inline found (le _ _ (last.entity?_add other))
      (changes later (le_trans added le))

theorem gives_edge {json : Json} (fits : Held.Fits graph bound (.edge category before))
    (written : before.write left graph = .ok json) (legible : Legible depth json)
    (objects : ∀ edge value, (left.edge .pathItems).write edge = .ok value →
      ∃ members, value = .object members)
    (inner : ∀ id entity below less, graph.entity? id = some entity → id ≤ below →
      bound = below + 1 → depth = less + 1 → Format.writeEntity left entity = .ok json →
      Gives (Format.readEntity right entity.category json.node) fun later after =>
        entity.Changes (graph.copies later graph.unlinks below) after) :
    Gives (Edge.read right category json.node) fun later after =>
      (graph.copies later graph.unlinks bound).edge category before after := by
  cases fits with
  | placeholder _ pointer | linked _ pointer _ =>
      cases written
      exact gives_reference pointer fun _ => Graph.copies_of_outer ⟨_, rfl, rfl⟩
  | @inline _ id entity below found filed =>
      subst filed
      rw [Edge.write_of_inline found] at written
      obtain ⟨members, rfl⟩ := Format.isObject_entity written
      cases legible with
      | @object less _ each =>
          cases bound with
          | zero => exact absurd below (Nat.not_lt_zero id)
          | succ below' =>
              refine (gives_inline found (.object each) (Format.unreferring_entity objects written)
                (inner id entity below' less found (Nat.le_of_lt_succ below) rfl rfl written)).imp ?_
              exact fun _ _ => .inr

theorem isObject_nested {edge : Edge} {json : Json}
    (written : ((EdgeFormat.nested graph graph bound).edge category).write edge = .ok json) :
    ∃ members, json = .object members := by
  cases bound with
  | zero => cases written
  | succ => exact Format.isObject_edge written

theorem gives_schema {schema : Schema} (distinct : schema.Distinct) :
    Format.schema.Restores depth Format.schema
      (fun _ before after => after.contents = before.contents) schema := by
  rintro _ ⟨⟩ legible start
  obtain ⟨read, count, ran, _, holds⟩ :=
    Schema.restores_numbered distinct _ rfl legible start.schemaCount
  refine ⟨read, { start with schemaCount := count }, ?_, fun _ _ found => found,
    fun _ _ => holds count (Nat.le_refl count)⟩
  change Schema.read _ _ = _ at ran
  simp only [Format.schema, Format.readSchema, ran]
  rfl

/-- Inside operations tags are written by their names. -/
theorem gives_tagName {json : Json} (fits : Held.Fits graph bound (.tag before))
    (written : before.writeTagName graph = .ok json) :
    Gives (Edge.readTagName json.node) fun _ after => graph.unlinks.tag before after := by
  have named : ∃ name, before.writeTagName graph = .ok (.string name) := by
    cases fits with
    | openTag | linkedTag => exact ⟨_, rfl⟩
    | @heldTag _ tag found => exact ⟨tag.name, by simp only [Edge.writeTagName, found]⟩
  obtain ⟨name, isName⟩ := named
  obtain rfl : json = .string name := Except.ok.inj (written.symm.trans isName)
  have reads : Gives (readString (Json.string name).node : Decoder Graph String)
      fun _ read => name = read := restores_string name _ rfl (.string 0 name)
  exact reads.bind fun read => gives_pure fun _ same => ⟨read, same ▸ isName, rfl⟩

/-- What a level needs of the level below. -/
theorem restores_of_inner
    (inner : ∀ id entity below less, graph.entity? id = some entity → id ≤ below →
      bound = below + 1 → depth = less + 1 → ∀ json, Legible depth json →
      Format.writeEntity (.nested graph graph bound) entity = .ok json →
      Gives (Format.readEntity (.nested {} {} depth) entity.category json.node) fun later after =>
        entity.Changes (graph.copies later graph.unlinks below) after) :
    (EdgeFormat.nested graph graph (bound + 1)).Restores (.nested {} {} (depth + 1)) depth
      (fun later => graph.copies later graph.unlinks bound) (Held.Fits graph bound) where
  edge fits json written legible :=
    gives_edge fits written legible (fun _ _ => isObject_nested)
      fun id entity below less found le isBelow isLess written =>
        inner id entity below less found le isBelow isLess json legible written
  tagName fits json written _ := by
    simp only [Graph.tag_copies]
    exact gives_tagName fits written
  scheme refers := Graph.copies_of_outer ⟨_, refers, rfl⟩
  schema fits := by
    simp only [Graph.schema_copies]
    cases fits with
    | schema distinct => exact gives_schema distinct
  present fits json written := by
    obtain ⟨_, rfl⟩ := isObject_nested written
    nofun

/-- At every level what is written is read again, as far as there are levels to read. -/
theorem restores_nested
    (orderly : ∀ id entity, graph.entity? id = some entity → entity.Orderly (Held.Fits graph id)) :
    (EdgeFormat.nested graph graph (bound + 1)).Restores (.nested {} {} (depth + 1)) depth
      (fun later => graph.copies later graph.unlinks bound) (Held.Fits graph bound) := by
  induction depth generalizing bound with
  | zero =>
      exact restores_of_inner fun _ _ _ less _ _ _ noLess => absurd noLess.symm (Nat.succ_ne_zero less)
  | succ depth ih =>
      refine restores_of_inner ?_
      rintro id entity below _ found le rfl ⟨⟩ json legible written
      exact Format.restores_entity ih ((orderly id entity found).mono_bound le) written legible

end

namespace Graph

variable {graph later : Graph}

section

/-! What was read is written as what it was read from. -/

theorem namesAlike_copies {depth : Nat} :
    graph.NamesAlike later EdgeFormat.unmarked (graph.copies later graph.unlinks depth).tag := by
  rintro bound before after _ changes
  rw [tag_copies] at changes
  obtain ⟨name, written, rfl⟩ := changes
  refine ⟨name, written, ?_, lays_same _⟩
  rw [Edge.writeTagName_of_reference rfl, Reference.identifier_toTag]

theorem reference_of_copied {depth : Nat} {category : Category} {before after : Edge}
    {reference : Reference} (copied : (graph.copies later graph.unlinks depth).edge category before after)
    (refers : before.reference? = some reference) : after.reference? = some reference := by
  have unlinked : graph.unlinks.edge category before after → after.reference? = some reference := by
    rintro ⟨other, same, rfl⟩
    exact same.symm.trans refers
  cases depth with
  | zero => exact unlinked copied
  | succ depth =>
      rcases copied with outer | copies
      · exact unlinked outer
      · cases copies with
        | inline => cases refers

/-- A tag of a document is written as it was, in full and by its name. -/
theorem copied_tag {depth bound : Nat} {before after : Edge}
    (fits : Held.Fits graph bound (.tag before))
    (copied : (graph.copies later graph.unlinks depth).edge .tags before after) :
    (∃ reference, before.reference? = some reference ∧ after.reference? = some reference) ∨
      ∃ id target tag, before = .inline id ∧ after = .inline target ∧
        graph.entity? id = some (.tag tag) ∧ later.entity? target = some (.tag tag) := by
  cases depth with
  | zero =>
      obtain ⟨reference, refers, rfl⟩ := copied
      exact .inl ⟨reference, refers, rfl⟩
  | succ depth =>
      rcases copied with ⟨reference, refers, rfl⟩ | copies
      · exact .inl ⟨reference, refers, rfl⟩
      · cases copies with
        | @inline id target entity other found isOther changes =>
            cases fits with
            | @heldTag _ tag isTag =>
                obtain rfl := Option.some.inj (isTag.symm.trans found)
                cases changes with
                | tag => exact .inr ⟨id, target, tag, rfl, rfl, found, isOther⟩

theorem passes_copies {depth : Nat} :
    graph.PassesAtRoot later (graph.copies later graph.unlinks)
      ((graph.copies later graph.unlinks depth).edge .tags) EdgeFormat.unmarked
      EdgeFormat.unmarked where
  reference := reference_of_copied
  inline copied found := by
    rcases copied with ⟨_, never, _⟩ | copies
    · cases never
    · cases copies with
      | inline isEntity isOther changes =>
          cases found.symm.trans isEntity
          exact ⟨_, _, rfl, isOther, changes⟩
  tagName _ := namesAlike_copies
  shown _ _ := lays_same _
  silent := rfl
  scheme _ _ := lays_same _
  schema same := by
    rw [schema_copies] at same
    exact Schema.json_eq_of_contents same ▸ lays_same _
  rootTagName fits copied := by
    rcases copied_tag fits copied with ⟨reference, refers, same⟩ |
      ⟨id, target, tag, rfl, rfl, found, isOther⟩
    · exact ⟨reference.identifier, Edge.writeTagName_of_reference refers,
        Edge.writeTagName_of_reference same, lays_same _⟩
    · exact ⟨tag.name, by simp only [Edge.writeTagName, found],
        by simp only [Edge.writeTagName, isOther], lays_same _⟩
  rootTag fits copied := by
    rcases copied_tag fits copied with ⟨reference, refers, same⟩ |
      ⟨id, target, tag, rfl, rfl, found, isOther⟩
    · exact ⟨_, _, Edge.write_of_reference refers, Edge.write_of_reference same, lays_same _⟩
    · obtain ⟨json, written⟩ := Format.total_tag tag
      exact ⟨json, json, (Edge.write_of_inline found).trans written,
        (Edge.write_of_inline isOther).trans written, lays_same json⟩
  rootShown _ := lays_same _
  rootSilent := rfl
  namedSchema same := by
    rw [schema_copies] at same
    exact Schema.json_eq_of_contents same ▸ lays_same _
  unnamed _ _ := rfl

end

/-- Where nothing is marked the document is written as it was. -/
theorem write_unmarked {left right : EdgeFormat} {change : Change} {fits : Held → Prop}
    {depth : Nat} {document after : Document}
    (agrees : left.AgreesAtRoot right change fits
      (graph.marks EdgeFormat.unmarked EdgeFormat.unmarked depth)
      (graph.marks EdgeFormat.unmarked EdgeFormat.unmarked depth))
    (orderly : document.Orderly fits) (changes : document.Changes change after) :
    (Format.document right).codec.write after = (Format.document left).codec.write document := by
  rw [marks_unmarked] at agrees
  obtain ⟨json, other, isJson, isOther, lays⟩ := Format.alike_document agrees orderly changes
  have silent : document.marks EdgeFormat.unmarked EdgeFormat.unmarked = [] := by
    simp [Document.marks, spread]
  rw [silent] at lays
  obtain rfl := EdgeFormat.eq_of_lays_unmarked lays
  exact isOther.trans isJson.symm

/-- More levels of writing than there are entities make no difference. -/
theorem Orderly.write_nested {document : Document}
    (orderly : graph.Orderly (Held.Fits graph) document) {level : Nat} (enough : graph.size ≤ level) :
    (Format.document (.nested graph graph (level + 1))).codec.write document =
      document.write graph :=
  write_unmarked (passes_none.agreesAtRoot orderly.entity (Nat.le_refl graph.size) enough)
    orderly.root (document.changes_refl Change.reflexive_none)

end Graph

/-- What the document is after it was written and read again: nothing in it is linked, and its tags
are treated as its other edges are. -/
def Document.Copied (graph : Graph) (document : Document) (outer : Change) (later : Graph)
    (after : Document) : Prop :=
  ∃ depth, document.Changes { graph.copies later outer depth with
    tag := (graph.copies later outer depth).edge .tags } after

/-- An orderly document has a written form.  If this is not nested too deep and holds only integers,
then it can be read, and what is read is a copy of the document with the same written form. -/
theorem Graph.Orderly.restored {graph : Graph} {document : Document}
    (orderly : graph.Orderly (Held.Fits graph) document) :
    ∃ json, document.write graph = .ok json ∧ (json.Legible nestingLimit →
      ∃ after later, Document.parse json.compact document.location {} = .ok (after, later) ∧
        document.Copied graph graph.unlinks later after ∧ after.write later = .ok json) := by
  obtain ⟨json, written, _⟩ := orderly.stands_document
  refine ⟨json, written, fun legible => ?_⟩
  have bare : Document.Orderly (Held.Fits graph graph.size) { document with location := none } :=
    { orderly.root with }
  have schemas : ∀ components ∈ document.components, ∀ entry ∈ components.schemas,
      Held.Fits graph graph.size (.schema entry.2) := by
    intro components found entry member
    cases (orderly.root.components components found).schemas.2 entry member with
    | namedSchema distinct => exact .schema distinct
  have tags : ∀ edge ∈ document.tags, Held.Fits graph graph.size (.edge .tags edge) := by
    intro edge member
    cases orderly.root.tags edge member with
    | openTag pointer => exact .placeholder .tags pointer
    | linkedTag pointer target => exact .linked .tags pointer target
    | heldTag found => exact .inline (lt_size_of_entity? found) found rfl
  obtain ⟨after, later, ran, _, copied⟩ :=
    Format.restores_document (restores_nested orderly.entity) rfl bare schemas tags json written
      (legible.mono (Nat.le_succ _)) {}
  have changes := copied later (le_refl later)
  have parsed := Document.parse_compact legible document.location ran
  have copied : document.Changes { graph.copies later graph.unlinks graph.size with
      tag := (graph.copies later graph.unlinks graph.size).edge .tags }
      { after with location := document.location } :=
    { changes with rest := by rw [changes.rest] }
  refine ⟨_, later, parsed, ⟨graph.size, copied⟩, ?_⟩
  have again := (Document.orderly_of_parse parsed).imp fun _ _ asRead => asRead.fits
  rw [← again.write_nested (Nat.le_max_right graph.size later.size), ← written]
  exact write_unmarked (passes_copies.agreesAtRoot orderly.entity (Nat.le_refl graph.size)
    (Nat.le_max_left graph.size later.size)) orderly.root copied

/-- References and the names of tags stay what they are, and so do the contents of schemas. -/
def Change.restates : Change where
  edge _ before after := ∃ reference, before = .placeholder reference ∧ after = .placeholder reference
  tag before after := ∃ reference, before = .placeholder reference ∧ after = .placeholder reference
  schema before after := after.contents = before.contents

section

/-! What is not linked stays as it is. -/

variable {graph later : Graph}

theorem Held.Unlinked.placeholder {category : Category} {edge : Edge} {reference : Reference}
    (unlinked : Unlinked (.edge category edge)) (refers : edge.reference? = some reference) :
    edge = .placeholder reference := by
  cases edge with
  | placeholder =>
      cases refers
      rfl
  | linked => exact absurd rfl (unlinked _ _)
  | inline => cases refers

theorem Graph.restates_schema {depth : Nat} {before after : Schema}
    (copied : (graph.copies later graph.unlinks depth).schema before after) :
    (graph.copies later .restates depth).schema before after := by
  rw [schema_copies] at copied ⊢
  exact copied

theorem Graph.restates_tag {depth : Nat} {before after : Edge} (named : before.NamesTag)
    (copied : (graph.copies later graph.unlinks depth).tag before after) :
    (graph.copies later .restates depth).tag before after := by
  rw [tag_copies] at copied ⊢
  obtain ⟨name, rfl⟩ := named
  obtain ⟨other, written, rfl⟩ := copied
  rw [Edge.writeTagName_of_reference rfl, Reference.identifier_toTag] at written
  cases written
  exact ⟨_, rfl, rfl⟩

theorem Graph.restates_edge {depth : Nat}
    (inside : ∀ id entity, graph.entity? id = some entity → entity.Orderly (Held.Inside graph id))
    {category : Category} {before after : Edge} (unlinked : Held.Unlinked (.edge category before))
    (copied : (graph.copies later graph.unlinks depth).edge category before after) :
    (graph.copies later .restates depth).edge category before after := by
  have outer : graph.unlinks.edge category before after →
      Change.restates.edge category before after := by
    rintro ⟨reference, refers, rfl⟩
    exact ⟨reference, unlinked.placeholder refers, rfl⟩
  induction depth generalizing category before after with
  | zero => exact outer copied
  | succ depth ih =>
      rcases copied with same | copies
      · exact .inl (outer same)
      · cases copies with
        | @inline id target entity other found isOther changes =>
            refine .inr (.inline found isOther (changes.imp fun held holds after allowed => ?_))
            have isInside := (inside id entity found).fits_of_holds holds
            cases allowed with
            | edge changes =>
                refine .edge (ih isInside.unlinked changes ?_)
                rintro ⟨reference, refers, rfl⟩
                exact ⟨reference, isInside.unlinked.placeholder refers, rfl⟩
            | tag changes => exact .tag (restates_tag (isInside.named _ rfl) changes)
            | schema changes => exact .schema (restates_schema changes)
            | namedSchema changes => exact .namedSchema (restates_schema changes)

/-- A copy of a document in which nothing is linked is as the document is, entity by entity. -/
theorem Document.Copied.restates {document after : Document} {text : String}
    {location : Option String} (parsed : parse text location {} = .ok (document, graph))
    (copied : document.Copied graph graph.unlinks later after) :
    document.Copied graph .restates later after := by
  obtain ⟨depth, changes⟩ := copied
  obtain ⟨root, inside⟩ := inside_of_parse parsed
  refine ⟨depth, changes.imp fun held holds after allowed => ?_⟩
  have asRead := root.fits_of_holds holds
  cases allowed with
  | edge changes => exact .edge (Graph.restates_edge inside asRead.unlinked changes)
  | tag changes => exact .tag (Graph.restates_edge inside asRead.unlinked changes)
  | schema changes => exact .schema (Graph.restates_schema changes)
  | namedSchema changes => exact .namedSchema (Graph.restates_schema changes)

end

end ApiLinker
