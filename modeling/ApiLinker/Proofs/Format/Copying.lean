import ApiLinker.Proofs.Format.Nested
import ApiLinker.Proofs.Format.Restoring

/-!
Objects restored.

Where one format of edges reads what another writes, an orderly object is read back from what was
written for it, with all that it holds.
-/

namespace ApiLinker

open Codec Record

/-- A graph is below those that it grows to. -/
instance : Preorder Graph where
  le := Graph.Grows
  le_refl := .refl
  le_trans _ _ _ := .trans

/-- One format of edges reads what the other writes, where nothing nests deeper than `depth`. -/
structure EdgeFormat.Restores (left right : EdgeFormat) (depth : Nat) (change : Graph → Change)
    (fits : Held → Prop) : Prop where
  edge : ∀ {category : Category} {before : Edge}, fits (.edge category before) →
    (left.edge category).Restores depth (right.edge category)
      (fun later => (change later).edge category) before
  tagName : ∀ {before : Edge}, fits (.tag before) →
    left.tagName.Restores depth right.tagName (fun later => (change later).tag) before
  /-- Requirements name their schemes, which are read as references again. -/
  scheme : ∀ {later : Graph} {before : Edge} {reference : Reference},
    before.reference? = some reference →
    (change later).edge .securitySchemes before (.placeholder reference)
  schema : ∀ {before : Schema}, fits (.schema before) →
    Format.schema.Restores depth Format.schema (fun later => (change later).schema) before
  /-- An edge is written as an object. -/
  present : ∀ {category : Category} {before : Edge}, fits (.edge category before) →
    ∀ json, (left.edge category).write before = .ok json → json ≠ .null

namespace Record

variable {ρ : Type}

theorem write_ne_null {σ : Type} {format : Record σ ρ} {value : ρ} {json : Json}
    (written : format.codec.write value = .ok json) : json ≠ .null := by
  obtain ⟨_, _, rfl⟩ := Outcome.map_eq_ok written
  nofun

end Record

namespace Format

variable {depth : Nat}

section

/-! Objects that hold nothing. -/

theorem restores_externalDocs (docs : ExternalDocs) :
    externalDocs.codec.Restores (depth + 1) externalDocs.codec kept docs :=
  Record.restores (by simp [externalDocs]) <|
    restores_given (restores_string _) fun _ => restores_optional_string rfl fun _ =>
    restores_nil fun _ description url => by
      subst description url
      rfl

theorem restores_tag (value : Tag) : tag.codec.Restores (depth + 1) tag.codec kept value := by
  have whole : tag.codec.Restores (depth + 2) tag.codec kept value :=
    Record.restores (by simp [tag]) <|
      restores_given (restores_string _) fun _ => restores_optional_string rfl fun _ =>
      restores_optional_kept (fun _ _ _ => Record.write_ne_null)
        (fun docs _ => restores_externalDocs docs) rfl fun _ =>
      restores_nil fun _ docs description name => by
        subst docs description name
        rfl
  exact whole.mono (Nat.le_succ _)

theorem restores_sample {value : Example} (orderly : ∀ json ∈ value.value, json.Kept) :
    sample.codec.Restores (depth + 1) sample.codec kept value :=
  Record.restores (by simp [sample]) <|
    restores_optional_string rfl fun _ => restores_optional_string rfl fun _ =>
    restores_optional_json orderly rfl fun _ => restores_optional_string rfl fun _ =>
    restores_nil fun _ external sample description summary => by
      subst external sample description summary
      rfl

theorem restores_link {value : Link} (orderly : value.Orderly) :
    link.codec.Restores (depth + 1) link.codec kept value := by
  have parameters : (Codec.table .json : Codec Graph (Table Json)).Restores depth (.table .json)
      (fun later => Table.Rel (kept later)) value.parameters :=
    (Codec.restores_table orderly.parameters.1 fun entry member =>
      restores_json (orderly.parameters.2 entry member)).mono (Nat.le_succ depth)
  refine Record.restores (by simp [link]) ?_
  exact restores_optional_string rfl fun _ => restores_optional_string rfl fun _ =>
    Record.restores_table parameters rfl fun _ =>
    restores_optional_json orderly.requestBody rfl fun _ => restores_optional_string rfl fun _ =>
    restores_nil fun _ description body parameters id ref => by
      obtain rfl := Table.Rel.eq parameters
      subst description body id ref
      rfl

theorem restores_securityScheme {value : SecurityScheme}
    (orderly : ∀ json ∈ value.flows, json.Kept) :
    securityScheme.codec.Restores (depth + 1) securityScheme.codec kept value :=
  Record.restores (by simp [securityScheme]) <|
    restores_given (restores_string _) fun _ => restores_optional_string rfl fun _ =>
    restores_optional_string rfl fun _ => restores_optional_string rfl fun _ =>
    restores_optional_string rfl fun _ => restores_optional_string rfl fun _ =>
    restores_optional_json orderly rfl fun _ => restores_optional_string rfl fun _ =>
    restores_nil fun _ url flows bearer scheme location name description kind => by
      subst url flows bearer scheme location name description kind
      rfl

theorem restores_parameterLocation (location : ParameterLocation) :
    (parameterLocation : Codec Graph ParameterLocation).Restores depth parameterLocation kept
      location :=
  restores_variant (by cases location <;> decide)

theorem restores_info (value : Info) : info.codec.Restores (depth + 1) info.codec kept value :=
  Record.restores (by simp [info]) <|
    restores_given (restores_string _) fun _ => restores_given (restores_string _) fun _ =>
    restores_optional_string rfl fun _ => restores_nil fun _ description version title => by
      subst description version title
      rfl

theorem restores_server (value : Server) :
    server.codec.Restores (depth + 1) server.codec kept value :=
  Record.restores (by simp [server]) <|
    restores_given (restores_string _) fun _ => restores_optional_string rfl fun _ =>
    restores_nil fun _ description url => by
      subst description url
      rfl

end

section

/-! Objects with edges and schemas. -/

variable {left right : EdgeFormat} {change : Graph → Change} {fits : Held → Prop}
variable (restores : left.Restores right depth change fits)
include restores

theorem restores_edges {category : Category} {before : Table Edge}
    (orderly : before.Orderly fun edge => fits (.edge category edge)) :
    (Codec.table (left.edge category)).Restores depth (.table (right.edge category))
      (fun later => Table.Rel ((change later).edge category)) before :=
  (Codec.restores_table orderly.1 fun entry member =>
    restores.edge (orderly.2 entry member)).mono (Nat.le_succ depth)

theorem restores_edgeList {category : Category} {before : List Edge}
    (orderly : ∀ edge ∈ before, fits (.edge category edge)) :
    (Codec.list (left.edge category)).Restores depth (.list (right.edge category))
      (fun later => List.Forall₂ ((change later).edge category)) before :=
  (Codec.restores_list fun edge member =>
    restores.edge (orderly edge member)).mono (Nat.le_succ depth)

omit restores in
theorem write_schema_ne_null {value : Schema} {json : Json}
    (written : schema.write value = .ok json) : json ≠ .null := by
  cases written
  obtain ⟨id, body⟩ := value
  rw [Schema.json, Schema.recurse]
  exact Json.noConfusion

theorem restores_mediaType {before : MediaType} (orderly : before.Orderly fits) :
    (mediaType left).codec.Restores (depth + 1) (mediaType right).codec
      (fun later => MediaType.Changes (change later)) before :=
  Record.restores (by simp [mediaType]) <|
    restores_optional (fun _ _ _ => write_schema_ne_null)
      (fun schema member => restores.schema (orderly.schema schema member)) rfl fun _ =>
    restores_optional_json orderly.sample rfl fun _ =>
    Record.restores_table (restores_edges restores orderly.examples) rfl fun _ =>
    restores_nil fun _ examples sample schema => {
      schema, examples
      rest := by
        subst sample
        rfl }

theorem restores_content {before : Table MediaType}
    (orderly : before.Orderly (MediaType.Orderly fits)) :
    (Codec.table (mediaType left).codec).Restores depth (.table (mediaType right).codec)
      (fun later => Table.Rel (MediaType.Changes (change later))) before :=
  (Codec.restores_table orderly.1 fun entry member =>
    (restores_mediaType restores (orderly.2 entry member)).mono (Nat.le_succ depth)).mono
      (Nat.le_succ depth)

theorem restores_header {before : Header} (orderly : before.Orderly fits) :
    (header left).codec.Restores (depth + 1) (header right).codec
      (fun later => Header.Changes (change later)) before :=
  Record.restores (by simp [header]) <|
    restores_optional_string rfl fun _ => restores_flag rfl fun _ => restores_flag rfl fun _ =>
    restores_optional (fun _ _ _ => write_schema_ne_null)
      (fun schema member => restores.schema (orderly.schema schema member)) rfl fun _ =>
    restores_optional_json orderly.sample rfl fun _ =>
    Record.restores_table (restores_edges restores orderly.examples) rfl fun _ =>
    restores_nil fun _ examples sample schema deprecated required description => {
      schema, examples
      rest := by
        subst sample deprecated required description
        rfl }

theorem restores_parameter {before : Parameter} (orderly : before.Orderly fits) :
    (parameter left).codec.Restores (depth + 1) (parameter right).codec
      (fun later => Parameter.Changes (change later)) before :=
  Record.restores (by simp [parameter]) <|
    restores_given (restores_string _) fun _ =>
    restores_given (restores_parameterLocation _) fun _ =>
    restores_optional_string rfl fun _ => restores_flag rfl fun _ => restores_flag rfl fun _ =>
    restores_optional (fun _ _ _ => write_schema_ne_null)
      (fun schema member => restores.schema (orderly.schema schema member)) rfl fun _ =>
    restores_optional_json orderly.sample rfl fun _ =>
    Record.restores_table (restores_edges restores orderly.examples) rfl fun _ =>
    Record.restores_table (restores_content restores orderly.content) rfl fun _ =>
    restores_nil fun _ content examples sample schema deprecated required description location
        name => {
      schema, examples, content
      rest := by
        subst sample deprecated required description location name
        rfl }

theorem restores_requestBody {before : RequestBody} (orderly : before.Orderly fits) :
    (requestBody left).codec.Restores (depth + 1) (requestBody right).codec
      (fun later => RequestBody.Changes (change later)) before :=
  Record.restores (by simp [requestBody]) <|
    restores_optional_string rfl fun _ =>
    restores_given (restores_content restores orderly.content) fun _ =>
    restores_flag rfl fun _ => restores_nil fun _ required content description => {
      content
      rest := by
        subst required description
        rfl }

theorem restores_response {before : Response} (orderly : before.Orderly fits) :
    (response left).codec.Restores (depth + 1) (response right).codec
      (fun later => Response.Changes (change later)) before :=
  Record.restores (by simp [response]) <|
    restores_given (restores_string _) fun _ =>
    Record.restores_table (restores_edges restores orderly.headers) rfl fun _ =>
    Record.restores_table (restores_content restores orderly.content) rfl fun _ =>
    Record.restores_table (restores_edges restores orderly.links) rfl fun _ =>
    restores_nil fun _ links content headers description => {
      headers, content, links
      rest := by
        subst description
        rfl }

theorem restores_callback {before : Callback} (orderly : before.Orderly fits) :
    (callback left).Restores (depth + 1) (callback right)
      (fun later => Callback.Changes (change later)) before := by
  intro json written legible
  have table := Codec.restores_table orderly.expressions.1 fun entry member =>
    restores.edge (orderly.expressions.2 entry member)
  exact (table json written legible).map fun _ _ expressions => ⟨expressions⟩

omit restores in
theorem write_scopes (scopes : List String) :
    (Codec.list .string : Codec Graph (List String)).write scopes =
      .ok (.array (scopes.map .string)) := by
  have written : scopes.mapM (Codec.string : Codec Graph String).write =
      .ok (scopes.map Json.string) := by
    induction scopes with
    | nil => rfl
    | cons scope scopes ih =>
        rw [List.mapM_cons, ih]
        rfl
  simp only [Codec.list, written]
  rfl

omit restores in
/-- A requirement is written as the table of its scopes. -/
theorem write_requirement {schemes : List (Edge × List String)} {names : List String}
    (named : List.Forall₂ (fun entry name =>
      entry.1.reference? = some (Reference.toComponent .securitySchemes name)) schemes names)
    {members : List (String × Json)} (written : schemes.mapM entryOfScheme = .ok members) :
    (Codec.table (.list .string) : Codec Graph (Table (List String))).write
      (names.zip (schemes.map Prod.snd)) = .ok (.object members) := by
  induction named generalizing members with
  | nil =>
      cases written
      rfl
  | @cons entry name schemes names refers _ ih =>
      rw [List.mapM_cons] at written
      obtain ⟨first, isFirst, written⟩ := Outcome.bind_eq_ok written
      obtain ⟨rest, areRest, same⟩ := Outcome.bind_eq_ok written
      cases same
      obtain ⟨others, areOthers, same⟩ := Outcome.map_eq_ok (ih areRest)
      cases same
      simp only [entryOfScheme, refers, Reference.identifier_toComponent] at isFirst
      cases isFirst
      simp only [write_scopes] at areOthers
      simp only [Codec.table, List.map_cons, List.zip_cons_cons, List.mapM_cons, write_scopes,
        areOthers]
      rfl

omit restores in
theorem names_zip {schemes : List (Edge × List String)} {names : List String}
    (named : List.Forall₂ (fun entry name =>
      entry.1.reference? = some (Reference.toComponent .securitySchemes name)) schemes names) :
    Table.names (names.zip (schemes.map Prod.snd)) = names := by
  rw [Table.names, List.map_fst_zip]
  simp [named.length_eq]

theorem changes_schemes {later : Graph} {schemes : List (Edge × List String)} {names : List String}
    (named : List.Forall₂ (fun entry name =>
      entry.1.reference? = some (Reference.toComponent .securitySchemes name)) schemes names)
    {entries : Table (List String)}
    (related : Table.Rel Eq (names.zip (schemes.map Prod.snd)) entries) :
    List.Forall₂ (fun before after => (change later).edge .securitySchemes before.1 after.1 ∧
      before.2 = after.2) schemes (entries.map schemeOfEntry) := by
  obtain rfl := related.eq
  induction named with
  | nil => exact .nil
  | @cons entry name schemes names refers _ ih =>
      simp only [List.map_cons, List.zip_cons_cons]
      exact .cons ⟨restores.scheme refers, rfl⟩ (ih (.refl (fun _ => rfl) _))

theorem restores_securityRequirement {before : SecurityRequirement} (orderly : before.Orderly fits) :
    (securityRequirement left).Restores (depth + 1) (securityRequirement right)
      (fun later => SecurityRequirement.Changes (change later)) before := by
  intro json written legible
  obtain ⟨names, distinct, same⟩ := orderly.names
  rw [← List.forall₂_eq_eq_eq, List.forall₂_map_left_iff, List.forall₂_map_right_iff] at same
  obtain ⟨members, areWritten, rfl⟩ := Outcome.map_eq_ok written
  have scopes : ∀ entry ∈ names.zip (before.schemes.map Prod.snd),
      (Codec.list .string : Codec Graph (List String)).Restores depth (.list .string)
        (fun later => List.Forall₂ (kept later)) entry.2 := fun _ _ =>
    (Codec.restores_list fun scope _ => restores_string scope).mono (Nat.le_succ depth)
  have table := Codec.restores_table ((names_zip same).symm ▸ distinct) scopes
  refine (table _ (write_requirement same areWritten) legible).bind fun entries => gives_pure ?_
  intro later related
  refine ⟨changes_schemes restores same (related.imp fun _ _ both => ⟨both.1, ?_⟩)⟩
  exact List.forall₂_eq_eq_eq ▸ both.2

theorem restores_security {before : List SecurityRequirement}
    (orderly : ∀ requirement ∈ before, requirement.Orderly fits) :
    (Codec.list (securityRequirement left)).Restores depth (.list (securityRequirement right))
      (fun later => List.Forall₂ (SecurityRequirement.Changes (change later))) before :=
  (Codec.restores_list fun requirement member =>
    (restores_securityRequirement restores (orderly requirement member)).mono
      (Nat.le_succ depth)).mono (Nat.le_succ depth)

theorem restores_tagNames {before : List Edge} (orderly : ∀ edge ∈ before, fits (.tag edge)) :
    (Codec.list left.tagName).Restores depth (.list right.tagName)
      (fun later => List.Forall₂ (change later).tag) before :=
  (Codec.restores_list fun edge member => restores.tagName (orderly edge member)).mono
    (Nat.le_succ depth)

theorem restores_operation {before : Operation} (orderly : before.Orderly fits) :
    (operation left).codec.Restores (depth + 1) (operation right).codec
      (fun later => Operation.Changes (change later)) before :=
  Record.restores (by simp [operation]) <|
    Record.restores_list
      (restores_tagNames restores orderly.tags) rfl fun _ =>
    restores_optional_string rfl fun _ => restores_optional_string rfl fun _ =>
    restores_optional_string rfl fun _ =>
    Record.restores_list (restores_edgeList restores orderly.parameters) rfl fun _ =>
    restores_optional (fun edge member => restores.present (orderly.requestBody edge member))
      (fun edge member => restores.edge (orderly.requestBody edge member)) rfl fun _ =>
    Record.restores_table (restores_edges restores orderly.responses) rfl fun _ =>
    Record.restores_table (restores_edges restores orderly.callbacks) rfl fun _ =>
    restores_flag rfl fun _ =>
    Record.restores_list (restores_security restores orderly.security) rfl fun _ =>
    restores_nil fun _ security deprecated callbacks responses requestBody parameters id description
        summary tags => {
      tags, parameters, requestBody, responses, callbacks, security
      rest := by
        subst deprecated id description summary
        rfl }

theorem restores_pathItem {before : PathItem} (orderly : before.Orderly fits) :
    (pathItem left).codec.Restores (depth + 1) (pathItem right).codec
      (fun later => PathItem.Changes (change later)) before := by
  have operation {value : Option Operation} (orderly : ∀ operation ∈ value, operation.Orderly fits) :
      ∀ operation ∈ value, (Format.operation left).codec.Restores depth
        (Format.operation right).codec (fun later => Operation.Changes (change later)) operation :=
    fun operation member =>
      (restores_operation restores (orderly operation member)).mono (Nat.le_succ depth)
  have present {value : Option Operation} : ∀ operation ∈ value, ∀ json,
      (Format.operation left).codec.write operation = .ok json → json ≠ .null :=
    fun _ _ _ => Record.write_ne_null
  refine Record.restores (by simp [pathItem]) ?_
  exact restores_optional_string rfl fun _ => restores_optional_string rfl fun _ =>
    restores_optional present (operation orderly.get) rfl fun _ =>
    restores_optional present (operation orderly.put) rfl fun _ =>
    restores_optional present (operation orderly.post) rfl fun _ =>
    restores_optional present (operation orderly.delete) rfl fun _ =>
    restores_optional present (operation orderly.options) rfl fun _ =>
    restores_optional present (operation orderly.head) rfl fun _ =>
    restores_optional present (operation orderly.patch) rfl fun _ =>
    restores_optional present (operation orderly.trace) rfl fun _ =>
    Record.restores_list (restores_edgeList restores orderly.parameters) rfl fun _ =>
    restores_nil fun _ parameters trace patch head options delete post put get description
        summary => {
      get, put, post, delete, options, head, patch, trace, parameters
      rest := by
        subst description summary
        rfl }

/-- An entity is restored as one of its category. -/
theorem restores_entity {before : Entity} (orderly : before.Orderly fits) {json : Json}
    (written : writeEntity left before = .ok json) (legible : Json.Legible (depth + 1) json) :
    Gives (readEntity right before.category json.node) fun later after =>
      before.Changes (change later) after := by
  cases before with
  | parameter =>
      exact (restores_parameter restores orderly json written legible).map fun _ _ => .parameter
  | requestBody =>
      exact (restores_requestBody restores orderly json written legible).map fun _ _ => .requestBody
  | response =>
      exact (restores_response restores orderly json written legible).map fun _ _ => .response
  | header => exact (restores_header restores orderly json written legible).map fun _ _ => .header
  | callback =>
      exact (restores_callback restores orderly json written legible).map fun _ _ => .callback
  | pathItem =>
      exact (restores_pathItem restores orderly json written legible).map fun _ _ => .pathItem
  | tag value =>
      exact (restores_tag value json written legible).map fun _ _ same => same ▸ .tag value
  | «example» value =>
      exact (restores_sample orderly json written legible).map fun _ _ same =>
        same ▸ .example value
  | link value =>
      exact (restores_link orderly json written legible).map fun _ _ same => same ▸ .link value
  | securityScheme value =>
      exact (restores_securityScheme orderly json written legible).map fun _ _ same =>
        same ▸ .securityScheme value

end

end Format

end ApiLinker
