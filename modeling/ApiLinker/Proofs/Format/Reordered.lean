import ApiLinker.Proofs.Format.Nested
import ApiLinker.Proofs.Linking.Reordered

/-!
Objects in another order, written.

Objects that are the same but for the order of their tables have the same written form but for the
order of members, wherever that is true of what they hold.
-/

namespace ApiLinker

open ListRel Outcome

variable {σ α ρ : Type}

namespace Outcome

variable {ε β γ δ : Type} {S : β → δ → Prop} {f : α → Except ε β} {g : γ → Except ε δ}

theorem mapM_forall₂ {before : List α} {after : List γ}
    (related : List.Forall₂ (fun left right => ∃ first second, f left = .ok first ∧
      g right = .ok second ∧ S first second) before after) :
    ∃ lefts rights, before.mapM f = .ok lefts ∧ after.mapM g = .ok rights ∧
      List.Forall₂ S lefts rights := by
  simp only [mapM_eq_ok_iff]
  induction related with
  | nil => exact ⟨[], [], .nil, .nil, .nil⟩
  | cons holds _ ih =>
      obtain ⟨first, second, isFirst, isSecond, same⟩ := holds
      obtain ⟨lefts, rights, areLeft, areRight, others⟩ := ih
      exact ⟨first :: lefts, second :: rights, .cons isFirst areLeft, .cons isSecond areRight,
        .cons same others⟩

theorem mapM_permuted {before : List α} {after : List γ}
    (permuted : Permuted (fun left right => ∃ first second, f left = .ok first ∧
      g right = .ok second ∧ S first second) before after) :
    ∃ lefts rights, before.mapM f = .ok lefts ∧ after.mapM g = .ok rights ∧
      Permuted S lefts rights := by
  obtain ⟨middle, perm, related⟩ := permuted
  obtain ⟨results, rights, areResults, areRight, same⟩ := mapM_forall₂ related
  obtain ⟨lefts, moved, areLeft⟩ := reorder (mapM_eq_ok_iff.mp areResults).flip perm.symm
  exact ⟨lefts, rights, mapM_eq_ok_iff.mpr areLeft.flip, areRight, results, moved.symm, same⟩

end Outcome

namespace Codec

/-- Both values have a written form, and these are the same but for the order of members. -/
def Reorders (left right : Codec σ α) (before after : α) : Prop :=
  ∃ leftJson rightJson, left.write before = .ok leftJson ∧ right.write after = .ok rightJson ∧
    leftJson.Reorders rightJson

variable {left right codec : Codec σ α}

theorem Total.reorders (total : codec.Total) {before after : α} (same : after = before) :
    codec.Reorders codec before after := by
  obtain ⟨json, written⟩ := total before
  subst same
  exact ⟨json, json, written, written, .same json⟩

theorem reorders_json {before after : Json} (reorders : before.Reorders after) :
    (json : Codec σ Json).Reorders json before after :=
  ⟨before, after, rfl, rfl, reorders⟩

theorem reorders_list {before after : List α}
    (related : List.Forall₂ (left.Reorders right) before after) :
    (list left).Reorders (list right) before after := by
  obtain ⟨lefts, rights, areLeft, areRight, same⟩ := mapM_forall₂ related
  refine ⟨.array lefts, .array rights, ?_, ?_, .array same⟩
  · simp only [list, areLeft]
    rfl
  · simp only [list, areRight]
    rfl

theorem reorders_table {before after : Table α}
    (related : Table.Reorders (left.Reorders right) before after) :
    (table left).Reorders (table right) before after := by
  have entries : Permuted (fun entry other => ∃ first second,
      (do return (entry.1, ← left.write entry.2)) = .ok first ∧
      (do return (other.1, ← right.write other.2)) = .ok second ∧ first.1 = second.1 ∧
      first.2.Reorders second.2) before after := by
    refine related.imp ?_
    rintro ⟨name, value⟩ ⟨_, other⟩ ⟨rfl, leftJson, rightJson, isLeft, isRight, same⟩
    refine ⟨(name, leftJson), (name, rightJson), ?_, ?_, rfl, same⟩
    · rw [isLeft]
      rfl
    · rw [isRight]
      rfl
  obtain ⟨lefts, rights, areLeft, areRight, same⟩ := mapM_permuted entries
  refine ⟨.object lefts, .object rights, ?_, ?_, .of_members same⟩
  · simp only [table, areLeft]
    rfl
  · simp only [table, areRight]
    rfl

end Codec

namespace Field

/-- Both fields are left out, or written the same but for the order of members. -/
def Reorders (left right : Field σ ρ) (before after : ρ) : Prop :=
  left.name = right.name ∧ ∃ leftJson rightJson, left.write before = .ok leftJson ∧
    right.write after = .ok rightJson ∧ Option.Rel Json.Reorders leftJson rightJson

variable {name : String} {isRequired : Bool} {before after : ρ}

theorem reorders_general {omitted : α → Bool} {left right : Codec σ α} {get : ρ → α}
    {set : α → ρ → ρ} (omits : omitted (get after) = omitted (get before))
    (reorders : left.Reorders right (get before) (get after)) :
    (general name isRequired omitted left get set).Reorders
      (general name isRequired omitted right get set) before after := by
  refine ⟨rfl, ?_⟩
  obtain ⟨leftJson, rightJson, isLeft, isRight, same⟩ := reorders
  cases isOmitted : omitted (get before) with
  | true =>
      exact ⟨none, none, by simp [general, isOmitted], by simp [general, omits, isOmitted], .none⟩
  | false =>
      exact ⟨some leftJson, some rightJson, by simp [general, isOmitted, isLeft],
        by simp [general, omits, isOmitted, isRight], .some same⟩

theorem reorders_kept {omitted : α → Bool} {codec : Codec σ α} {get : ρ → α} {set : α → ρ → ρ}
    (total : codec.Total) (same : get after = get before) :
    (general name isRequired omitted codec get set).Reorders
      (general name isRequired omitted codec get set) before after :=
  reorders_general (congrArg omitted same) (total.reorders same)

theorem reorders_optional {left right : Codec σ α} {get : ρ → Option α} {set : Option α → ρ → ρ}
    (related : Option.Rel (left.Reorders right) (get before) (get after)) :
    (optional name left get set).Reorders (optional name right get set) before after := by
  refine ⟨rfl, ?_⟩
  generalize isBefore : get before = value, isAfter : get after = other at related
  cases related with
  | none => exact ⟨none, none, by simp [optional, isBefore], by simp [optional, isAfter], .none⟩
  | some reorders =>
      obtain ⟨leftJson, rightJson, isLeft, isRight, same⟩ := reorders
      exact ⟨some leftJson, some rightJson, by simp [optional, isBefore, isLeft],
        by simp [optional, isAfter, isRight], .some same⟩

theorem reorders_optional_kept {codec : Codec σ α} {get : ρ → Option α} {set : Option α → ρ → ρ}
    (total : codec.Total) (same : get after = get before) :
    (optional name codec get set).Reorders (optional name codec get set) before after :=
  reorders_optional (same ▸ OptionRel.refl (fun _ => total.reorders rfl) _)

theorem reorders_sample {get : ρ → Option Json} {set : Option Json → ρ → ρ}
    (related : Option.Rel Json.Reorders (get before) (get after)) :
    (optional name (.json : Codec σ Json) get set).Reorders (optional name .json get set) before
      after :=
  reorders_optional (OptionRel.imp_of_mem related fun _ _ _ => Codec.reorders_json)

theorem reorders_list {left right : Codec σ α} {get : ρ → List α} {set : List α → ρ → ρ}
    (related : List.Forall₂ (left.Reorders right) (get before) (get after)) :
    (list name left get set).Reorders (list name right get set) before after :=
  reorders_general (ListRel.isEmpty_eq related) (Codec.reorders_list related)

theorem reorders_table {left right : Codec σ α} {get : ρ → Table α} {set : Table α → ρ → ρ}
    (related : Table.Reorders (left.Reorders right) (get before) (get after)) :
    (table name left get set).Reorders (table name right get set) before after :=
  reorders_general (ListRel.Permuted.isEmpty_eq related) (Codec.reorders_table related)

end Field

theorem Record.reorders {left right : Record σ ρ} {before after : ρ}
    (fields : List.Forall₂ (fun first second => first.Reorders second before after) left.fields
      right.fields) : left.codec.Reorders right.codec before after := by
  have members : ∃ lefts rights, writeFields before left.fields = .ok lefts ∧
      writeFields after right.fields = .ok rights ∧ Table.Reorders Json.Reorders lefts rights := by
    generalize left.fields = lefts, right.fields = rights at fields
    induction fields with
    | nil => exact ⟨[], [], rfl, rfl, permuted_nil⟩
    | @cons field other _ _ holds _ ih =>
        obtain ⟨name, leftJson, rightJson, isLeft, isRight, same⟩ := holds
        obtain ⟨lefts, rights, areLeft, areRight, others⟩ := ih
        cases same with
        | none =>
            refine ⟨lefts, rights, ?_, ?_, others⟩
            · rw [writeFields, isLeft, areLeft]
              rfl
            · rw [writeFields, isRight, areRight]
              rfl
        | @some leftJson rightJson same =>
            refine ⟨(field.name, leftJson) :: lefts, (other.name, rightJson) :: rights, ?_, ?_,
              .cons ⟨name, same⟩ others⟩
            · rw [writeFields, isLeft, areLeft]
              rfl
            · rw [writeFields, isRight, areRight]
              rfl
  obtain ⟨lefts, rights, areLeft, areRight, same⟩ := members
  refine ⟨.object lefts, .object rights, ?_, ?_, .of_members same⟩
  · simp only [codec, areLeft]
    rfl
  · simp only [codec, areRight]
    rfl

/-- What two formats of edges agree on: all that is held is written the same but for the order of
members. -/
structure EdgeFormat.Reorders (left right : EdgeFormat) (change : Change) (fits : Held → Prop) :
    Prop where
  edge : ∀ {category : Category} {before after : Edge}, fits (.edge category before) →
    change.edge category before after →
    (left.edge category).Reorders (right.edge category) before after
  tagName : ∀ {before after : Edge}, fits (.tag before) → change.tag before after →
    left.tagName.Reorders right.tagName before after
  /-- The tags of a document are written as objects. -/
  tag : ∀ {before after : Edge}, fits (.tag before) → change.tag before after →
    (left.edge .tags).Reorders (right.edge .tags) before after
  scheme : ∀ {before after : Edge} {reference : Reference},
    change.edge .securitySchemes before after → before.reference? = some reference →
    after.reference? = some reference
  schema : ∀ {before after : Schema}, change.schema before after → before.json.Reorders after.json

section

open Codec ApiLinker.Field

namespace Format

variable {left right : EdgeFormat} {change : Change} {fits : Held → Prop}

theorem reorders_sample {before after : Example} (reorders : before.Reorders after) :
    sample.codec.Reorders sample.codec before after :=
  Record.reorders (.cons (reorders_optional_kept total_string (by rw [reorders.rest]))
    (.cons (reorders_optional_kept total_string (by rw [reorders.rest]))
    (.cons (Field.reorders_sample reorders.value)
    (.cons (reorders_optional_kept total_string (by rw [reorders.rest])) .nil))))

theorem reorders_link {before after : Link} (reorders : before.Reorders after) :
    link.codec.Reorders link.codec before after :=
  have parameters := reorders.parameters.imp_of_mem fun _ _ _ => reorders_json (σ := Graph)
  Record.reorders (.cons (reorders_optional_kept total_string (by rw [reorders.rest]))
    (.cons (reorders_optional_kept total_string (by rw [reorders.rest]))
    (.cons (Field.reorders_table parameters)
    (.cons (Field.reorders_sample reorders.requestBody)
    (.cons (reorders_optional_kept total_string (by rw [reorders.rest])) .nil)))))

theorem reorders_securityScheme {before after : SecurityScheme} (reorders : before.Reorders after) :
    securityScheme.codec.Reorders securityScheme.codec before after :=
  Record.reorders (.cons (reorders_kept total_string (by rw [reorders.rest]))
    (.cons (reorders_optional_kept total_string (by rw [reorders.rest]))
    (.cons (reorders_optional_kept total_string (by rw [reorders.rest]))
    (.cons (reorders_optional_kept total_string (by rw [reorders.rest]))
    (.cons (reorders_optional_kept total_string (by rw [reorders.rest]))
    (.cons (reorders_optional_kept total_string (by rw [reorders.rest]))
    (.cons (Field.reorders_sample reorders.flows)
    (.cons (reorders_optional_kept total_string (by rw [reorders.rest])) .nil))))))))

variable (agrees : left.Reorders right change fits)
include agrees

theorem reorders_schema {before after : Option Schema}
    (related : Option.Rel change.schema before after) :
    Option.Rel (schema.Reorders schema) before after :=
  OptionRel.imp_of_mem related fun _ _ _ changes => ⟨_, _, rfl, rfl, agrees.schema changes⟩

theorem reorders_edges {category : Category} {before after : Table Edge}
    (orderly : before.Orderly fun edge => fits (.edge category edge))
    (related : Table.Reorders (change.edge category) before after) :
    Table.Reorders ((left.edge category).Reorders (right.edge category)) before after :=
  related.imp_of_mem fun entry member _ changes => agrees.edge (orderly.2 entry member) changes

theorem reorders_edgeList {category : Category} {before after : List Edge}
    (orderly : ∀ edge ∈ before, fits (.edge category edge))
    (related : List.Forall₂ (change.edge category) before after) :
    List.Forall₂ ((left.edge category).Reorders (right.edge category)) before after :=
  ListRel.imp_of_mem related fun edge member _ changes => agrees.edge (orderly edge member) changes

theorem reorders_mediaType {before after : MediaType} (orderly : before.Orderly fits)
    (reorders : before.Reorders change after) :
    (mediaType left).codec.Reorders (mediaType right).codec before after :=
  Record.reorders (.cons (reorders_optional (reorders_schema agrees reorders.schema))
    (.cons (Field.reorders_sample reorders.sample)
    (.cons (Field.reorders_table (reorders_edges agrees orderly.examples reorders.examples))
      .nil)))

theorem reorders_content {before after : Table MediaType}
    (orderly : before.Orderly (MediaType.Orderly fits))
    (related : Table.Reorders (MediaType.Reorders change) before after) :
    Table.Reorders ((mediaType left).codec.Reorders (mediaType right).codec) before after :=
  related.imp_of_mem fun entry member _ reorders =>
    reorders_mediaType agrees (orderly.2 entry member) reorders

theorem reorders_header {before after : Header} (orderly : before.Orderly fits)
    (reorders : before.Reorders change after) :
    (header left).codec.Reorders (header right).codec before after :=
  Record.reorders (.cons (reorders_optional_kept total_string (by rw [reorders.rest]))
    (.cons (reorders_kept total_bool (by rw [reorders.rest]))
    (.cons (reorders_kept total_bool (by rw [reorders.rest]))
    (.cons (reorders_optional (reorders_schema agrees reorders.schema))
    (.cons (Field.reorders_sample reorders.sample)
    (.cons (Field.reorders_table (reorders_edges agrees orderly.examples reorders.examples))
      .nil))))))

theorem reorders_parameter {before after : Parameter} (orderly : before.Orderly fits)
    (reorders : before.Reorders change after) :
    (parameter left).codec.Reorders (parameter right).codec before after :=
  have location : after.location = before.location := by rw [reorders.rest]
  Record.reorders (.cons (reorders_kept total_string (by rw [reorders.rest]))
    (.cons (reorders_kept total_parameterLocation location)
    (.cons (reorders_optional_kept total_string (by rw [reorders.rest]))
    (.cons (reorders_kept total_bool (by rw [reorders.rest]))
    (.cons (reorders_kept total_bool (by rw [reorders.rest]))
    (.cons (reorders_optional (reorders_schema agrees reorders.schema))
    (.cons (Field.reorders_sample reorders.sample)
    (.cons (Field.reorders_table (reorders_edges agrees orderly.examples reorders.examples))
    (.cons (Field.reorders_table (reorders_content agrees orderly.content reorders.content))
      .nil)))))))))

theorem reorders_requestBody {before after : RequestBody} (orderly : before.Orderly fits)
    (reorders : before.Reorders change after) :
    (requestBody left).codec.Reorders (requestBody right).codec before after :=
  have content := Codec.reorders_table (reorders_content agrees orderly.content reorders.content)
  Record.reorders (.cons (reorders_optional_kept total_string (by rw [reorders.rest]))
    (.cons (reorders_general rfl content)
    (.cons (reorders_kept total_bool (by rw [reorders.rest])) .nil)))

theorem reorders_response {before after : Response} (orderly : before.Orderly fits)
    (reorders : before.Reorders change after) :
    (response left).codec.Reorders (response right).codec before after :=
  Record.reorders (.cons (reorders_kept total_string reorders.description.symm)
    (.cons (Field.reorders_table (reorders_edges agrees orderly.headers reorders.headers))
    (.cons (Field.reorders_table (reorders_content agrees orderly.content reorders.content))
    (.cons (Field.reorders_table (reorders_edges agrees orderly.links reorders.links))
      .nil))))

theorem reorders_securityRequirement {before after : SecurityRequirement}
    (orderly : before.Orderly fits) (reorders : before.Reorders change after) :
    (securityRequirement left).Reorders (securityRequirement right) before after := by
  obtain ⟨names, _, same⟩ := orderly.names
  have entries : Permuted (fun scheme other => ∃ first second, entryOfScheme scheme = .ok first ∧
      entryOfScheme other = .ok second ∧ first.1 = second.1 ∧ first.2.Reorders second.2)
      before.schemes after.schemes := by
    refine reorders.schemes.imp_of_mem ?_
    rintro ⟨edge, scopes⟩ member ⟨other, _⟩ ⟨changes, rfl⟩
    have listed : edge.reference? ∈ names.map fun name =>
        some (Reference.toComponent .securitySchemes name) :=
      same ▸ List.mem_map_of_mem member
    obtain ⟨name, _, isName⟩ := List.mem_map.mp listed
    have refers := isName.symm
    have refersToo := agrees.scheme changes refers
    let entry := ((Reference.toComponent .securitySchemes name).identifier,
      Json.array (scopes.map .string))
    exact ⟨entry, entry, by simp only [entryOfScheme, refers, entry],
      by simp only [entryOfScheme, refersToo, entry], rfl, .same _⟩
  obtain ⟨lefts, rights, areLeft, areRight, members⟩ := mapM_permuted entries
  refine ⟨.object lefts, .object rights, ?_, ?_, .of_members members⟩
  · simp only [securityRequirement, areLeft]
    rfl
  · simp only [securityRequirement, areRight]
    rfl

theorem reorders_security {before after : List SecurityRequirement}
    (orderly : ∀ requirement ∈ before, requirement.Orderly fits)
    (related : List.Forall₂ (SecurityRequirement.Reorders change) before after) :
    List.Forall₂ ((securityRequirement left).Reorders (securityRequirement right)) before after :=
  ListRel.imp_of_mem related fun requirement member _ reorders =>
    reorders_securityRequirement agrees (orderly requirement member) reorders

theorem reorders_operation {before after : Operation} (orderly : before.Orderly fits)
    (reorders : before.Reorders change after) :
    (operation left).codec.Reorders (operation right).codec before after :=
  have tags := ListRel.imp_of_mem reorders.tags fun edge member _ tag =>
    agrees.tagName (orderly.tags edge member) tag
  have body := OptionRel.imp_of_mem reorders.requestBody fun edge member _ body =>
    agrees.edge (orderly.requestBody edge member) body
  have parameters := reorders_edgeList agrees orderly.parameters reorders.parameters
  Record.reorders (.cons (Field.reorders_list tags)
    (.cons (reorders_optional_kept total_string (by rw [reorders.rest]))
    (.cons (reorders_optional_kept total_string (by rw [reorders.rest]))
    (.cons (reorders_optional_kept total_string (by rw [reorders.rest]))
    (.cons (Field.reorders_list parameters)
    (.cons (reorders_optional body)
    (.cons (Field.reorders_table (reorders_edges agrees orderly.responses reorders.responses))
    (.cons (Field.reorders_table (reorders_edges agrees orderly.callbacks reorders.callbacks))
    (.cons (reorders_kept total_bool (by rw [reorders.rest]))
    (.cons (Field.reorders_list (reorders_security agrees orderly.security reorders.security))
      .nil))))))))))

theorem reorders_pathItem {before after : PathItem} (orderly : before.Orderly fits)
    (reorders : before.Reorders change after) :
    (pathItem left).codec.Reorders (pathItem right).codec before after := by
  have operation : ∀ {before after : Option Operation},
      (∀ operation ∈ before, operation.Orderly fits) →
      Option.Rel (Operation.Reorders change) before after →
      Option.Rel ((operation left).codec.Reorders (Format.operation right).codec) before after :=
    fun orderly related => OptionRel.imp_of_mem related fun operation member _ reorders =>
      reorders_operation agrees (orderly operation member) reorders
  have summary : after.summary = before.summary := by rw [reorders.rest]
  have description : after.description = before.description := by rw [reorders.rest]
  have parameters := reorders_edgeList agrees orderly.parameters reorders.parameters
  exact Record.reorders (.cons (reorders_optional_kept total_string summary)
    (.cons (reorders_optional_kept total_string description)
    (.cons (reorders_optional (operation orderly.get reorders.get))
    (.cons (reorders_optional (operation orderly.put reorders.put))
    (.cons (reorders_optional (operation orderly.post reorders.post))
    (.cons (reorders_optional (operation orderly.delete reorders.delete))
    (.cons (reorders_optional (operation orderly.options reorders.options))
    (.cons (reorders_optional (operation orderly.head reorders.head))
    (.cons (reorders_optional (operation orderly.patch reorders.patch))
    (.cons (reorders_optional (operation orderly.trace reorders.trace))
    (.cons (Field.reorders_list parameters)
      .nil)))))))))))

theorem reorders_entity {before after : Entity} (orderly : before.Orderly fits)
    (reorders : before.Reorders change after) :
    ∃ leftJson rightJson, writeEntity left before = .ok leftJson ∧
      writeEntity right after = .ok rightJson ∧ leftJson.Reorders rightJson := by
  cases reorders with
  | parameter reorders => exact reorders_parameter agrees orderly reorders
  | requestBody reorders => exact reorders_requestBody agrees orderly reorders
  | response reorders => exact reorders_response agrees orderly reorders
  | header reorders => exact reorders_header agrees orderly reorders
  | callback reorders =>
      exact Codec.reorders_table
        (reorders_edges agrees orderly.expressions reorders.expressions)
  | pathItem reorders => exact reorders_pathItem agrees orderly reorders
  | tag value => exact total_tag.reorders rfl
  | «example» reorders => exact reorders_sample reorders
  | link reorders => exact reorders_link reorders
  | securityScheme reorders => exact reorders_securityScheme reorders

theorem reorders_components {before after : Components} (orderly : before.Orderly fits)
    (reorders : before.Reorders change after) :
    (components left).codec.Reorders (components right).codec before after := by
  have schemas : Table.Reorders (schema.Reorders schema) before.schemas after.schemas :=
    reorders.schemas.imp_of_mem fun _ _ _ changes => ⟨_, _, rfl, rfl, agrees.schema changes⟩
  have table {category : Category} {before after : Table Edge}
      (orderly : before.Orderly fun edge => fits (.edge category edge))
      (related : Table.Reorders (change.edge category) before after) :=
    reorders_edges agrees orderly related
  exact Record.reorders (.cons (Field.reorders_table schemas)
    (.cons (Field.reorders_table (table orderly.responses reorders.responses))
    (.cons (Field.reorders_table (table orderly.parameters reorders.parameters))
    (.cons (Field.reorders_table (table orderly.examples reorders.examples))
    (.cons (Field.reorders_table (table orderly.requestBodies reorders.requestBodies))
    (.cons (Field.reorders_table (table orderly.headers reorders.headers))
    (.cons (Field.reorders_table (table orderly.securitySchemes reorders.securitySchemes))
    (.cons (Field.reorders_table (table orderly.links reorders.links))
    (.cons (Field.reorders_table (table orderly.callbacks reorders.callbacks))
    (.cons (Field.reorders_table (table orderly.pathItems reorders.pathItems)) .nil))))))))))

theorem reorders_document {before after : Document} (orderly : before.Orderly fits)
    (reorders : before.Reorders change after) :
    (document left).codec.Reorders (document right).codec before after := by
  have components := OptionRel.imp_of_mem reorders.components fun components member _ reorders =>
    reorders_components agrees (orderly.components components member) reorders
  have tags := ListRel.imp_of_mem reorders.tags fun edge member _ tag =>
    agrees.tag (orderly.tags edge member) tag
  have openapi : after.openapi = before.openapi := by rw [reorders.rest]
  have isInfo : after.info = before.info := by rw [reorders.rest]
  have servers : after.servers = before.servers := by rw [reorders.rest]
  have docs : after.externalDocs = before.externalDocs := by rw [reorders.rest]
  exact Record.reorders (.cons (reorders_kept total_string openapi)
    (.cons (reorders_kept total_info isInfo)
    (.cons (reorders_kept total_server.list servers)
    (.cons (Field.reorders_table (reorders_edges agrees orderly.paths reorders.paths))
    (.cons (Field.reorders_table (reorders_edges agrees orderly.webhooks reorders.webhooks))
    (.cons (reorders_optional components)
    (.cons (Field.reorders_list (reorders_security agrees orderly.security reorders.security))
    (.cons (Field.reorders_list tags)
    (.cons (reorders_optional_kept total_externalDocs docs) .nil)))))))))

end Format

end

end ApiLinker
