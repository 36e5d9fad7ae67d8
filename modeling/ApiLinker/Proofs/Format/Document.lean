import ApiLinker.Format.Document
import ApiLinker.Proofs.Format.Entity
import ApiLinker.Proofs.Linking.WellFormed

/-!
Documents that are read are well-formed.
-/

namespace ApiLinker

namespace Format

open Rules

/-- Different names, and schemas made of nodes that their numbers stand for. -/
def SchemasIn (nodes : NodeTable) (schemas : Table Schema) : Prop :=
  schemas.names.Nodup ∧ ∀ entry ∈ schemas, entry.2.IsIn nodes

theorem SchemasIn.mono {nodes later : NodeTable} {schemas : Table Schema}
    (isIn : SchemasIn nodes schemas) (grows : nodes.Grows later) : SchemasIn later schemas :=
  ⟨isIn.1, fun entry member => (isIn.2 entry member).mono grows⟩

theorem schemasIn_nil (nodes : NodeTable) : SchemasIn nodes [] :=
  ⟨List.nodup_nil, nofun⟩

theorem reads_info {ω : Type} {rules : Rules ω Graph} : rules.Reads info.read fun _ _ => True := by
  refine reads_record stable_true ?_ fun _ => trivial
  simp only [info, List.forall_mem_cons]
  exact ⟨keeps_general reads_string fun _ _ _ _ => id,
    keeps_general reads_string fun _ _ _ _ => id,
    keeps_optional reads_string fun _ _ _ _ => id, nofun⟩

theorem reads_server {ω : Type} {rules : Rules ω Graph} : rules.Reads server.read fun _ _ => True := by
  refine reads_record stable_true ?_ fun _ => trivial
  simp only [server, List.forall_mem_cons]
  exact ⟨keeps_general reads_string fun _ _ _ _ => id,
    keeps_optional reads_string fun _ _ _ _ => id,
    nofun⟩

section

variable {edges : EdgeFormat} (sound : ReadsEdges edges)
include sound

theorem reads_components :
    reading.Reads (components edges).read fun nodes components =>
      SchemasIn nodes components.schemas := by
  have schemas := reads_readTable reads_schema fun _ _ _ grows isIn => isIn.mono grows
  have table := reads_edges sound
  refine reads_record (fun _ _ _ grows isIn => isIn.mono grows) ?_ schemasIn_nil
  simp only [components, List.forall_mem_cons]
  exact ⟨keeps_general schemas fun _ _ _ isIn _ => isIn,
    keeps_general (table .responses) fun _ _ _ _ => id,
    keeps_general (table .parameters) fun _ _ _ _ => id,
    keeps_general (table .examples) fun _ _ _ _ => id,
    keeps_general (table .requestBodies) fun _ _ _ _ => id,
    keeps_general (table .headers) fun _ _ _ _ => id,
    keeps_general (table .securitySchemes) fun _ _ _ _ => id,
    keeps_general (table .links) fun _ _ _ _ => id,
    keeps_general (table .callbacks) fun _ _ _ _ => id,
    keeps_general (table .pathItems) fun _ _ _ _ => id, nofun⟩

theorem reads_document :
    reading.Reads (document edges).read fun nodes document =>
      SchemasIn nodes document.namedObjects.schemas := by
  have table := reads_edges sound
  refine reads_record (fun _ _ _ grows isIn => isIn.mono grows) ?_ schemasIn_nil
  simp only [document, List.forall_mem_cons]
  refine ⟨keeps_general reads_string fun _ _ _ _ => id,
    keeps_general reads_info fun _ _ _ _ => id,
    keeps_general (reads_readList reads_server stable_true) fun _ _ _ _ => id,
    keeps_general (table .pathItems) fun _ _ _ _ => id,
    keeps_general (table .pathItems) fun _ _ _ _ => id,
    keeps_optional (reads_components sound) ?_,
    keeps_general (reads_readList reads_securityRequirement stable_true) fun _ _ _ _ => id,
    keeps_general (reads_readList (sound.edge .tags) stable_true) fun _ _ _ _ => id,
    keeps_optional reads_externalDocs fun _ _ _ _ => id, nofun⟩
  intro nodes components document isIn _
  cases components with
  | none => exact schemasIn_nil nodes
  | some components => exact isIn components rfl

end

end Format

theorem Json.Text.read_of_decode {read : Json.Node → Except Json.Fault α} {text : Json.Text}
    {value : α} (decoded : text.decode read = .ok value) : read text.root = .ok value := by
  rw [decode] at decoded
  cases ran : read text.root with
  | error => rw [ran] at decoded; cases decoded
  | ok result =>
      rw [ran] at decoded
      cases more : text.hasMore <;> rw [more] at decoded <;> cases decoded
      rfl

/-- A document that is read from a text is well-formed. -/
theorem Document.wellFormed_of_parse {text : String} {location : Option String} {graph : Graph}
    {document : Document} (parsed : parse text location {} = .ok (document, graph)) :
    graph.WellFormed document := by
  rw [parse] at parsed
  cases decoded : Format.parse (Format.document .reading).codec text {} with
  | error => rw [decoded] at parsed; cases parsed
  | ok result =>
      rw [decoded] at parsed
      cases parsed
      have read := Json.Text.read_of_decode decoded
      have sound := Format.readsEdges_nested {} {} EdgeFormat.readingDepth
      obtain ⟨nodes, _, ⟨bounded, isIn⟩, names, schemasIn⟩ :=
        Format.reads_document sound _ (fun _ => none) _ _ _
          ⟨fun _ _ => rfl, fun id entity found => by simp [Graph.entity?] at found⟩ read
      refine ⟨names, nodes, bounded, fun schema holds => ?_⟩
      obtain ⟨held, has, isSchema⟩ := holds
      cases has with
      | root holds =>
          obtain ⟨entry, member, rfl⟩ := mem_schemas_of_holds holds isSchema
          exact schemasIn entry member
      | inside found holds =>
          exact (isIn _ _ found).schema_of_holds holds isSchema

end ApiLinker
