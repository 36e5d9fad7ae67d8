import ApiLinker.Proofs.Format.Restored
import ApiLinker.Proofs.Schema.Exact
import ApiLinker.Proofs.Schema.Same

/-!
Schemas built in steps.

A keyword can be given any name, that of a member with a place of its own as well.  A built schema
is read from its own text as an equal one if and only if it has no such keyword, in no node
(`Schema.built_restored_iff`); then its text repeats no name.
-/

namespace ApiLinker

open Json

/-- No object of the text has a name twice. -/
structure Json.Text.Unrepeated (text : Text) : Prop where
  root : text.root.Unrepeated

/-- Bodies made from a blank one, a pointer or a type by setting keywords, properties and items.  The
schemas inside are made in the same way. -/
inductive SchemaBody.Built : SchemaBody Schema → Prop where
  | blank : Built {}
  | pointer (target : String) : Built (.pointer target)
  | typed (name : String) : Built (.typed name)
  | withKeyword {body : SchemaBody Schema} (built : Built body) (name : String) {value : Json}
      (distinct : value.Distinct) : Built (body.withKeyword name value)
  | withProperty {body inner : SchemaBody Schema} (built : Built body) (name : String) (id : Nat)
      (inside : Built inner) : Built (body.withProperty name (.node id inner))
  | withItems {body inner : SchemaBody Schema} (built : Built body) (id : Nat)
      (inside : Built inner) : Built (body.withItems (.node id inner))

namespace Schema

open SchemaBody

/-- In no node a keyword has the name of a member with a place of its own. -/
def Apart (schema : Schema) : Prop :=
  ∀ inner ∈ schema.nodes, ∀ name ∈ inner.body.keywords.names, name ∉ structural

variable {id : Nat} {body : SchemaBody Schema}

theorem apart_node : Apart (.node id body) ↔
    (∀ name ∈ body.keywords.names, name ∉ structural) ∧
      ∀ child ∈ body.children.list, child.Apart := by
  constructor
  · exact fun apart => ⟨apart _ (self_mem_nodes _), fun child member inner inside =>
      apart inner (mem_nodes_node.mpr (.inr ⟨child, member, inside⟩))⟩
  · rintro ⟨here, below⟩ inner member
    rcases mem_nodes_node.mp member with rfl | ⟨child, isChild, inside⟩
    · exact here
    · exact below child isChild inner inside

/-- What equals a schema has its keywords, node by node. -/
theorem apart_of_same {before after : Schema} (equal : before.same after = true)
    (distinct : after.Distinct) : before.Apart := by
  induction before using induct generalizing after with
  | node id body ih =>
      cases distinct with
      | @node otherId other _ keywords children =>
          rw [same_node, Schema.body] at equal
          refine apart_node.mpr ⟨fun name named => ?_, fun child member => ?_⟩
          · obtain ⟨⟨_, value⟩, member, rfl⟩ := List.mem_map.mp named
            simp only [sameBody, Bool.and_eq_true] at equal
            obtain ⟨_, found, _⟩ := Table.exists_of_same equal.2 member
            exact (keywords.2 _ found).1
          · obtain ⟨result, isChild, holds⟩ := exists_of_sameBody equal member
            exact ih child member holds (children result isChild)

section

/-! What is written. -/

theorem mem_declaredParts {entry : String × Json} (member : entry ∈
    (declaredParts body).flatMap fun (name, part) => part.toList.map (name, ·)) :
    ∃ part ∈ declaredParts body, part.1 = entry.1 ∧ part.2 = some entry.2 := by
  obtain ⟨⟨name, part⟩, isPart, inside⟩ := List.mem_flatMap.mp member
  obtain ⟨value, present, rfl⟩ := List.mem_map.mp inside
  exact ⟨(name, part), isPart, rfl, Option.mem_toList.mp present⟩

theorem nodup_declaredParts (body : SchemaBody Schema) : (((declaredParts body).flatMap
    fun (name, part) => part.toList.map (name, ·)).map Prod.fst).Nodup := by
  have names : ((declaredParts body).map Prod.fst).Nodup :=
    show Role.declared.Nodup by decide
  refine names.sublist ?_
  clear names
  induction declaredParts body with
  | nil => exact .slnil
  | cons part parts ih =>
      obtain ⟨name, part⟩ := part
      cases part with
      | none => exact ih.cons name
      | some value => exact ih.cons_cons name

/-- Keywords with names of their own leave no name to stand twice. -/
theorem nodup_members (keywords : (Table.names body.keywords).Nodup)
    (apart : ∀ name ∈ body.keywords.names, name ∉ structural) :
    (Table.names (body.members json)).Nodup := by
  rw [members_eq_declaredParts, Table.names, List.map_append, List.nodup_append]
  refine ⟨nodup_declaredParts body, keywords, fun name declared other kept same => ?_⟩
  obtain ⟨entry, member, rfl⟩ := List.mem_map.mp declared
  obtain ⟨part, isPart, named, _⟩ := mem_declaredParts member
  exact apart other kept (same ▸ mem_structural.mpr (named ▸ of_ne_keyword isPart))

theorem distinct_list {schemas : List Schema} (each : ∀ schema ∈ schemas, schema.json.Distinct)
    {value : Json} (written : listJson? schemas = some value) : value.Distinct := by
  cases schemas with
  | nil => cases written
  | cons first rest =>
      cases written
      exact .array (List.forall_mem_map.mpr each)

theorem distinct_table {schemas : Table Schema} (names : schemas.names.Nodup)
    (each : ∀ entry ∈ schemas, entry.2.json.Distinct) {value : Json}
    (written : tableJson? schemas = some value) : value.Distinct := by
  cases schemas with
  | nil => cases written
  | cons first rest =>
      cases written
      exact .object (by simpa [Table.names, Function.comp_def] using names)
        (List.forall_mem_map.mpr each)

theorem Distinct.json {schema : Schema} (distinct : schema.Distinct) : schema.json.Distinct := by
  induction distinct with
  | @node id body properties keywords _ ih =>
      simp only [Subschemas.list_eq, SchemaBody.children, List.mem_append, List.mem_map,
        Option.mem_toList, or_imp, forall_and, forall_exists_index, and_imp] at ih
      obtain ⟨⟨⟨⟨⟨⟨items, not⟩, additional⟩, allOf⟩, anyOf⟩, oneOf⟩, inside⟩ := ih
      have parts : ∀ part ∈ declaredParts body, ∀ value, part.2 = some value → value.Distinct := by
        simp only [declaredParts, List.forall_mem_cons, Option.map_eq_some_iff]
        refine ⟨?_, ?_, fun _ => distinct_list allOf, fun _ => distinct_list anyOf,
          fun _ => distinct_list oneOf, ?_, fun _ => distinct_table properties ?_, ?_, by simp⟩
        · rintro _ ⟨pointer, _, rfl⟩
          exact .string pointer
        · rintro _ ⟨child, isChild, rfl⟩
          exact items child isChild
        · rintro _ ⟨child, isChild, rfl⟩
          exact not child isChild
        · exact fun entry member => inside entry.2 entry member rfl
        · intro value written
          cases whole : body.additional with
          | unspecified => rw [whole] at written; cases written
          | allowed allowed => rw [whole] at written; cases written; exact .bool allowed
          | schema child =>
              rw [whole] at written
              cases written
              exact additional child (by rw [whole]; rfl)
      rw [json_node]
      refine .object (nodup_members keywords.1 fun name named => ?_) ?_
      · obtain ⟨entry, member, rfl⟩ := List.mem_map.mp named
        exact (keywords.2 entry member).1
      · rw [members_eq_declaredParts]
        refine List.forall_mem_append.mpr ⟨fun entry member => ?_, fun entry member =>
          (keywords.2 entry member).2⟩
        obtain ⟨part, isPart, _, written⟩ := mem_declaredParts member
        exact parts part isPart entry.2 written

end

section

/-! What is built. -/

/-- In every node the properties and the keywords have different names. -/
inductive Tabled : Schema → Prop where
  | node {id : Nat} {body : SchemaBody Schema} (properties : (Table.names body.properties).Nodup)
      (keywords : body.keywords.names.Nodup) (values : ∀ entry ∈ body.keywords, entry.2.Distinct)
      (children : ∀ child ∈ body.children.list, Tabled child) : Tabled (.node id body)

theorem Tabled.distinct {schema : Schema} (tabled : schema.Tabled) (apart : schema.Apart) :
    schema.Distinct := by
  induction tabled with
  | node properties keywords values _ ih =>
      obtain ⟨here, below⟩ := apart_node.mp apart
      exact .node properties ⟨keywords, fun entry member =>
        ⟨here entry.1 (List.mem_map_of_mem member), values entry member⟩⟩
        fun child member => ih child member (below child member)

theorem mem_children_withProperty {name : String} {schema child : Schema}
    (member : child ∈ (body.withProperty name schema).children.list) :
    child = schema ∨ child ∈ body.children.list := by
  simp only [Subschemas.list_eq, withProperty, SchemaBody.children, List.mem_append,
    List.mem_map] at member ⊢
  rcases member with other | ⟨entry, inserted, rfl⟩
  · exact .inr (.inl other)
  · rcases Table.mem_of_mem_insert inserted with rfl | old
    · exact .inl rfl
    · exact .inr (.inr ⟨entry, old, rfl⟩)

theorem mem_children_withItems {schema child : Schema}
    (member : child ∈ (body.withItems schema).children.list) :
    child = schema ∨ child ∈ body.children.list := by
  simp only [Subschemas.list_eq, withItems, SchemaBody.children, Option.toList_some,
    List.append_assoc, List.singleton_append] at member ⊢
  exact (List.mem_cons.mp member).imp_right (List.mem_append_right _)

/-- A step puts a schema in the place of an older one, or beside it. -/
theorem tabled_of_built (built : body.Built) (id : Nat) : Tabled (.node id body) := by
  induction built generalizing id with
  | blank | pointer => exact .node List.nodup_nil List.nodup_nil nofun nofun
  | typed name =>
      exact .node List.nodup_nil (List.nodup_singleton _)
        (List.forall_mem_singleton.mpr (.string name)) nofun
  | withKeyword _ name distinct ih =>
      cases ih id with
      | node properties keywords values children =>
          refine .node properties (Table.nodup_insert keywords name _) (fun entry member => ?_) children
          rcases Table.mem_of_mem_insert member with rfl | old
          · exact distinct
          · exact values entry old
  | withProperty _ name inner _ ih inside =>
      cases ih id with
      | node properties keywords values children =>
          refine .node (Table.nodup_insert properties name _) keywords values fun child member => ?_
          rcases mem_children_withProperty member with rfl | old
          · exact inside inner
          · exact children child old
  | withItems _ inner _ ih inside =>
      cases ih id with
      | node properties keywords values children =>
          refine .node properties keywords values fun child member => ?_
          rcases mem_children_withItems member with rfl | old
          · exact inside inner
          · exact children child old

end

section

/-! What is read back. -/

variable {schema : Schema}

theorem parse_restores (distinct : schema.Distinct) (legible : schema.json.Legible nestingLimit)
    (graph : Graph) : ∃ after last,
      Format.parse Format.schema schema.json.compact graph = .ok (after, last) ∧
        after.contents = schema.contents := by
  obtain ⟨after, last, read, _, equal⟩ := gives_schema distinct _ rfl legible graph
  exact ⟨after, last, (decode_compact legible fun node => Format.schema.read node graph).trans read,
    equal last (le_refl last)⟩

theorem distinct_of_parse {text : String} {graph last : Graph} {after : Schema}
    (read : Format.parse Format.schema text graph = .ok (after, last)) : after.Distinct := by
  obtain ⟨⟨schema, count⟩, isRead, same⟩ := Outcome.bind_eq_ok (Text.read_of_decode read)
  cases same
  obtain ⟨_, _, _, distinct⟩ :=
    decodes_read_distinct _ (fun _ => none) _ _ _ (fun _ _ => rfl) isRead
  exact distinct

theorem isReference_eq_of_contents {before after : Schema}
    (equal : after.contents = before.contents) :
    after.body.isReference = before.body.isReference := by
  obtain ⟨_, body⟩ := before
  obtain ⟨_, other⟩ := after
  rw [contents_node, contents_node] at equal
  have bodies : other.map contents = body.map contents := congrArg Schema.body equal
  change (other.map contents).isReference = (body.map contents).isReference
  rw [bodies]

/-- Of the schemas that are built in steps exactly those survive being written and read in which
every keyword has a name of its own. -/
theorem built_restored_iff (built : schema.body.Built) (legible : schema.json.Legible nestingLimit)
    (graph : Graph) :
    (schema.Apart ↔ ∃ after last,
        Format.parse Format.schema schema.json.compact graph = .ok (after, last) ∧
          schema.same after = true) ∧
      (schema.Apart → (Text.ofChars schema.json.compact.toList).Unrepeated ∧
        ∀ after last, Format.parse Format.schema schema.json.compact graph = .ok (after, last) →
          after.contents = schema.contents ∧
            after.body.isReference = schema.body.isReference ∧
            after.pointers = schema.pointers) := by
  have distinct : schema.Apart → schema.Distinct :=
    (schema.node_id_body ▸ tabled_of_built built schema.id).distinct
  refine ⟨⟨fun apart => ?_, fun ⟨after, last, read, equal⟩ =>
    apart_of_same equal (distinct_of_parse read)⟩, fun apart => ⟨?_, fun after last read => ?_⟩⟩
  · obtain ⟨after, last, read, equal⟩ := parse_restores (distinct apart) legible graph
    exact ⟨after, last, read, same_of_contents (distinct apart) legible equal⟩
  · rw [Json.compact, String.toList_ofList, ofChars_compact legible]
    exact ⟨unrepeated_node schema.json (distinct apart).json⟩
  · obtain ⟨_, _, restored, equal⟩ := parse_restores (distinct apart) legible graph
    cases read.symm.trans restored
    refine ⟨equal, isReference_eq_of_contents equal, ?_⟩
    rw [← pointers_contents, equal, pointers_contents]

/-- The type is set twice, and the note has a member with the name of the pointer. -/
def caged : Schema :=
  .node 0 ((((SchemaBody.typed "object").withKeyword "note" (.object [("$ref", .null)])).withProperty
    "pet" (.node 1 ((SchemaBody.pointer "#/components/schemas/Pet").withKeyword "nullable"
      (.bool true)))).withItems (.node 2 (({} : SchemaBody Schema).withKeyword "minimum"
        (.number (.integer (-3)))))|>.withKeyword "type" (.array [.string "object"]))

def cagedJson : Json :=
  .object [
    ("items", .object [("minimum", .number (.integer (-3)))]),
    ("properties", .object [
      ("pet", .object [("$ref", .string "#/components/schemas/Pet"), ("nullable", .bool true)])]),
    ("type", .array [.string "object"]),
    ("note", .object [("$ref", .null)])]

theorem built_restored_iff_caged :
    caged.body.Built ∧ caged.json.Legible nestingLimit ∧ caged.Apart ∧
      (Text.ofChars caged.json.compact.toList).Unrepeated ∧
      ∃ after last, Format.parse Format.schema caged.json.compact {} = .ok (after, last) ∧
        caged.same after = true ∧ after.body.isReference = false ∧
        after.pointers = ["#/components/schemas/Pet"] := by
  have built : caged.body.Built := by
    refine .withKeyword (.withItems (.withProperty (.withKeyword (.typed _) _ ?_) _ _
      (.withKeyword (.pointer _) _ (.bool true))) _ (.withKeyword .blank _ (.number _))) _ ?_
    · exact .object (List.nodup_singleton _) (List.forall_mem_singleton.mpr .null)
    · exact .array (List.forall_mem_singleton.mpr (.string _))
  have legible : caged.json.Legible nestingLimit := by
    have scalars : Legible 125 (.number (.integer (-3))) ∧ Legible 124 (.bool true) ∧
        Legible 125 .null := ⟨.integer 125 (by omega) (by omega), .bool 124 true, .null 125⟩
    rw [show caged.json = cagedJson from rfl]
    simpa [cagedJson, nestingLimit] using scalars
  have apart : caged.Apart := by
    have names : ∀ named ∈ caged.nodes.map (·.body.keywords.names), ∀ name ∈ named,
        name ∉ structural := by decide
    exact fun inner member => names _ (List.mem_map_of_mem member)
  obtain ⟨⟨restored, _⟩, kept⟩ := built_restored_iff built legible {}
  obtain ⟨unrepeated, alike⟩ := kept apart
  obtain ⟨after, last, read, equal⟩ := restored apart
  exact ⟨built, legible, apart, unrepeated, after, last, read, equal,
    (alike after last read).2.1, (alike after last read).2.2⟩

/-- A keyword with the name of the pointer. -/
def mimic : Schema :=
  .node 0 (({} : SchemaBody Schema).withKeyword "$ref" (.string "#/components/schemas/Pet"))

/-- The mimic of a pointer is read as a pointer. -/
theorem mimic_not_restored :
    mimic.body.Built ∧ mimic.json.Legible nestingLimit ∧
      mimic.body.isReference = false ∧ mimic.pointers = [] ∧
      ∃ after last, Format.parse Format.schema mimic.json.compact {} = .ok (after, last) ∧
        mimic.same after = false ∧ after.body.isReference = true ∧
        after.pointers = ["#/components/schemas/Pet"] := by
  have legible : mimic.json.Legible nestingLimit := by
    rw [show mimic.json = .object [("$ref", .string "#/components/schemas/Pet")] from rfl]
    simp [nestingLimit]
  exact ⟨.withKeyword .blank _ (.string _), legible, rfl, rfl,
    .node 0 (.pointer "#/components/schemas/Pet"), { schemaCount := 1 },
    (decode_compact legible _).trans rfl, rfl, rfl, rfl⟩

end

end Schema

end ApiLinker
