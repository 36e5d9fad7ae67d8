import ApiLinker.Proofs.Json.Reordered
import ApiLinker.Proofs.Schema.Registered
import ApiLinker.Proofs.Schema.Written

/-!
Schemas whose properties stand in another order.

Such schemas have the same pointers, the same positions, with schemas that are again equal but for
the order of properties, and are written as the same JSON but for the order of members.
-/

namespace ApiLinker

open ListRel

variable {σ τ υ ω : Type}

inductive Additional.Rel (R : σ → τ → Prop) : Additional σ → Additional τ → Prop where
  | unspecified : Rel R .unspecified .unspecified
  | allowed (value : Bool) : Rel R (.allowed value) (.allowed value)
  | schema {before : σ} {after : τ} (holds : R before after) : Rel R (.schema before) (.schema after)

/-- Related sub-schemas in the same slots.  Properties and keywords may stand in any order. -/
structure SchemaBody.Reorders (R : σ → τ → Prop) (before : SchemaBody σ) (after : SchemaBody τ) :
    Prop where
  reference : before.reference = after.reference
  items : Option.Rel R before.items after.items
  allOf : List.Forall₂ R before.allOf after.allOf
  anyOf : List.Forall₂ R before.anyOf after.anyOf
  oneOf : List.Forall₂ R before.oneOf after.oneOf
  not : Option.Rel R before.not after.not
  properties : Table.Reorders R before.properties after.properties
  additional : before.additional.Rel R after.additional
  keywords : Table.Reorders Json.Reorders before.keywords after.keywords

/-- Equal contents, but for the order of properties, of keywords and of members in these.  Numbers
make no difference. -/
def Schema.Reorders : Schema → Schema → Prop :=
  recurse fun _ before after =>
    before.Reorders (fun reorders other => reorders other) after.body

section

/-! Bodies. -/

variable {R : σ → τ → Prop} {before : SchemaBody σ} {after : SchemaBody τ}

theorem Additional.rel_map_iff {S : υ → ω → Prop} {f : σ → υ} {g : τ → ω} {before : Additional σ}
    {after : Additional τ} :
    (before.map f).Rel S (after.map g) ↔
      before.Rel (fun left right => S (f left) (g right)) after := by
  constructor
  · intro related
    cases before <;> cases after <;> cases related
    · exact .unspecified
    · exact .allowed _
    · exact .schema ‹_›
  · intro related
    cases related with
    | unspecified => exact .unspecified
    | allowed value => exact .allowed value
    | schema holds => exact .schema holds

theorem Additional.Rel.schema? {before : Additional σ} {after : Additional τ}
    (related : before.Rel R after) : Option.Rel R before.schema? after.schema? := by
  cases related with
  | unspecified | allowed => exact .none
  | schema holds => exact .some holds

namespace SchemaBody

theorem reorders_map_iff {S : υ → ω → Prop} {f : σ → υ} {g : τ → ω} :
    (before.map f).Reorders S (after.map g) ↔
      before.Reorders (fun left right => S (f left) (g right)) after := by
  have properties : Table.Reorders S (before.map f).properties (after.map g).properties ↔
      Table.Reorders (fun left right => S (f left) (g right)) before.properties after.properties :=
    permuted_map
  constructor
  · rintro ⟨reference, items, allOf, anyOf, oneOf, not, reordered, additional, keywords⟩
    simp only [map, OptionRel.map_iff, List.forall₂_map_left_iff, List.forall₂_map_right_iff,
      Additional.rel_map_iff] at reference items allOf anyOf oneOf not additional keywords
    exact ⟨reference, items, allOf, anyOf, oneOf, not, properties.mp reordered, additional, keywords⟩
  · rintro ⟨reference, items, allOf, anyOf, oneOf, not, reordered, additional, keywords⟩
    refine ⟨reference, ?_, ?_, ?_, ?_, ?_, properties.mpr reordered, ?_, keywords⟩ <;>
      simpa only [map, OptionRel.map_iff, List.forall₂_map_left_iff, List.forall₂_map_right_iff,
        Additional.rel_map_iff]

theorem map_id (body : SchemaBody σ) : body.map (fun child => child) = body := by
  cases body with
  | mk _ _ _ _ _ _ _ additional _ => cases additional <;> simp [map, Additional.map]

theorem Reorders.imp_of_mem {S : σ → τ → Prop} (reorders : before.Reorders R after)
    (implies : ∀ child ∈ before.children.list, ∀ other, R child other → S child other) :
    before.Reorders S after := by
  simp only [Subschemas.list_eq, children, List.mem_append, List.mem_map, Option.mem_toList,
    or_imp, forall_and, forall_exists_index, and_imp] at implies
  obtain ⟨⟨⟨⟨⟨⟨items, not⟩, additional⟩, allOf⟩, anyOf⟩, oneOf⟩, properties⟩ := implies
  exact {
    reference := reorders.reference
    items := OptionRel.imp_of_mem reorders.items items
    allOf := ListRel.imp_of_mem reorders.allOf allOf
    anyOf := ListRel.imp_of_mem reorders.anyOf anyOf
    oneOf := ListRel.imp_of_mem reorders.oneOf oneOf
    not := OptionRel.imp_of_mem reorders.not not
    properties := reorders.properties.imp_of_mem fun entry member =>
      properties _ entry member rfl
    additional := by
      have related := reorders.additional
      generalize before.additional = left, after.additional = right at related additional
      cases related with
      | unspecified => exact .unspecified
      | allowed value => exact .allowed value
      | schema holds => exact .schema (additional _ rfl _ holds)
    keywords := reorders.keywords }

/-- Nothing has to stand in another order. -/
theorem reorders_eq (body : SchemaBody σ) : body.Reorders Eq body where
  reference := rfl
  items := OptionRel.refl (fun _ => rfl) _
  allOf := List.forall₂_same.mpr fun _ _ => rfl
  anyOf := List.forall₂_same.mpr fun _ _ => rfl
  oneOf := List.forall₂_same.mpr fun _ _ => rfl
  not := OptionRel.refl (fun _ => rfl) _
  properties := (Table.Rel.refl (fun _ => rfl) _).reorders
  additional := by
    cases body.additional with
    | unspecified => exact .unspecified
    | allowed value => exact .allowed value
    | schema schema => exact .schema rfl
  keywords := (Table.Rel.refl .same _).reorders

theorem permuted_slot (slot : Slot) {before : Option σ} {after : Option τ}
    (related : Option.Rel R before after) :
    Permuted (fun left right => left.1 = right.1 ∧ R left.2 right.2)
      (before.toList.map (slot, ·)) (after.toList.map (slot, ·)) :=
  permuted_map.mpr (permuted_of_forall₂
    ((OptionRel.toList related).imp fun _ _ holds => ⟨rfl, holds⟩))

theorem permuted_numbered (slot : Nat → Slot) {before : List σ} {after : List τ}
    (related : List.Forall₂ R before after) :
    Permuted (fun left right => left.1 = right.1 ∧ R left.2 right.2)
      (Subschemas.numbered slot before) (Subschemas.numbered slot after) :=
  permuted_map.mpr (permuted_of_forall₂
    ((ListRel.zipIdx related 0).imp fun _ _ holds => ⟨congrArg slot holds.2, holds.1⟩))

theorem Reorders.visits (reorders : before.Reorders R after) :
    Permuted (fun left right => left.1 = right.1 ∧ R left.2 right.2) before.children.visits
      after.children.visits := by
  have properties : Permuted (fun left right => left.1 = right.1 ∧ R left.2 right.2)
      (before.properties.map fun entry => (Slot.property entry.1, entry.2))
      (after.properties.map fun entry => (Slot.property entry.1, entry.2)) :=
    permuted_map.mpr (reorders.properties.imp fun _ _ holds =>
      ⟨congrArg Slot.property holds.1, holds.2⟩)
  exact ((((((permuted_slot .items reorders.items).append
    (permuted_slot .not reorders.not)).append
    (permuted_slot .additionalProperties reorders.additional.schema?)).append
    (permuted_numbered .allOf reorders.allOf)).append
    (permuted_numbered .anyOf reorders.anyOf)).append
    (permuted_numbered .oneOf reorders.oneOf)).append properties

theorem Reorders.list (reorders : before.Reorders R after) :
    Permuted R before.children.list after.children.list :=
  permuted_map.mpr (reorders.visits.imp fun _ _ holds => holds.2)

section

/-! Members that hold JSON for sub-schemas. -/

variable {json : σ → Json} {otherJson : τ → Json}

theorem reorders_member (name : String) {before : Option σ} {after : Option τ}
    (related : Option.Rel (fun child other => (json child).Reorders (otherJson other)) before after) :
    Table.Reorders Json.Reorders (before.toList.map fun child => (name, json child))
      (after.toList.map fun child => (name, otherJson child)) :=
  permuted_map.mpr (permuted_of_forall₂
    ((OptionRel.toList related).imp fun _ _ holds => ⟨rfl, holds⟩))

theorem reorders_listMember (name : String) {before : List σ} {after : List τ}
    (related : List.Forall₂ (fun child other => (json child).Reorders (otherJson other)) before
      after) :
    Table.Reorders Json.Reorders (listMember name json before)
      (listMember name otherJson after) := by
  cases related with
  | nil => exact permuted_nil
  | cons holds related =>
      refine .cons ⟨rfl, .array ?_⟩ permuted_nil
      rw [List.forall₂_map_left_iff, List.forall₂_map_right_iff]
      exact .cons holds related

theorem reorders_tableMember (name : String) {before : Table σ} {after : Table τ}
    (related : Table.Reorders (fun child other => (json child).Reorders (otherJson other)) before
      after) :
    Table.Reorders Json.Reorders (tableMember name json before)
      (tableMember name otherJson after) := by
  have sameEmpty := Permuted.isEmpty_eq related
  cases before with
  | nil =>
      cases after with
      | nil => exact permuted_nil
      | cons => cases sameEmpty
  | cons =>
      cases after with
      | nil => cases sameEmpty
      | cons => exact .cons ⟨rfl, .of_members (permuted_map.mpr related)⟩ permuted_nil

/-- Members that hold related JSON for related sub-schemas are the same but for their order. -/
theorem Reorders.members
    (reorders : before.Reorders (fun child other => (json child).Reorders (otherJson other)) after) :
    Table.Reorders Json.Reorders (before.members json) (after.members otherJson) := by
  have reference : Table.Reorders Json.Reorders
      (before.reference.toList.map fun target => ("$ref", Json.string target))
      (after.reference.toList.map fun target => ("$ref", Json.string target)) :=
    reorders.reference ▸ (Table.Rel.refl Json.Reorders.same _).reorders
  refine (((((((Permuted.append reference (reorders_member "items" reorders.items)).append
    (reorders_listMember "allOf" reorders.allOf)).append
    (reorders_listMember "anyOf" reorders.anyOf)).append
    (reorders_listMember "oneOf" reorders.oneOf)).append
    (reorders_member "not" reorders.not)).append
    (reorders_tableMember "properties" reorders.properties)).append ?_).append reorders.keywords
  have additional := reorders.additional
  generalize before.additional = left, after.additional = right at additional
  cases additional with
  | unspecified => exact permuted_nil
  | allowed value => exact .cons ⟨rfl, .same _⟩ permuted_nil
  | schema holds => exact .cons ⟨rfl, holds⟩ permuted_nil

end

end SchemaBody

end

namespace Schema

theorem reorders_node {id otherId : Nat} {body other : SchemaBody Schema} :
    (Schema.node id body).Reorders (.node otherId other) ↔ body.Reorders Reorders other := by
  rw [Reorders, recurse_node, Schema.body, ← SchemaBody.map_id other, SchemaBody.reorders_map_iff,
    SchemaBody.map_id]

/-- Induction over two schemas side by side. -/
theorem Reorders.induct {P : ∀ before after : Schema, before.Reorders after → Prop}
    (node : ∀ id (body : SchemaBody Schema) otherId (other : SchemaBody Schema)
      (reorders : (Schema.node id body).Reorders (.node otherId other)),
      body.Reorders (fun child result => ∃ holds, P child result holds) other →
      P (.node id body) (.node otherId other) reorders)
    {before after : Schema} (reorders : before.Reorders after) : P before after reorders := by
  induction before using Schema.induct generalizing after with
  | node id body ih =>
      cases after with
      | node otherId other =>
          exact node id body otherId other reorders ((reorders_node.mp reorders).imp_of_mem
            fun child member result holds => ⟨holds, ih child member holds⟩)

theorem reorders_refl (schema : Schema) : schema.Reorders schema := by
  induction schema using induct with
  | node id body ih =>
      exact reorders_node.mpr ((SchemaBody.reorders_eq body).imp_of_mem fun child member _ same =>
        same ▸ ih child member)

/-- The numbers of schemas make no difference. -/
theorem reorders_renumbered (id otherId : Nat) (body : SchemaBody Schema) :
    (Schema.node id body).Reorders (.node otherId body) :=
  reorders_node.mpr ((SchemaBody.reorders_eq body).imp_of_mem fun child _ _ same =>
    same ▸ child.reorders_refl)

theorem Reorders.exposed {before after : Schema} (reorders : before.Reorders after) :
    before.exposed.Perm after.exposed := by
  induction reorders using Reorders.induct with
  | node id body otherId other reorders bodies =>
      cases points : body.reference with
      | some pointer =>
          rw [exposed_pointer points, exposed_pointer (bodies.reference.symm.trans points)]
      | none =>
          rw [exposed_plain points, exposed_plain (bodies.reference.symm.trans points)]
          exact bodies.list.perm_flatMap fun _ _ holds => holds.2

theorem Reorders.pointers {before after : Schema} (reorders : before.Reorders after) :
    before.pointers.Perm after.pointers := by
  induction reorders using Reorders.induct with
  | node id body otherId other reorders bodies =>
      rw [pointers_node, pointers_node, bodies.reference]
      exact .append_left _ (bodies.list.perm_flatMap fun _ _ ⟨_, perm⟩ => perm)

theorem Reorders.positions {before after : Schema} (reorders : before.Reorders after)
    (pointer : String) :
    Table.Reorders Reorders (before.positions pointer) (after.positions pointer) := by
  induction reorders using Reorders.induct generalizing pointer with
  | node id body otherId other reorders bodies =>
      rw [positions_node, positions_node]
      refine .cons ⟨rfl, reorders⟩ (bodies.visits.flatMap ?_)
      rintro ⟨slot, child⟩ ⟨_, result⟩ ⟨rfl, _, positions⟩
      exact positions _

theorem Reorders.contents {before after : Schema} (reorders : before.Reorders after) :
    before.contents.Reorders after.contents := by
  induction reorders using Reorders.induct with
  | node id body otherId other reorders bodies =>
      rw [contents_node, contents_node, reorders_node]
      exact SchemaBody.reorders_map_iff.mpr (bodies.imp_of_mem fun _ _ _ ⟨_, contents⟩ => contents)

theorem Reorders.json {before after : Schema} (reorders : before.Reorders after) :
    before.json.Reorders after.json := by
  induction reorders using Reorders.induct with
  | node id body otherId other reorders bodies =>
      rw [json_node, json_node]
      exact .of_members (SchemaBody.Reorders.members (bodies.imp_of_mem fun _ _ _ ⟨_, json⟩ => json))

end Schema

end ApiLinker
