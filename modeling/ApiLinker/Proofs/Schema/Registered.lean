import ApiLinker.Proofs.Pointer
import ApiLinker.Proofs.Schema.Identity
import ApiLinker.Proofs.Schema.Reach
import ApiLinker.Proofs.Table
import Mathlib.Data.List.Nodup

/-!
What the registry of a document holds.

Each named schema is found under the locator of its name, and whatever is found is a node of some
named schema.
-/

namespace ApiLinker

namespace Table

variable {κ : Type} [DecidableEq κ]

theorem find?_foldl_insert_of_mem (key : β → κ) (value : β → α) {entries : List β}
    (table : List (κ × α)) {entry : β} (member : entry ∈ entries)
    (unique : ∀ other ∈ entries, key other = key entry → value other = value entry) :
    find? (key entry)
      (entries.foldl (fun table entry => insert (key entry) (value entry) table) table) =
        some (value entry) := by
  rw [find?_foldl_insert_eq]
  cases isLast : entries.reverse.find? fun other => key other = key entry with
  | none => simpa using List.find?_eq_none.mp isLast entry (List.mem_reverse.mpr member)
  | some last =>
      have inside : last ∈ entries := List.mem_reverse.mp (List.mem_of_find?_eq_some isLast)
      have same : key last = key entry := by simpa using List.find?_some isLast
      simp [unique last inside same]

theorem find?_foldl_insert (key : β → κ) (value : β → α) {entries : List β}
    {table : List (κ × α)} {name : κ} {found : α}
    (isFound : find? name
      (entries.foldl (fun table entry => insert (key entry) (value entry) table) table) =
        some found) :
    find? name table = some found ∨ ∃ entry ∈ entries, key entry = name ∧ value entry = found := by
  rw [find?_foldl_insert_eq, Option.or_eq_some_iff] at isFound
  rcases isFound with isLast | ⟨_, before⟩
  · obtain ⟨last, isLast, holds⟩ := Option.map_eq_some_iff.mp isLast
    exact .inr ⟨last, List.mem_reverse.mp (List.mem_of_find?_eq_some isLast),
      by simpa using List.find?_some isLast, holds⟩
  · exact .inl before

theorem eq_of_mem_of_nodup {table : Table α} (distinct : table.names.Nodup) {name : String}
    {left right : α} (leftIn : (name, left) ∈ table) (rightIn : (name, right) ∈ table) :
    left = right := by
  have same := List.inj_on_of_nodup_map distinct leftIn rightIn rfl
  exact congrArg Prod.snd same

end Table

theorem Slot.segments_ne_nil (slot : Slot) : slot.segments ≠ [] := by
  cases slot <;> simp [Slot.segments]

namespace Schema

theorem positions_node (id : Nat) (body : SchemaBody Schema) (pointer : String) :
    positions (.node id body) pointer = (pointer, .node id body) ::
      body.children.visits.flatMap fun (slot, child) =>
        child.positions (pointer ++ Pointer.extendWith slot.segments) := by
  rw [positions, recurse_node]
  simp [Subschemas.visits_map, List.flatMap_map]

/-- Every position of a schema has a path of its own from the root, and a node of the schema. -/
theorem mem_positions {base : List String} {schema : Schema} {position : String × Schema}
    (member : position ∈ schema.positions (Pointer.ofSegments base)) :
    position.2 ∈ schema.nodes ∧ ∃ path, position.1 = Pointer.ofSegments (base ++ path) ∧
      (path = [] → position.2 = schema) := by
  induction schema using induct generalizing base with
  | node id body ih =>
      rw [positions_node] at member
      rcases List.mem_cons.mp member with rfl | inside
      · exact ⟨self_mem_nodes _, [], by simp, fun _ => rfl⟩
      · obtain ⟨⟨slot, child⟩, visit, inChild⟩ := List.mem_flatMap.mp inside
        have isChild : child ∈ body.children.list := List.mem_map.mpr ⟨_, visit, rfl⟩
        simp only [← Pointer.ofSegments_append] at inChild
        obtain ⟨isNode, path, place, _⟩ := ih child isChild inChild
        refine ⟨mem_nodes_node.mpr (.inr ⟨child, isChild, isNode⟩), slot.segments ++ path,
          by rw [place, List.append_assoc], fun empty => ?_⟩
        exact absurd (List.append_eq_nil_iff.mp empty).1 slot.segments_ne_nil

theorem root_mem_positions (schema : Schema) (pointer : String) :
    (pointer, schema) ∈ schema.positions pointer := by
  cases schema with
  | node id body => rw [positions_node]; exact List.mem_cons_self

theorem nodes_trans {schema middle inner : Schema} (isMiddle : middle ∈ schema.nodes)
    (isInner : inner ∈ middle.nodes) : inner ∈ schema.nodes := by
  induction schema using induct with
  | node id body ih =>
      rcases mem_nodes_node.mp isMiddle with rfl | ⟨child, member, within⟩
      · exact isInner
      · exact mem_nodes_node.mpr (.inr ⟨child, member, ih child member within⟩)

theorem IsIn.of_mem_nodes {nodes : NodeTable} {schema inner : Schema} (isIn : schema.IsIn nodes)
    (member : inner ∈ schema.nodes) : inner.IsIn nodes :=
  fun node within => isIn node (nodes_trans member within)

end Schema

namespace Registry

/-- All that is registered for named schemas, in order. -/
def positions (schemas : Table Schema) : List (String × Schema) :=
  schemas.flatMap fun entry => entry.2.positions (componentPointer entry.1)

theorem foldl_register (registry : Registry) (entries : List (String × Schema)) :
    entries.foldl (fun registry entry => registry.register entry.1 entry.2) registry =
      { registry with
        schemas := entries.foldl (fun table entry =>
          Table.insert (Locator.ofPointer registry.authority entry.1) entry.2 table)
          registry.schemas } := by
  induction entries generalizing registry with
  | nil => rfl
  | cons entry rest ih => rw [List.foldl_cons, ih, List.foldl_cons]; rfl

theorem ofSchemas_eq (authority : String) (schemas : Table Schema) :
    ofSchemas authority schemas =
      { authority
        schemas := (positions schemas).foldl (fun table entry =>
          Table.insert (Locator.ofPointer authority entry.1) entry.2 table) [] } := by
  have flat : ofSchemas authority schemas =
      (positions schemas).foldl (fun registry entry => registry.register entry.1 entry.2)
        { authority } := by
    rw [positions, List.foldl_flatMap]
    rfl
  rw [flat, foldl_register]

theorem get?_ofSchemas {authority : String} {schemas : Table Schema}
    (distinct : schemas.names.Nodup) {name : String} {schema : Schema}
    (member : (name, schema) ∈ schemas) :
    (ofSchemas authority schemas).get? (Locator.ofPointer authority (componentPointer name)) =
      some schema := by
  rw [get?, ofSchemas_eq]
  have placed : (componentPointer name, schema) ∈ positions schemas :=
    List.mem_flatMap.mpr ⟨(name, schema), member, schema.root_mem_positions _⟩
  have found := Table.find?_foldl_insert_of_mem
    (fun entry : String × Schema => Locator.ofPointer authority entry.1) Prod.snd [] placed
  refine found fun position isPosition same => ?_
  obtain ⟨⟨otherName, other⟩, otherIn, inOther⟩ := List.mem_flatMap.mp isPosition
  obtain ⟨_, path, place, root⟩ := Schema.mem_positions inOther
  simp only [place, componentPointer] at same
  have segments := Locator.ofPointer_injective same
  simp only [List.cons_append, List.nil_append, List.cons.injEq, true_and] at segments
  obtain ⟨rfl, rfl⟩ := segments
  rw [root rfl]
  exact Table.eq_of_mem_of_nodup distinct otherIn member

/-- Under the locator of a name there is nothing but the schema of that name. -/
theorem mem_of_get?_componentPointer {authority name : String} {schemas : Table Schema}
    {schema : Schema}
    (registered : (ofSchemas authority schemas).get?
      (Locator.ofPointer authority (componentPointer name)) = some schema) :
    (name, schema) ∈ schemas := by
  rw [get?, ofSchemas_eq] at registered
  have origin := Table.find?_foldl_insert
    (fun entry : String × Schema => Locator.ofPointer authority entry.1) Prod.snd registered
  rcases origin with never | ⟨position, isPosition, same, rfl⟩
  · cases never
  obtain ⟨⟨other, root⟩, member, within⟩ := List.mem_flatMap.mp isPosition
  obtain ⟨_, path, place, isRoot⟩ := Schema.mem_positions within
  simp only [place, componentPointer] at same
  have segments := Locator.ofPointer_injective same
  simp only [List.cons_append, List.nil_append, List.cons.injEq, true_and] at segments
  obtain ⟨rfl, rfl⟩ := segments
  rwa [isRoot rfl]

theorem mem_nodes_of_get?_ofSchemas {authority locator : String} {schemas : Table Schema}
    {schema : Schema} (registered : (ofSchemas authority schemas).get? locator = some schema) :
    ∃ entry ∈ schemas, schema ∈ entry.2.nodes := by
  rw [get?, ofSchemas_eq] at registered
  have origin := Table.find?_foldl_insert
    (fun entry : String × Schema => Locator.ofPointer authority entry.1) Prod.snd registered
  rcases origin with never | ⟨position, isPosition, _, rfl⟩
  · cases never
  · obtain ⟨entry, member, within⟩ := List.mem_flatMap.mp isPosition
    exact ⟨entry, member, (Schema.mem_positions within).1⟩

end Registry

end ApiLinker
