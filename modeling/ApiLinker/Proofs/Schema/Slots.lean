import ApiLinker.Proofs.Schema.Placed
import ApiLinker.Proofs.Schema.Written

/-!
Paths of slots.

`Schema.at?` goes down from a schema, one slot at a time.  What it finds is what the written schema
holds at the segments of these slots, and what is registered is what it finds, each node under the
pointer of its own path.
-/

namespace ApiLinker

namespace Subschemas

/-- The sub-schema in a slot. -/
def child? (children : Subschemas σ) : Slot → Option σ
  | .items => children.items
  | .not => children.not
  | .additionalProperties => children.additional
  | .allOf index => children.allOf[index]?
  | .anyOf index => children.anyOf[index]?
  | .oneOf index => children.oneOf[index]?
  | .property name => Table.find? name children.properties

variable {children : Subschemas σ} {slot : Slot} {child : σ}

theorem mem_visits : (slot, child) ∈ children.visits ↔
    match slot with
    | .property name => (name, child) ∈ children.properties
    | _ => children.child? slot = some child := by
  cases slot <;> simp [visits, numbered, child?, List.mem_zipIdx_iff_getElem?]

theorem mem_visits_of_child? (found : children.child? slot = some child) :
    (slot, child) ∈ children.visits := by
  rw [mem_visits]
  cases slot with
  | property name => exact Table.mem_of_find? found
  | _ => exact found

theorem mem_visits_iff (distinct : children.properties.names.Nodup) :
    (slot, child) ∈ children.visits ↔ children.child? slot = some child := by
  rw [mem_visits]
  cases slot with
  | property name => exact ⟨Table.find?_of_mem distinct, Table.mem_of_find?⟩
  | _ => exact Iff.rfl

end Subschemas

namespace Schema

/-- The node to which a path of slots leads. -/
def at? : Schema → List Slot → Option Schema
  | schema, [] => some schema
  | schema, slot :: slots => (schema.body.children.child? slot).bind (at? · slots)

@[simp] theorem at?_nil (schema : Schema) : schema.at? [] = some schema := rfl

theorem at?_cons_eq_some {schema node : Schema} {slot : Slot} {slots : List Slot} :
    schema.at? (slot :: slots) = some node ↔
      ∃ child, schema.body.children.child? slot = some child ∧ child.at? slots = some node := by
  simp only [at?, Option.bind_eq_some_iff]

/-- The segments that lead through a path of slots. -/
def segments (slots : List Slot) : List String :=
  slots.flatMap Slot.segments

/-- A node is written at the segments that lead to it. -/
theorem json_at? {schema node : Schema} {slots : List Slot} (distinct : schema.Distinct)
    (found : schema.at? slots = some node) :
    schema.json.at? (segments slots) = some node.json := by
  induction slots generalizing schema with
  | nil =>
      cases found
      exact Json.at?_nil _
  | cons slot slots ih =>
      obtain ⟨child, isChild, below⟩ := at?_cons_eq_some.mp found
      cases distinct with
      | @node id body properties _ children =>
          have visited := Subschemas.mem_visits_of_child? isChild
          rw [segments, List.flatMap_cons, Json.at?_append, at?_slot properties visited]
          exact ih (children child (List.mem_map_of_mem visited)) below

/-- The nodes of a schema, each with the slots that lead to it. -/
def occurrences : Schema → List (List Slot × Schema) :=
  recurse fun schema body =>
    ([], schema) :: body.children.visits.flatMap fun (slot, inside) =>
      inside.map fun (slots, inner) => (slot :: slots, inner)

theorem occurrences_node (id : Nat) (body : SchemaBody Schema) :
    occurrences (.node id body) = ([], .node id body) ::
      body.children.visits.flatMap fun (slot, child) =>
        child.occurrences.map fun (slots, inner) => (slot :: slots, inner) := by
  rw [occurrences, recurse_node]
  simp [Subschemas.visits_map, List.flatMap_map]

theorem mem_occurrences {schema : Schema} (distinct : schema.Distinct) {slots : List Slot}
    {node : Schema} : (slots, node) ∈ schema.occurrences ↔ schema.at? slots = some node := by
  induction distinct generalizing slots with
  | @node id body properties _ _ ih =>
      rw [occurrences_node]
      cases slots with
      | nil => simp [eq_comm]
      | cons slot slots =>
          simp only [List.mem_cons, Prod.mk.injEq, reduceCtorEq, false_and, false_or,
            List.mem_flatMap, List.mem_map, Prod.exists, List.cons.injEq, at?_cons_eq_some]
          constructor
          · rintro ⟨_, child, visited, _, _, inside, ⟨rfl, rfl⟩, rfl⟩
            have isChild := (Subschemas.mem_visits_iff properties).mp visited
            exact ⟨child, isChild, (ih child (List.mem_map_of_mem visited)).mp inside⟩
          · rintro ⟨child, isChild, found⟩
            have visited := Subschemas.mem_visits_of_child? isChild
            have inside := (ih child (List.mem_map_of_mem visited)).mpr found
            exact ⟨slot, child, visited, slots, node, inside, ⟨rfl, rfl⟩, rfl⟩

/-- The positions of a schema are its nodes under the pointers of their paths. -/
theorem positions_eq (schema : Schema) (base : List String) :
    schema.positions (Pointer.ofSegments base) =
      schema.occurrences.map fun (slots, inner) =>
        (Pointer.ofSegments (base ++ segments slots), inner) := by
  induction schema using induct generalizing base with
  | node id body ih =>
      rw [positions_node, occurrences_node]
      simp only [List.map_cons, List.map_flatMap, List.map_map, ← Pointer.ofSegments_append]
      refine congrArg₂ List.cons (by simp [segments]) (List.flatMap_congr ?_)
      rintro ⟨slot, child⟩ visited
      rw [ih child (List.mem_map_of_mem visited)]
      simp [segments, Function.comp_def]

end Schema

end ApiLinker
