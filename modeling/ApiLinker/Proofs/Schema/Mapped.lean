import ApiLinker.Proofs.Schema.Refill
import ApiLinker.Proofs.Schema.Slots

/-!
Replacing the sub-schemas of a node.

Answers for all sub-schemas, in the order of the visits, fill the slots that were asked for
(`Subschemas.visits_refill`).  So it is known which node comes out of asking, and when the old one
can stay (`Schema.mapChildren_replaces`).
-/

namespace ApiLinker

namespace Subschemas

section

/-! What stands in the slots afterwards. -/

variable {results : List τ}

theorem toList_head? {option : Option σ} (length : results.length = option.toList.length) :
    results.head?.toList = results := by
  cases option with
  | none => rw [List.eq_nil_of_length_eq_zero length, List.head?_nil, Option.toList_none]
  | some child =>
      obtain ⟨result, rfl⟩ := List.length_eq_one_iff.mp length
      rfl

theorem slots_eq (children : Subschemas σ) :
    children.visits.map Prod.fst =
      children.items.toList.map (fun _ => .items) ++ children.not.toList.map (fun _ => .not) ++
        children.additional.toList.map (fun _ => .additionalProperties) ++
        (List.range children.allOf.length).map .allOf ++
        (List.range children.anyOf.length).map .anyOf ++
        (List.range children.oneOf.length).map .oneOf ++
        children.properties.names.map .property := by
  simp [visits, map_fst_numbered, Table.names, Function.comp_def]

theorem exists_append {first second : Nat} (length : results.length = first + second) :
    ∃ front back, results = front ++ back ∧ front.length = first ∧ back.length = second :=
  ⟨results.take first, results.drop first, (List.take_append_drop first results).symm,
    by rw [List.length_take]; omega, by rw [List.length_drop]; omega⟩

/-- Each slot holds the answer for the sub-schema that was there, and there are no other slots. -/
theorem visits_refill {children : Subschemas σ} (length : results.length = children.visits.length) :
    (children.refill results).visits = (children.visits.map Prod.fst).zip results := by
  simp only [visits, numbered, List.length_append, List.length_map, List.length_zipIdx, Nat.add_assoc]
    at length
  obtain ⟨items, results, rfl, isItems, length⟩ := exists_append length
  obtain ⟨not, results, rfl, isNot, length⟩ := exists_append length
  obtain ⟨additional, results, rfl, isAdditional, length⟩ := exists_append length
  obtain ⟨allOf, results, rfl, isAllOf, length⟩ := exists_append length
  obtain ⟨anyOf, results, rfl, isAnyOf, length⟩ := exists_append length
  obtain ⟨oneOf, properties, rfl, isOneOf, isProperties⟩ := exists_append length
  have refilled : children.refill (items ++ (not ++ (additional ++ (allOf ++ (anyOf ++ (oneOf ++
      properties)))))) =
      { items := items.head?, not := not.head?, additional := additional.head?, allOf, anyOf, oneOf
        properties := children.properties.names.zip properties } := by
    simp [refill, ← isItems, ← isNot, ← isAdditional, ← isAllOf, ← isAnyOf, ← isOneOf]
  have named : children.properties.names.length = properties.length := by
    simp [Table.names, isProperties]
  have names : Table.names (children.properties.names.zip properties) = children.properties.names :=
    List.map_fst_zip (Nat.le_of_eq named)
  rw [refilled]
  refine List.zip_of_prod ?_ ?_
  · simp [slots_eq, names, toList_head? isItems, toList_head? isNot, toList_head? isAdditional,
      isItems, isNot, isAdditional, isAllOf, isAnyOf, isOneOf]
  · change Subschemas.list _ = _
    simp [list_eq, toList_head? isItems, toList_head? isNot, toList_head? isAdditional, named,
      List.map_snd_zip]

theorem isSome_additional (children : Subschemas σ) :
    children.additional.isSome = true ↔ .additionalProperties ∈ children.visits.map Prod.fst := by
  cases additional : children.additional <;> simp [slots_eq, additional]

theorem isSome_additional_refill {children : Subschemas σ}
    (length : results.length = children.visits.length) :
    (children.refill results).additional.isSome = children.additional.isSome := by
  rw [Bool.eq_iff_iff, isSome_additional, isSome_additional, visits_refill length,
    List.map_fst_zip (by simp [length])]

end

end Subschemas

namespace SchemaBody

theorem rebuild_children (body : SchemaBody σ) : body.rebuild body.children = body := by
  cases body with
  | mk _ _ _ _ _ _ _ additional _ => cases additional <;> rfl

/-- A switch for additional properties stays, and a schema for them stays one. -/
theorem additional_rebuild_eq_allowed {body : SchemaBody σ} {children : Subschemas σ} {value : Bool} :
    (body.rebuild children).additional = .allowed value ↔ body.additional = .allowed value := by
  cases body with
  | mk _ _ _ _ _ _ _ additional _ =>
      cases additional <;> cases replacement : children.additional <;> simp [rebuild, replacement]

end SchemaBody

namespace Schema

/-- The node with results in the place of its sub-schemas, unless they are the same objects. -/
def replaced (schema : Schema) (results : List Schema) : Option (SchemaBody Schema) :=
  if results.map id = schema.body.children.list.map id then none
  else some (schema.body.rebuild (schema.body.children.refill results))

variable {schema : Schema} {results : List Schema}

theorem map_numbers (visits : List (Slot × Schema)) :
    visits.map (fun (slot, child) => (slot, child.id)) =
      (visits.map Prod.fst).zip ((visits.map Prod.snd).map id) := by
  refine List.zip_of_prod ?_ ?_ <;> simp [Function.comp_def]

theorem sameObjects_refill {children : Subschemas Schema}
    (length : results.length = children.visits.length) :
    sameObjects children (children.refill results) = true ↔
      results.map id = children.list.map id := by
  have slots : (children.visits.map Prod.fst).length = results.length := by simp [length]
  rw [sameObjects, beq_iff_eq, Subschemas.visits_refill length, map_numbers, map_numbers,
    List.map_fst_zip (Nat.le_of_eq slots), List.map_snd_zip (Nat.le_of_eq slots.symm)]
  constructor
  · intro same
    have seconds := congrArg (List.map Prod.snd) same
    rw [List.map_snd_zip (by simp), List.map_snd_zip (by simp [length])] at seconds
    exact seconds.symm
  · intro same
    rw [same]
    rfl

theorem mapChildren_eq_mapM {m : Type → Type} [Monad m] [LawfulMonad m]
    (visit : Slot → Schema → m Schema) (schema : Schema) :
    schema.mapChildren visit =
      schema.replaced <$> schema.body.children.visits.mapM fun (slot, child) => visit slot child := by
  rw [mapChildren, Subschemas.mapVisits_eq_mapM, map_eq_pure_bind, map_eq_pure_bind, bind_assoc]
  refine Subschemas.mapM_bind_congr fun results length => ?_
  simp only [pure_bind, replaced, sameObjects_refill length]

theorem replaced_eq_none :
    schema.replaced results = none ↔
      List.Forall₂ (fun visit result => result.id = visit.2.id) schema.body.children.visits
        results := by
  have numbers : schema.replaced results = none ↔
      results.map id = schema.body.children.list.map id := by
    rw [replaced]
    split <;> simp_all
  rw [numbers, ← List.forall₂_eq_eq_eq, Subschemas.list, List.map_map, List.forall₂_map_left_iff,
    List.forall₂_map_right_iff]
  exact ⟨List.Forall₂.flip, List.Forall₂.flip⟩

theorem eq_of_mem_replaced {after : SchemaBody Schema} (isAfter : after ∈ schema.replaced results) :
    after = schema.body.rebuild (schema.body.children.refill results) := by
  rw [replaced] at isAfter
  split at isAfter <;> cases isAfter
  rfl

/-- Replacing asks for each sub-schema of a node once: slot by slot in a fixed order, with the slot
whose segments name it, and whatever asking does beside.  The old node stays just where every answer
is the object that was there.  Otherwise there is a node with the answers in the same slots and the
rest as it was.  Taking a node apart and putting it together again changes neither the node nor
sub-schemas that fit it. -/
theorem mapChildren_replaces (schema : Schema) (distinct : (Table.names schema.body.properties).Nodup) :
    let body := schema.body
    let visits := body.children.visits
    visits.map Prod.fst =
        body.items.toList.map (fun _ => .items) ++ body.not.toList.map (fun _ => .not) ++
          body.additional.schema?.toList.map (fun _ => .additionalProperties) ++
          (List.range body.allOf.length).map .allOf ++ (List.range body.anyOf.length).map .anyOf ++
          (List.range body.oneOf.length).map .oneOf ++
          (Table.names body.properties).map .property ∧
      (visits.map Prod.fst).Nodup ∧
      (∀ slot child, (slot, child) ∈ visits ↔ body.children.child? slot = some child) ∧
      (∀ slot child, (slot, child) ∈ visits → schema.json.at? slot.segments = some child.json) ∧
      (∀ (m : Type → Type) [Monad m] [LawfulMonad m] (visit : Slot → Schema → m Schema),
        schema.mapChildren visit =
          schema.replaced <$> visits.mapM fun (slot, child) => visit slot child) ∧
      (∀ results : List Schema, results.length = visits.length →
        (schema.replaced results = none ↔
          List.Forall₂ (fun visit result => result.id = visit.2.id) visits results) ∧
        ∀ after ∈ schema.replaced results,
          after.children.visits = (visits.map Prod.fst).zip results ∧
            after.reference = body.reference ∧ after.keywords = body.keywords ∧
            ∀ value, after.additional = .allowed value ↔ body.additional = .allowed value) ∧
      body.rebuild body.children = body ∧
      ∀ children : Subschemas Schema,
        children.additional.isSome = body.children.additional.isSome →
          (body.rebuild children).children = children := by
  obtain ⟨id, body⟩ := schema
  refine ⟨body.children.slots_eq, Subschemas.nodup_slots distinct,
    fun _ _ => Subschemas.mem_visits_iff distinct, fun _ _ => at?_slot distinct,
    fun _ _ _ visit => mapChildren_eq_mapM visit _, fun results length => ⟨replaced_eq_none, ?_⟩,
    body.rebuild_children, fun _ => SchemaBody.children_rebuild⟩
  rintro after isAfter
  obtain rfl := eq_of_mem_replaced isAfter
  refine ⟨?_, rfl, rfl, fun _ => SchemaBody.additional_rebuild_eq_allowed⟩
  rw [SchemaBody.children_rebuild (Subschemas.isSome_additional_refill length)]
  exact Subschemas.visits_refill length

/-- A node with sub-schemas in slots of five kinds. -/
def branching : Schema :=
  .node 0 {
    items := some (.node 1 {})
    allOf := [.node 2 {}, .node 3 {}]
    properties := [("b", .node 4 {}), ("a", .node 5 {})]
    additional := .schema (.node 6 {})
    keywords := [("type", .string "object")] }

/-- Writes down what it is asked for, and has another schema for the second part of an `allOf`. -/
def swapping (slot : Slot) (child : Schema) : StateM (List Slot) Schema := do
  modify (· ++ [slot])
  return if slot = .allOf 1 then .node 7 (.typed "null") else child

theorem mapChildren_replaces_branching :
    (Table.names branching.body.properties).Nodup ∧
      (branching.mapChildren swapping).run [] =
        (some { branching.body with allOf := [.node 2 {}, .node 7 (.typed "null")] },
          [.items, .additionalProperties, .allOf 0, .allOf 1, .property "b", .property "a"]) := by
  have distinct : (Table.names branching.body.properties).Nodup := by decide
  obtain ⟨_, _, _, _, asks, _⟩ := mapChildren_replaces branching distinct
  refine ⟨distinct, ?_⟩
  rw [asks]
  rfl

end Schema

end ApiLinker
