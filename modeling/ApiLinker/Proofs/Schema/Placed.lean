import ApiLinker.Proofs.Json.Digits
import ApiLinker.Proofs.Schema.Reading
import ApiLinker.Proofs.Schema.Reordered

/-!
Where the schemas of a document are registered.

The properties of a schema have different names, so no two of its positions have one pointer, and a
locator has the schema at the one position that it is the locator of.  Registering the schemas in
another order makes no difference.
-/

namespace ApiLinker

/-- The path of a sub-schema tells its slot. -/
theorem Slot.eq_of_append_eq {slot other : Slot} {path rest : List String}
    (same : slot.segments ++ path = other.segments ++ rest) : slot = other := by
  cases slot <;> cases other <;>
    simp only [Slot.segments, List.cons_append, List.cons.injEq, String.reduceEq, false_and,
      true_and] at same
  case allOf.allOf => exact congrArg Slot.allOf (Json.toString_injective same.1)
  case anyOf.anyOf => exact congrArg Slot.anyOf (Json.toString_injective same.1)
  case oneOf.oneOf => exact congrArg Slot.oneOf (Json.toString_injective same.1)
  case property.property => exact congrArg Slot.property same.1
  all_goals rfl

namespace Subschemas

theorem map_fst_numbered (slot : Nat → Slot) (list : List σ) :
    (numbered slot list).map Prod.fst = (List.range list.length).map slot := by
  rw [numbered, List.map_map, List.range_eq_range', ← List.zipIdx_map_snd 0 list, List.map_map]
  rfl

/-- No two sub-schemas are in one slot. -/
theorem nodup_slots {children : Subschemas σ} (distinct : children.properties.names.Nodup) :
    (children.visits.map Prod.fst).Nodup := by
  have single : ∀ (slot : Slot) (option : Option σ),
      ((option.toList.map (slot, ·)).map Prod.fst).Nodup := by
    intro slot option
    cases option <;> simp
  have numbered : ∀ (slot : Nat → Slot) (list : List σ), Function.Injective slot →
      ((numbered slot list).map Prod.fst).Nodup := by
    intro slot list injective
    rw [map_fst_numbered]
    exact List.nodup_range.map injective
  have properties : ((children.properties.map fun entry => (Slot.property entry.1, entry.2)).map
      Prod.fst).Nodup := by
    have slots := distinct.map fun _ _ same => Slot.property.inj same
    simpa [Table.names, Function.comp_def] using slots
  simp only [visits, List.map_append]
  refine ((((((single _ _).append (single _ _) ?_).append (single _ _) ?_).append
    (numbered _ _ fun _ _ => Slot.allOf.inj) ?_).append
    (numbered _ _ fun _ _ => Slot.anyOf.inj) ?_).append
    (numbered _ _ fun _ _ => Slot.oneOf.inj) ?_).append properties ?_ <;>
  · intro slot inFirst inSecond
    simp [map_fst_numbered] at inFirst inSecond
    grind

end Subschemas

namespace Schema

/-- No two positions in a schema have one pointer. -/
theorem nodup_positions {schema : Schema} (distinct : schema.Distinct) (base : List String) :
    (Table.names (schema.positions (Pointer.ofSegments base))).Nodup := by
  induction distinct generalizing base with
  | @node id body properties _ _ ih =>
      rw [positions_node]
      simp only [Table.names, List.map_cons, List.map_flatMap, ← Pointer.ofSegments_append]
      have placed : ∀ (slot : Slot) (child : Schema) (pointer : String),
          pointer ∈ (child.positions (Pointer.ofSegments (base ++ slot.segments))).map Prod.fst →
          ∃ path, pointer = Pointer.ofSegments (base ++ (slot.segments ++ path)) := by
        intro slot child pointer member
        obtain ⟨position, isPosition, rfl⟩ := List.mem_map.mp member
        obtain ⟨_, path, place, _⟩ := mem_positions isPosition
        exact ⟨path, by rw [place, List.append_assoc]⟩
      refine List.nodup_cons.mpr ⟨fun member => ?_, List.nodup_flatMap.mpr ⟨?_, ?_⟩⟩
      · obtain ⟨⟨slot, child⟩, _, member⟩ := List.mem_flatMap.mp member
        obtain ⟨path, same⟩ := placed slot child _ member
        have longer := Pointer.ofSegments_injective same
        simp [slot.segments_ne_nil] at longer
      · rintro ⟨slot, child⟩ visit
        exact ih child (List.mem_map.mpr ⟨_, visit, rfl⟩) _
      · refine (List.pairwise_map.mp (Subschemas.nodup_slots properties)).imp ?_
        rintro ⟨slot, child⟩ ⟨otherSlot, other⟩ different pointer inFirst inSecond
        obtain ⟨path, rfl⟩ := placed slot child _ inFirst
        obtain ⟨rest, same⟩ := placed otherSlot other _ inSecond
        have same := List.append_cancel_left (Pointer.ofSegments_injective same)
        exact different (Slot.eq_of_append_eq same)

end Schema

namespace Registry

variable {authority : String} {schemas others : Table Schema}

theorem mem_positions {pointer : String} {schema : Schema}
    (member : (pointer, schema) ∈ positions schemas) :
    ∃ segments, pointer = Pointer.ofSegments segments := by
  obtain ⟨_, _, inside⟩ := List.mem_flatMap.mp member
  obtain ⟨_, path, place, _⟩ := Schema.mem_positions inside
  exact ⟨_, place⟩

theorem nodup_positions (names : schemas.names.Nodup)
    (distinct : ∀ entry ∈ schemas, entry.2.Distinct) : (Table.names (positions schemas)).Nodup := by
  simp only [Table.names, positions, List.map_flatMap]
  refine List.nodup_flatMap.mpr ⟨fun entry member => ?_, ?_⟩
  · exact Schema.nodup_positions (distinct entry member) _
  · refine (List.pairwise_map.mp names).imp ?_
    rintro ⟨name, schema⟩ ⟨otherName, other⟩ different pointer inFirst inSecond
    obtain ⟨position, member, rfl⟩ := List.mem_map.mp inFirst
    obtain ⟨otherPosition, otherMember, same⟩ := List.mem_map.mp inSecond
    obtain ⟨_, path, place, _⟩ := Schema.mem_positions member
    obtain ⟨_, rest, otherPlace, _⟩ := Schema.mem_positions otherMember
    rw [place, otherPlace] at same
    have segments := Pointer.ofSegments_injective same
    simp only [List.cons_append, List.nil_append, List.cons.injEq, true_and] at segments
    exact different segments.1.symm

/-- What is registered is what is found at the position with that locator. -/
theorem get?_eq_some_iff (distinct : (Table.names (positions schemas)).Nodup) {locator : String}
    {schema : Schema} :
    (ofSchemas authority schemas).get? locator = some schema ↔
      ∃ pointer, (pointer, schema) ∈ positions schemas ∧
        Locator.ofPointer authority pointer = locator := by
  rw [get?, ofSchemas_eq]
  constructor
  · intro found
    have origin := Table.find?_foldl_insert
      (fun entry : String × Schema => Locator.ofPointer authority entry.1) Prod.snd found
    rcases origin with never | ⟨position, isPosition, same, rfl⟩
    · cases never
    · exact ⟨position.1, isPosition, same⟩
  · rintro ⟨pointer, isPosition, rfl⟩
    have found := Table.find?_foldl_insert_of_mem
      (fun entry : String × Schema => Locator.ofPointer authority entry.1) Prod.snd [] isPosition
    refine found fun position otherPosition same => ?_
    obtain ⟨segments, place⟩ := mem_positions isPosition
    obtain ⟨otherSegments, otherPlace⟩ := @mem_positions schemas _ _ otherPosition
    simp only [place, otherPlace] at same
    refine Table.eq_of_mem_of_nodup distinct otherPosition ?_
    rwa [otherPlace, Locator.ofPointer_injective same, ← place]

theorem positions_reorders (reorders : Table.Reorders Schema.Reorders schemas others) :
    Table.Reorders Schema.Reorders (positions schemas) (positions others) := by
  refine ListRel.Permuted.flatMap reorders ?_
  rintro ⟨name, schema⟩ ⟨_, other⟩ ⟨rfl, reorders⟩
  exact reorders.positions _

/-- Every locator has schemas that are the same but for their order. -/
theorem get?_reorders (names : schemas.names.Nodup)
    (distinct : ∀ entry ∈ schemas, entry.2.Distinct)
    (reorders : Table.Reorders Schema.Reorders schemas others) (locator : String) :
    Option.Rel Schema.Reorders ((ofSchemas authority schemas).get? locator)
      ((ofSchemas authority others).get? locator) := by
  have related := positions_reorders reorders
  have nodup := nodup_positions names distinct
  have nodupToo := related.names_perm.nodup_iff.mp nodup
  cases found : (ofSchemas authority schemas).get? locator with
  | some schema =>
      obtain ⟨pointer, member, same⟩ := (get?_eq_some_iff nodup).mp found
      obtain ⟨other, memberToo, reorders⟩ := related.exists_of_mem_left member
      rw [(get?_eq_some_iff nodupToo).mpr ⟨pointer, memberToo, same⟩]
      exact .some reorders
  | none =>
      cases foundToo : (ofSchemas authority others).get? locator with
      | none => exact .none
      | some other =>
          obtain ⟨pointer, member, same⟩ := (get?_eq_some_iff nodupToo).mp foundToo
          obtain ⟨schema, memberToo, _⟩ := related.exists_of_mem_right member
          rw [(get?_eq_some_iff nodup).mpr ⟨pointer, memberToo, same⟩] at found
          cases found

end Registry

end ApiLinker
