import ApiLinker.Proofs.Schema.Registered
import ApiLinker.Proofs.Schema.Sharing

/-!
Schemas with nothing left to replace.

A schema whose exposed pointers all stay is expanded to itself, the very same object.  What is
stored on the way are named schemas under their own names, and those are found by no pointer that
stays.
-/

namespace ApiLinker

namespace Schema

/-- Every pointer that could be replaced stays. -/
def Settled (lookup : Lookup) (schema : Schema) : Prop :=
  ∀ pointer ∈ schema.exposed, lookup.Stays pointer

/-- What has the structure of an expansion is settled. -/
theorem settled_of_contents {lookup : Lookup} (linked : lookup.Linked) {before after : Schema}
    (same : after.contents = lookup.expansion before) : after.Settled lookup := by
  intro pointer isExposed
  have inExpansion : pointer ∈ (lookup.expansion before).exposed := by
    rwa [← same, exposed_contents]
  exact Lookup.stays_of_exposed_expansion linked inExpansion

/-- A schema is settled if expanding it changes nothing in it. -/
theorem settled_iff {lookup : Lookup} (linked : lookup.Linked) {schema : Schema} :
    schema.Settled lookup ↔ lookup.expansion schema = schema.contents := by
  constructor
  · intro settled
    induction schema using induct with
    | node id body ih =>
        cases points : body.reference with
        | some pointer =>
            have stays := settled pointer (by rw [exposed_pointer points, List.mem_singleton])
            exact Lookup.expansion_stays points ((Lookup.target?_eq_none_iff linked).mpr stays)
        | none =>
            have same : body.map lookup.expansion = body.map contents :=
              SchemaBody.map_congr fun child member =>
                ih child member (Lookup.exposed_of_child points member settled)
            rw [Lookup.expansion_plain points, contents_node, same]
  · intro same
    exact settled_of_contents linked same.symm

end Schema

namespace Lookup

/-- Nothing is stored but named schemas under their names. -/
def StoresNamed (lookup : Lookup) (schemas : Table Schema) (expanded : Table Schema) : Prop :=
  ∀ locator schema, Table.find? locator expanded = some schema →
    ∃ name, locator = Locator.ofPointer lookup.authority (Registry.componentPointer name) ∧
      (name, schema) ∈ schemas

/-- The rules for expansions that change nothing.  The store may grow. -/
def still (lookup : Lookup) (schemas : Table Schema) (schemaCount replaced : Nat) :
    Rules Unit Expansion where
  grows _ _ := True
  refl _ := trivial
  trans _ _ := trivial
  describes _ state := state.schemaCount = schemaCount ∧ state.replaced = replaced ∧
    lookup.StoresNamed schemas state.expanded

variable {lookup : Lookup} {schemas : Table Schema} {schemaCount replaced : Nat}
variable {state : Expansion}

/-- A pointer that stays is followed to nothing, also where something is stored. -/
theorem yields_follow_stays (linked : lookup.Linked)
    (registered : ∀ entry ∈ schemas, ∃ schema, lookup.registry.get?
      (Locator.ofPointer lookup.authority (Registry.componentPointer entry.1)) = some schema)
    (described : (lookup.still schemas schemaCount replaced).describes () state) (depth : Nat)
    (path : List String) {pointer : String} (stays : lookup.Stays pointer) :
    (lookup.still schemas schemaCount replaced).Yields (lookup.follow depth path pointer)
      (fun _ result => result = none) () state := by
  have misses : lookup.target? pointer = none := (target?_eq_none_iff linked).mpr stays
  cases depth with
  | zero => exact Rules.yields_pure described rfl
  | succ depth =>
      refine yields_follow_succ described (fun _ => described) (fun _ => rfl)
        (fun known target found => ?_) fun schema found => ?_
      · obtain ⟨name, same, member⟩ := described.2.2 _ known found
        obtain ⟨schema, isRegistered⟩ := registered _ member
        rw [misses, same, isRegistered] at target
        cases target
      · cases misses.symm.trans found

variable {follow : List String → String → Expanding (Option Schema)}

/-- A schema stays the object it is if none of its exposed pointers is followed. -/
theorem yields_expandWith_still {schema : Schema}
    (followed : ∀ pointer ∈ schema.exposed, ∀ path state,
      (lookup.still schemas schemaCount replaced).describes () state →
      (lookup.still schemas schemaCount replaced).Yields (follow path pointer)
        (fun _ result => result = none) () state)
    (described : (lookup.still schemas schemaCount replaced).describes () state)
    (path : List String) :
    (lookup.still schemas schemaCount replaced).Yields (schema.expandWith follow path)
      (fun _ result => result = schema) () state := by
  refine Schema.yields_expandWith_of (R := fun _ before after => after = before)
    (F := fun _ _ result => result = none) (fun _ _ => True) (fun _ _ _ _ _ same => same)
    (fun _ _ _ _ _ => trivial) (fun _ _ _ _ _ _ => trivial) (fun _ _ _ _ _ _ _ => rfl) nofun
    (fun _ state id body children plain _ described related => ?_)
    (fun pointer isExposed path _ => followed pointer isExposed path) trivial described path
  have unchanged : body.children = children :=
    Subschemas.Rel.eq (related.imp_of_mem fun _ _ _ same => same.symm)
  rw [← unchanged, if_pos (Schema.sameObjects_self _)]
  exact Rules.yields_pure described rfl

section

variable (linked : lookup.Linked)
    (registered : ∀ entry ∈ schemas, ∃ schema, lookup.registry.get?
      (Locator.ofPointer lookup.authority (Registry.componentPointer entry.1)) = some schema)
include linked registered

theorem yields_expand_settled
    (described : (lookup.still schemas schemaCount replaced).describes () state)
    {schema : Schema} (settled : schema.Settled lookup) (path : List String) :
    (lookup.still schemas schemaCount replaced).Yields (lookup.expand schema path)
      (fun _ result => result = schema) () state :=
  yields_expandWith_still (fun pointer isExposed path _ described =>
      yields_follow_stays linked registered described _ path (settled pointer isExposed))
    described path

theorem yields_expandNamed_settled (distinct : schemas.names.Nodup)
    (described : (lookup.still schemas schemaCount replaced).describes () state) {name : String}
    {schema : Schema} (member : (name, schema) ∈ schemas) (settled : schema.Settled lookup)
    (path : List String) :
    (lookup.still schemas schemaCount replaced).Yields (lookup.expandNamed name schema path)
      (fun _ result => result = schema) () state := by
  rw [Rules.Yields, expandNamed, Schema.expandNamedWith_eq]
  cases known : Table.find? (Locator.ofPointer lookup.authority (Registry.componentPointer name))
      state.expanded with
  | some result =>
      obtain ⟨other, same, otherIn⟩ := described.2.2 _ result known
      have segments := Locator.ofPointer_injective same
      simp only [List.cons.injEq, true_and, and_true] at segments
      subst segments
      exact ⟨(), trivial, described, Table.eq_of_mem_of_nodup distinct otherIn member⟩
  | none =>
      obtain ⟨_, _, ⟨count, replaced, stores⟩, same⟩ :=
        yields_expand_settled linked registered described settled path
      refine ⟨(), trivial, ⟨count, replaced, fun locator other found => ?_⟩, same⟩
      by_cases here : locator = Locator.ofPointer lookup.authority (Registry.componentPointer name)
      · subst here
        rw [Table.find?_insert_self] at found
        cases found
        refine ⟨name, rfl, ?_⟩
        rw [expand] at same
        rwa [same]
      · rw [Table.find?_insert_of_ne here] at found
        exact stores locator other found

end

end Lookup

end ApiLinker
