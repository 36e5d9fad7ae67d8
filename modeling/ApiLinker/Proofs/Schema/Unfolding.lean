import ApiLinker.Proofs.Schema.Reach
import Mathlib.Data.List.Perm.Subperm

/-!
The expansion of a schema, without sharing.

`Lookup.IsExpansion` says what it means to replace every pointer by the expansion of what it names.
There is exactly one function of this kind, `Lookup.expansion`: a chain of pointers that are
replaced never comes back to a locator, so it is no longer than there are registered schemas.
-/

namespace ApiLinker

namespace Lookup

variable (lookup : Lookup)

/-- A pointer stays in place if it is external, if nothing is registered under its locator, or if
its locator can be reached from itself. -/
def Stays (pointer : String) : Prop :=
  Reference.isExternal { pointer } = true ∨
    lookup.registry.get? (Locator.ofPointer lookup.authority pointer) = none ∨
    lookup.Cyclic (Locator.ofPointer lookup.authority pointer)

/-- The schema that a pointer gives way to, if it does not stay. -/
def target? (pointer : String) : Option Schema :=
  if Reference.isExternal { pointer } ||
      lookup.links.isCyclic (Locator.ofPointer lookup.authority pointer) then none
  else lookup.registry.get? (Locator.ofPointer lookup.authority pointer)

/-- `expand` replaces every pointer by the expansion of what it names, with all that stands beside
the pointer, and leaves the pointers that stay exactly as they are. -/
structure IsExpansion (expand : Schema → Schema) : Prop where
  stays : ∀ id (body : SchemaBody Schema) pointer, body.reference = some pointer →
    lookup.Stays pointer → expand (.node id body) = (Schema.node id body).contents
  followed : ∀ id (body : SchemaBody Schema) pointer target, body.reference = some pointer →
    ¬ lookup.Stays pointer →
    lookup.registry.get? (Locator.ofPointer lookup.authority pointer) = some target →
    expand (.node id body) = expand target
  inside : ∀ id (body : SchemaBody Schema), body.reference = none →
    expand (.node id body) = .node 0 (body.map expand)

/-- The expansion of a schema in which pointers are followed at most `depth` deep. -/
def unfold : (depth : Nat) → Schema → Schema
  | 0 => Schema.contents
  | depth + 1 => Schema.recurse fun schema body =>
      match body.reference with
      | some pointer =>
          match lookup.target? pointer with
          | some target => unfold depth target
          | none => schema.contents
      | none => .node 0 body

def expansion (schema : Schema) : Schema :=
  lookup.unfold lookup.depth schema

/-- Chains of pointers that are replaced, from this one on, have no more than `depth` links. -/
def Within : (depth : Nat) → (pointer : String) → Prop
  | 0, pointer => lookup.target? pointer = none
  | depth + 1, pointer => ∀ target, lookup.target? pointer = some target →
      ∀ inner ∈ target.exposed, Within depth inner

variable {lookup}

theorem target?_eq_none_iff (linked : lookup.Linked) {pointer : String} :
    lookup.target? pointer = none ↔ lookup.Stays pointer := by
  rw [target?, Stays, ← isCyclic_iff linked]
  cases Reference.isExternal { pointer } <;>
    cases lookup.links.isCyclic (Locator.ofPointer lookup.authority pointer) <;> simp

theorem target?_eq_some (linked : lookup.Linked) {pointer : String} {target : Schema}
    (found : lookup.target? pointer = some target) :
    Reference.isExternal { pointer } = false ∧
      ¬ lookup.Cyclic (Locator.ofPointer lookup.authority pointer) ∧
      lookup.registry.get? (Locator.ofPointer lookup.authority pointer) = some target := by
  rw [target?] at found
  rw [← isCyclic_iff linked]
  split at found
  · cases found
  · simp_all

theorem within_of_stays {pointer : String} (stays : lookup.target? pointer = none) (depth : Nat) :
    lookup.Within depth pointer := by
  cases depth with
  | zero => exact stays
  | succ depth =>
      intro target found
      cases stays.symm.trans found

theorem registered_of_get? {registry : Registry} {locator : String} {schema : Schema}
    (registered : registry.get? locator = some schema) : locator ∈ registry.schemas.names :=
  List.mem_map.mpr ⟨_, Table.mem_of_find? registered, rfl⟩

/-- `path` are locators followed already.  None of them comes again, so their number and the links
still to follow are together no more than the registered schemas. -/
theorem within_of_path (linked : lookup.Linked) (depth : Nat) {path : List String}
    (distinct : path.Nodup) (registered : ∀ locator ∈ path, locator ∈ lookup.registry.schemas.names)
    (room : lookup.registry.size ≤ path.length + depth) {pointer : String}
    (follows : ∀ locator ∈ path,
      Relation.TransGen lookup.Leads locator (Locator.ofPointer lookup.authority pointer)) :
    lookup.Within depth pointer := by
  induction depth generalizing path pointer with
  | zero =>
      rw [Within]
      cases found : lookup.target? pointer with
      | none => rfl
      | some target =>
          obtain ⟨_, acyclic, isRegistered⟩ := target?_eq_some linked found
          have fresh : Locator.ofPointer lookup.authority pointer ∉ path :=
            fun member => acyclic (follows _ member)
          have fits := (List.subperm_of_subset (List.nodup_cons.mpr ⟨fresh, distinct⟩)
            (List.cons_subset.mpr ⟨registered_of_get? isRegistered, registered⟩)).length_le
          simp only [List.length_cons, Table.names, List.length_map] at fits
          simp only [Registry.size] at room
          omega
  | succ depth ih =>
      intro target found inner isExposed
      obtain ⟨_, acyclic, isRegistered⟩ := target?_eq_some linked found
      cases isExternal : Reference.isExternal { pointer := inner } with
      | true => exact within_of_stays (by simp [target?, isExternal]) depth
      | false =>
          have leads : lookup.Leads (Locator.ofPointer lookup.authority pointer)
              (Locator.ofPointer lookup.authority inner) :=
            ⟨target, isRegistered, inner, Schema.pointers_of_exposed target isExposed,
              isExternal, rfl⟩
          have fresh : Locator.ofPointer lookup.authority pointer ∉ path :=
            fun member => acyclic (follows _ member)
          refine ih (List.nodup_cons.mpr ⟨fresh, distinct⟩) ?_ ?_ ?_
          · exact List.forall_mem_cons.mpr ⟨registered_of_get? isRegistered, registered⟩
          · simp only [List.length_cons]
            omega
          · refine List.forall_mem_cons.mpr ⟨.single leads, fun locator member => ?_⟩
            exact (follows locator member).tail leads

/-- No chain of pointers that are replaced is longer than there are registered schemas. -/
theorem within_size (linked : lookup.Linked) (pointer : String) :
    lookup.Within lookup.registry.size pointer :=
  within_of_path linked _ List.nodup_nil (by simp) (by simp) (by simp)

theorem unfold_pointer {depth id : Nat} {body : SchemaBody Schema} {pointer : String}
    (points : body.reference = some pointer) :
    lookup.unfold (depth + 1) (.node id body) = match lookup.target? pointer with
      | some target => lookup.unfold depth target
      | none => (Schema.node id body).contents := by
  rw [unfold, Schema.recurse_node]
  simp only [SchemaBody.reference_map, points]

theorem unfold_plain {depth id : Nat} {body : SchemaBody Schema} (plain : body.reference = none) :
    lookup.unfold (depth + 1) (.node id body) = .node 0 (body.map (lookup.unfold (depth + 1))) := by
  rw [unfold, Schema.recurse_node]
  simp only [SchemaBody.reference_map, plain]

theorem exposed_of_child {schema : Schema} {id : Nat} {body : SchemaBody Schema}
    (plain : body.reference = none) (member : schema ∈ body.children.list) {P : String → Prop}
    (each : ∀ pointer ∈ (Schema.node id body).exposed, P pointer) :
    ∀ pointer ∈ schema.exposed, P pointer := fun pointer isExposed =>
  each pointer ((Schema.mem_exposed_of_none plain).mpr ⟨schema, member, isExposed⟩)

/-- An expansion that follows its pointers to the end is the same at any greater depth. -/
theorem unfold_succ {depth : Nat} {schema : Schema}
    (within : ∀ pointer ∈ schema.exposed, lookup.Within depth pointer) :
    lookup.unfold (depth + 1) schema = lookup.unfold (depth + 2) schema := by
  induction depth generalizing schema with
  | zero =>
      induction schema using Schema.induct with
      | node id body ih =>
          cases points : body.reference with
          | some pointer =>
              have stays : lookup.target? pointer = none := within pointer
                (by rw [Schema.exposed_pointer points, List.mem_singleton])
              simp only [unfold_pointer points, stays]
          | none =>
              rw [unfold_plain points, unfold_plain points, SchemaBody.map_congr fun child member =>
                ih child member (exposed_of_child points member within)]
  | succ depth deeper =>
      induction schema using Schema.induct with
      | node id body ih =>
          cases points : body.reference with
          | some pointer =>
              have linksWithin := within pointer
                (by rw [Schema.exposed_pointer points, List.mem_singleton])
              rw [unfold_pointer points, unfold_pointer points]
              cases found : lookup.target? pointer with
              | none => rfl
              | some target => exact deeper (linksWithin target found)
          | none =>
              rw [unfold_plain points, unfold_plain points, SchemaBody.map_congr fun child member =>
                ih child member (exposed_of_child points member within)]

theorem expansion_stays {id : Nat} {body : SchemaBody Schema} {pointer : String}
    (points : body.reference = some pointer) (stays : lookup.target? pointer = none) :
    lookup.expansion (.node id body) = (Schema.node id body).contents := by
  rw [expansion, depth, unfold_pointer points, stays]

theorem expansion_followed (linked : lookup.Linked) {id : Nat} {body : SchemaBody Schema}
    {pointer : String} {target : Schema} (points : body.reference = some pointer)
    (found : lookup.target? pointer = some target) :
    lookup.expansion (.node id body) = lookup.expansion target := by
  rw [expansion, depth, unfold_pointer points, found, expansion, depth]
  have within := within_size linked pointer
  cases size : lookup.registry.size with
  | zero =>
      rw [size, Within, found] at within
      cases within
  | succ size' =>
      rw [size] at within
      exact unfold_succ (within target found)

theorem expansion_plain {id : Nat} {body : SchemaBody Schema} (plain : body.reference = none) :
    lookup.expansion (.node id body) = .node 0 (body.map lookup.expansion) :=
  unfold_plain plain

theorem isExpansion_expansion (linked : lookup.Linked) : lookup.IsExpansion lookup.expansion where
  stays id body pointer points stays :=
    expansion_stays points ((target?_eq_none_iff linked).mpr stays)
  followed id body pointer target points follows registered := by
    cases found : lookup.target? pointer with
    | none => exact absurd ((target?_eq_none_iff linked).mp found) follows
    | some other =>
        cases registered.symm.trans (target?_eq_some linked found).2.2
        exact expansion_followed linked points found
  inside id body plain := expansion_plain plain

/-- A property of schemas that goes over from what a pointer names to the pointer, and from
sub-schemas to the node around them, holds of every schema. -/
theorem induct_expansion (linked : lookup.Linked) {P : Schema → Prop}
    (stays : ∀ id (body : SchemaBody Schema) pointer, body.reference = some pointer →
      lookup.target? pointer = none → P (.node id body))
    (followed : ∀ id (body : SchemaBody Schema) pointer target, body.reference = some pointer →
      lookup.target? pointer = some target → P target → P (.node id body))
    (inside : ∀ id (body : SchemaBody Schema), body.reference = none →
      (∀ child ∈ body.children.list, P child) → P (.node id body))
    (schema : Schema) : P schema := by
  -- By the length of the chains of pointers, and where that is the same, by structure.
  suffices bounded : ∀ depth schema, (∀ pointer ∈ schema.exposed, lookup.Within depth pointer) →
      P schema from bounded _ schema fun pointer _ => within_size linked pointer
  intro depth
  induction depth with
  | zero =>
      intro schema within
      induction schema using Schema.induct with
      | node id body ih =>
          cases points : body.reference with
          | some pointer =>
              exact stays id body pointer points
                (within pointer (by rw [Schema.exposed_pointer points, List.mem_singleton]))
          | none =>
              exact inside id body points fun child member =>
                ih child member (exposed_of_child points member within)
  | succ depth deeper =>
      intro schema within
      induction schema using Schema.induct with
      | node id body ih =>
          cases points : body.reference with
          | some pointer =>
              cases found : lookup.target? pointer with
              | none => exact stays id body pointer points found
              | some target =>
                  exact followed id body pointer target points found (deeper target
                    (within pointer (by rw [Schema.exposed_pointer points, List.mem_singleton])
                      target found))
          | none =>
              exact inside id body points fun child member =>
                ih child member (exposed_of_child points member within)

/-- There is no other expansion. -/
theorem IsExpansion.eq_expansion (linked : lookup.Linked) {expand : Schema → Schema}
    (isExpansion : lookup.IsExpansion expand) : expand = lookup.expansion := by
  funext schema
  induction schema using induct_expansion linked with
  | stays id body pointer points stays =>
      rw [expansion_stays points stays,
        isExpansion.stays id body pointer points ((target?_eq_none_iff linked).mp stays)]
  | followed id body pointer target points found same =>
      have follows : ¬ lookup.Stays pointer := by
        simp [← target?_eq_none_iff linked, found]
      rw [expansion_followed linked points found, ← same]
      exact isExpansion.followed id body pointer target points follows
        (target?_eq_some linked found).2.2
  | inside id body plain same =>
      rw [expansion_plain plain, isExpansion.inside id body plain, SchemaBody.map_congr same]

/-- Every pointer that an expansion leaves exposed is one that stays. -/
theorem stays_of_exposed_expansion (linked : lookup.Linked) {schema : Schema} {pointer : String}
    (isExposed : pointer ∈ (lookup.expansion schema).exposed) : lookup.Stays pointer := by
  induction schema using induct_expansion linked with
  | stays id body target points stays =>
      rw [expansion_stays points stays, Schema.contents_node,
        Schema.exposed_pointer (by rw [SchemaBody.reference_map, points]),
        List.mem_singleton] at isExposed
      rw [isExposed]
      exact (target?_eq_none_iff linked).mp stays
  | followed id body target schema points found ih =>
      rw [expansion_followed linked points found] at isExposed
      exact ih isExposed
  | inside id body plain ih =>
      rw [expansion_plain plain,
        Schema.mem_exposed_of_none (by rw [SchemaBody.reference_map, plain]),
        SchemaBody.children_map, Subschemas.list_map] at isExposed
      obtain ⟨_, expanded, within⟩ := isExposed
      obtain ⟨child, member, rfl⟩ := List.mem_map.mp expanded
      exact ih child member within

/-- The pointers that an expansion leaves exposed were there before, in the schema or in one that is
registered. -/
theorem pointers_of_exposed_expansion (linked : lookup.Linked) {schema : Schema} {pointer : String}
    (isExposed : pointer ∈ (lookup.expansion schema).exposed) :
    pointer ∈ schema.pointers ∨
      ∃ locator target, lookup.registry.get? locator = some target ∧ pointer ∈ target.pointers := by
  induction schema using induct_expansion linked with
  | stays id body _ points stays =>
      rw [expansion_stays points stays, Schema.exposed_contents] at isExposed
      exact .inl (Schema.pointers_of_exposed _ isExposed)
  | followed id body _ target points found ih =>
      rw [expansion_followed linked points found] at isExposed
      rcases ih isExposed with inTarget | registered
      · exact .inr ⟨_, target, (target?_eq_some linked found).2.2, inTarget⟩
      · exact .inr registered
  | inside id body plain ih =>
      rw [expansion_plain plain,
        Schema.mem_exposed_of_none (by rw [SchemaBody.reference_map, plain]),
        SchemaBody.children_map, Subschemas.list_map] at isExposed
      obtain ⟨_, expanded, within⟩ := isExposed
      obtain ⟨child, member, rfl⟩ := List.mem_map.mp expanded
      refine (ih child member within).imp_left fun inChild => ?_
      exact Schema.mem_pointers_node.mpr (.inr ⟨child, member, inChild⟩)

/-- A pointer that stays is exposed after an expansion if it was before. -/
theorem exposed_expansion_of_stays (linked : lookup.Linked) {schema : Schema} {pointer : String}
    (isExposed : pointer ∈ schema.exposed) (stays : lookup.Stays pointer) :
    pointer ∈ (lookup.expansion schema).exposed := by
  induction schema using Schema.induct with
  | node id body ih =>
      cases points : body.reference with
      | some target =>
          rw [Schema.exposed_pointer points, List.mem_singleton] at isExposed
          subst isExposed
          rw [expansion_stays points ((target?_eq_none_iff linked).mpr stays),
            Schema.exposed_contents, Schema.exposed_pointer points]
          exact List.mem_singleton.mpr rfl
      | none =>
          obtain ⟨child, member, within⟩ := (Schema.mem_exposed_of_none points).mp isExposed
          rw [expansion_plain points,
            Schema.mem_exposed_of_none (by rw [SchemaBody.reference_map, points]),
            SchemaBody.children_map, Subschemas.list_map]
          exact ⟨_, List.mem_map_of_mem member, ih child member within⟩

end Lookup

end ApiLinker
