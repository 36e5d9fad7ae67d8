import ApiLinker.Proofs.Linking.Asked
import ApiLinker.Proofs.Schema.Placed

/-!
Look-ups that find corresponding schemas.

Where two registries have corresponding schemas under each locator, with the same pointers in them,
the same pointers are followed and the same ones stay, the same locators are opened, and what is
wrong with a pointer is the same.  Schemas that are the same but for their order then have expansions
of which the same is true.
-/

namespace ApiLinker

open ListRel

/-- Under each locator one look-up has a schema that corresponds to what the other has there. -/
structure Lookup.Corresponds (R : Schema → Schema → Prop) (lookup other : Lookup) : Prop where
  authority : other.authority = lookup.authority
  strict : other.strict = lookup.strict
  registry : ∀ locator, Option.Rel R (lookup.registry.get? locator) (other.registry.get? locator)
  pointers : ∀ {before after}, R before after → before.pointers.Perm after.pointers
  exposed : ∀ {before after}, R before after → before.exposed.Perm after.exposed

namespace Lookup.Corresponds

variable {R : Schema → Schema → Prop} {lookup other : Lookup}

theorem flip (corresponds : lookup.Corresponds R other) :
    other.Corresponds (fun after before => R before after) lookup where
  authority := corresponds.authority.symm
  strict := corresponds.strict.symm
  registry locator := OptionRel.flip (corresponds.registry locator)
  pointers holds := (corresponds.pointers holds).symm
  exposed holds := (corresponds.exposed holds).symm

theorem leads (corresponds : lookup.Corresponds R other) {source target : String}
    (leads : lookup.Leads source target) : other.Leads source target := by
  obtain ⟨schema, registered, pointer, member, isLocal, same⟩ := leads
  have related := corresponds.registry source
  rw [registered] at related
  obtain ⟨after, found, holds⟩ := OptionRel.exists_of_mem_left related rfl
  exact ⟨after, found, pointer, (corresponds.pointers holds).mem_iff.mp member, isLocal,
    by rw [corresponds.authority, same]⟩

theorem cyclic_iff (corresponds : lookup.Corresponds R other) {locator : String} :
    lookup.Cyclic locator ↔ other.Cyclic locator :=
  ⟨Relation.TransGen.mono (fun _ _ => corresponds.leads) _ _,
    Relation.TransGen.mono (fun _ _ => corresponds.flip.leads) _ _⟩

variable (linked : lookup.Linked) (linkedToo : other.Linked)
include linked linkedToo

theorem target?_rel (corresponds : lookup.Corresponds R other) (pointer : String) :
    Option.Rel R (lookup.target? pointer) (other.target? pointer) := by
  have cyclic : lookup.links.isCyclic (Locator.ofPointer lookup.authority pointer) =
      other.links.isCyclic (Locator.ofPointer lookup.authority pointer) := by
    rw [Bool.eq_iff_iff, isCyclic_iff linked, isCyclic_iff linkedToo]
    exact corresponds.cyclic_iff
  rw [target?, target?, corresponds.authority, cyclic]
  split
  · exact .none
  · exact corresponds.registry _

omit linked linkedToo in
theorem problem?_eq (corresponds : lookup.Corresponds R other) (pointer : String) :
    other.problem? pointer = lookup.problem? pointer := by
  rw [problem?, problem?, corresponds.authority, corresponds.strict]
  have related := corresponds.registry (Locator.ofPointer lookup.authority pointer)
  cases before : lookup.registry.get? (Locator.ofPointer lookup.authority pointer) <;>
    cases after : other.registry.get? (Locator.ofPointer lookup.authority pointer) <;>
    rw [before, after] at related <;> cases related

/-- What is looked into corresponds to something that is looked into. -/
theorem looks (corresponds : lookup.Corresponds R other) {offered offeredToo : Schema → Prop}
    (related : ∀ schema, offered schema → ∃ after, offeredToo after ∧ R schema after)
    {schema : Schema} (looks : lookup.Looks offered schema) :
    ∃ after, other.Looks offeredToo after ∧ R schema after := by
  induction looks with
  | offered isOffered =>
      obtain ⟨after, isOfferedToo, holds⟩ := related _ isOffered
      exact ⟨after, .offered isOfferedToo, holds⟩
  | @followed schema target pointer _ isExposed found ih =>
      obtain ⟨after, looks, holds⟩ := ih
      have targets := corresponds.target?_rel linked linkedToo pointer
      rw [found] at targets
      obtain ⟨result, foundToo, becomes⟩ := OptionRel.exists_of_mem_left targets rfl
      exact ⟨result, .followed looks ((corresponds.exposed holds).mem_iff.mp isExposed) foundToo,
        becomes⟩

/-- The same locators are opened. -/
theorem opens (corresponds : lookup.Corresponds R other) {offered offeredToo : Schema → Prop}
    (related : ∀ schema, offered schema → ∃ after, offeredToo after ∧ R schema after)
    {locator : String} (opens : lookup.Opens offered locator) : other.Opens offeredToo locator := by
  obtain ⟨schema, pointer, target, looks, isExposed, found, same⟩ := opens
  obtain ⟨after, looksToo, holds⟩ := corresponds.looks linked linkedToo related looks
  have targets := corresponds.target?_rel linked linkedToo pointer
  rw [found] at targets
  obtain ⟨result, foundToo, _⟩ := OptionRel.exists_of_mem_left targets rfl
  exact ⟨after, pointer, result, looksToo, (corresponds.exposed holds).mem_iff.mp isExposed,
    foundToo, by rw [corresponds.authority, same]⟩

end Lookup.Corresponds

/-- Schemas that are the same but for their order have such expansions. -/
theorem Schema.Reorders.expansion {lookup other : Lookup}
    (corresponds : lookup.Corresponds Schema.Reorders other) (linked : lookup.Linked)
    (linkedToo : other.Linked) {before after : Schema} (reorders : before.Reorders after) :
    (lookup.expansion before).Reorders (other.expansion after) := by
  induction before using Lookup.induct_expansion linked generalizing after with
  | stays id body pointer points stays =>
      cases after with
      | node otherId rest =>
          have pointsToo := (reorders_node.mp reorders).reference.symm.trans points
          have staysToo : other.target? pointer = none := by
            have targets := corresponds.target?_rel linked linkedToo pointer
            rw [stays] at targets
            generalize other.target? pointer = result at targets
            cases targets
            rfl
          rw [Lookup.expansion_stays points stays, Lookup.expansion_stays pointsToo staysToo]
          exact reorders.contents
  | followed id body pointer target points found ih =>
      cases after with
      | node otherId rest =>
          have pointsToo := (reorders_node.mp reorders).reference.symm.trans points
          have targets := corresponds.target?_rel linked linkedToo pointer
          rw [found] at targets
          obtain ⟨result, foundToo, becomes⟩ := OptionRel.exists_of_mem_left targets rfl
          rw [Lookup.expansion_followed linked points found,
            Lookup.expansion_followed linkedToo pointsToo foundToo]
          exact ih becomes
  | inside id body plain ih =>
      cases after with
      | node otherId rest =>
          have bodies := reorders_node.mp reorders
          have plainToo := bodies.reference.symm.trans plain
          rw [Lookup.expansion_plain plain, Lookup.expansion_plain plainToo, reorders_node]
          exact SchemaBody.reorders_map_iff.mpr
            (bodies.imp_of_mem fun child member _ => ih child member)

/-- Registries made of the same schemas in another order correspond. -/
theorem Lookup.corresponds_ofSchemas {authority : String} {schemas others : Table Schema}
    {settings : Settings} (names : schemas.names.Nodup)
    (distinct : ∀ entry ∈ schemas, entry.2.Distinct)
    (reorders : Table.Reorders Schema.Reorders schemas others) :
    (Lookup.ofRegistry (.ofSchemas authority schemas) settings).Corresponds Schema.Reorders
      (.ofRegistry (.ofSchemas authority others) settings) where
  authority := rfl
  strict := rfl
  registry := Registry.get?_reorders names distinct reorders
  pointers := Schema.Reorders.pointers
  exposed := Schema.Reorders.exposed

end ApiLinker
