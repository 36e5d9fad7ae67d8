import ApiLinker.Linking.Expansion
import ApiLinker.Proofs.Linking.Cycles
import ApiLinker.Proofs.Schema.Tree

/-!
Which locators can be reached by following pointers.

`Lookup.Leads` is the graph that pointers make of the registered locators.  Its cycles are what
`LocatorGraph.isCyclic` finds.
-/

namespace ApiLinker

namespace Lookup

/-- A local pointer somewhere in the schema of one locator has the other for its locator. -/
def Leads (lookup : Lookup) (source target : String) : Prop :=
  ∃ schema, lookup.registry.get? source = some schema ∧
    ∃ pointer ∈ schema.pointers, Reference.isExternal { pointer } = false ∧
      Locator.ofPointer lookup.authority pointer = target

/-- Following pointers leads from a locator back to it. -/
def Cyclic (lookup : Lookup) (locator : String) : Prop :=
  Relation.TransGen lookup.Leads locator locator

theorem not_cyclic_of_pointers_nil {lookup : Lookup} {locator : String} {schema : Schema}
    (registered : lookup.registry.get? locator = some schema) (bare : schema.pointers = []) :
    ¬ lookup.Cyclic locator := by
  intro cyclic
  obtain ⟨_, ⟨other, isOther, pointer, member, _⟩, _⟩ := Relation.TransGen.head'_iff.mp cyclic
  cases registered.symm.trans isOther
  rw [bare] at member
  cases member

end Lookup

theorem Table.find?_map {κ : Type} [DecidableEq κ] (change : α → β) (name : κ)
    (table : List (κ × α)) :
    Table.find? name (table.map fun (key, value) => (key, change value)) =
      (Table.find? name table).map change := by
  induction table with
  | nil => rfl
  | cons entry rest ih => by_cases same : entry.1 = name <;> simp [Table.find?, same, ih]

theorem Table.mem_of_find? {κ : Type} [DecidableEq κ] {name : κ} {value : α} {table : List (κ × α)}
    (found : Table.find? name table = some value) : (name, value) ∈ table := by
  induction table with
  | nil => cases found
  | cons entry rest ih =>
      by_cases same : entry.1 = name
      · simp only [Table.find?, same, ↓reduceIte, Option.some.injEq] at found
        simp [← same, ← found]
      · simp only [Table.find?, same, ↓reduceIte] at found
        exact List.mem_cons_of_mem _ (ih found)

theorem Schema.mem_targets {authority target : String} {schema : Schema} :
    target ∈ schema.targets authority ↔
      ∃ pointer ∈ schema.pointers, Reference.isExternal { pointer } = false ∧
        Locator.ofPointer authority pointer = target := by
  simp [targets, and_assoc]

namespace LocatorGraph

theorem targets_ofRegistry (authority : String) (registry : Registry) (locator : String) :
    targets (.ofRegistry authority registry) locator =
      ((registry.get? locator).map (Schema.targets authority)).getD [] := by
  simp only [targets, ofRegistry]
  rw [Table.find?_map]
  rfl

end LocatorGraph

namespace Lookup

variable {lookup : Lookup}

/-- The links of a lookup are those of its registry. -/
def Linked (lookup : Lookup) : Prop :=
  lookup.links = .ofRegistry lookup.authority lookup.registry

theorem linked_ofRegistry (registry : Registry) (settings : Settings) :
    (ofRegistry registry settings).Linked := rfl

theorem mem_targets_iff (linked : lookup.Linked) {source target : String} :
    target ∈ lookup.links.targets source ↔ lookup.Leads source target := by
  rw [linked, LocatorGraph.targets_ofRegistry, Leads]
  cases lookup.registry.get? source with
  | none => simp
  | some schema => simp [Schema.mem_targets]

theorem linked_eq (linked : lookup.Linked) : lookup.links.Linked = lookup.Leads :=
  funext fun _ => funext fun _ => propext (mem_targets_iff linked)

/-- The search for cycles answers whether there is one. -/
theorem isCyclic_iff (linked : lookup.Linked) {locator : String} :
    lookup.links.isCyclic locator = true ↔ lookup.Cyclic locator := by
  rw [LocatorGraph.isCyclic_iff_transGen, linked_eq linked, Cyclic]

end Lookup

end ApiLinker
