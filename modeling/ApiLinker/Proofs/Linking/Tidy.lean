import ApiLinker.Proofs.Linking.Rebuilt

/-!
Documents that are done after one run.

Where pointers have nothing beside them and name schemas of the document as a whole, the names that
are registered and the cycles among them are the same after a run as before, so that whatever
stayed will stay.
-/

namespace ApiLinker

namespace Schema

/-- No pointer lies beneath another, and each is external or names a schema of the document. -/
structure Tidy (schema : Schema) : Prop where
  alone : ∀ pointer ∈ schema.pointers, pointer ∈ schema.exposed
  whole : ∀ pointer ∈ schema.pointers,
    Reference.isExternal { pointer } = true ∨ ∃ name, pointer = Registry.componentPointer name

end Schema

/-- What the expansion of schemas depends on where these are the named ones. -/
abbrev Lookup.ofSchemas (schemas : Table Schema) (settings : Settings) : Lookup :=
  .ofRegistry (.ofSchemas settings.schemaAuthority schemas) settings

section

/-! What was settled when the tables were made stays so when they are made again. -/

variable {schemas laterSchemas : Table Schema} {settings : Settings}
variable (distinct : schemas.names.Nodup) (tidy : ∀ entry ∈ schemas, entry.2.Tidy)
    (expanded : Table.Rel
      (fun before after => after.contents = (Lookup.ofSchemas schemas settings).expansion before)
      schemas laterSchemas)
include distinct tidy expanded

/-- A pointer to a locator on a cycle is in the schema as long as it is under its name. -/
theorem leads_after {name target : String}
    (leads : (Lookup.ofSchemas schemas settings).Leads
      (Locator.ofPointer settings.schemaAuthority (Registry.componentPointer name)) target)
    (cyclic : (Lookup.ofSchemas schemas settings).Cyclic target) :
    (Lookup.ofSchemas laterSchemas settings).Leads
        (Locator.ofPointer settings.schemaAuthority (Registry.componentPointer name)) target ∧
      ∃ other, target =
        Locator.ofPointer settings.schemaAuthority (Registry.componentPointer other) := by
  obtain ⟨schema, registered, pointer, inSchema, isLocal, rfl⟩ := leads
  have named := Registry.mem_of_get?_componentPointer registered
  have isTidy := tidy _ named
  obtain ⟨⟨_, later⟩, isLater, rfl, same⟩ := ListRel.exists_of_mem_left expanded named
  have inLater : pointer ∈ later.pointers := by
    have stays := Lookup.exposed_expansion_of_stays (Lookup.linked_ofRegistry _ _)
      (isTidy.alone pointer inSchema) (.inr (.inr cyclic))
    rw [← same, Schema.exposed_contents] at stays
    exact Schema.pointers_of_exposed _ stays
  have laterDistinct : laterSchemas.names.Nodup := expanded.names_eq ▸ distinct
  have laterFound :
      (Lookup.ofSchemas laterSchemas settings).registry.get?
        (Locator.ofPointer settings.schemaAuthority (Registry.componentPointer name)) =
      some later :=
    Registry.get?_ofSchemas laterDistinct isLater
  refine ⟨⟨later, laterFound, pointer, inLater, isLocal, rfl⟩, ?_⟩
  rcases isTidy.whole pointer inSchema with isExternal | ⟨other, rfl⟩
  · cases isLocal.symm.trans isExternal
  · exact ⟨other, rfl⟩

theorem cyclic_after {name : String}
    (cyclic : (Lookup.ofSchemas schemas settings).Cyclic
      (Locator.ofPointer settings.schemaAuthority (Registry.componentPointer name))) :
    (Lookup.ofSchemas laterSchemas settings).Cyclic
      (Locator.ofPointer settings.schemaAuthority (Registry.componentPointer name)) := by
  -- Whatever lies between the locator and itself is on the cycle too, and has a name.
  suffices between : ∀ locator,
      Relation.TransGen (Lookup.ofSchemas schemas settings).Leads
        (Locator.ofPointer settings.schemaAuthority (Registry.componentPointer name)) locator →
      Relation.ReflTransGen (Lookup.ofSchemas schemas settings).Leads locator
        (Locator.ofPointer settings.schemaAuthority (Registry.componentPointer name)) →
      Relation.TransGen (Lookup.ofSchemas laterSchemas settings).Leads
        (Locator.ofPointer settings.schemaAuthority (Registry.componentPointer name)) locator ∧
        ∃ other, locator =
          Locator.ofPointer settings.schemaAuthority (Registry.componentPointer other) from
    (between _ cyclic .refl).1
  intro locator behind
  induction behind with
  | single leads =>
      intro ahead
      have onCycle := Relation.TransGen.tail' ahead leads
      obtain ⟨leadsAfter, named⟩ := leads_after distinct tidy expanded leads onCycle
      exact ⟨.single leadsAfter, named⟩
  | tail behind leads ih =>
      intro ahead
      obtain ⟨behindAfter, middle, rfl⟩ := ih (.head leads ahead)
      have onCycle := (Relation.TransGen.trans_right ahead behind).tail leads
      obtain ⟨leadsAfter, named⟩ := leads_after distinct tidy expanded leads onCycle
      exact ⟨behindAfter.tail leadsAfter, named⟩

theorem stays_after {pointer : String}
    (whole : Reference.isExternal { pointer } = true ∨
      ∃ name, pointer = Registry.componentPointer name)
    (stays : (Lookup.ofSchemas schemas settings).Stays pointer) :
    (Lookup.ofSchemas laterSchemas settings).Stays pointer := by
  rcases whole with isExternal | ⟨name, rfl⟩
  · exact .inl isExternal
  rcases stays with isExternal | missing | cyclic
  · exact .inl isExternal
  · refine .inr (.inl ?_)
    cases found : (Registry.ofSchemas settings.schemaAuthority laterSchemas).get?
        (Locator.ofPointer settings.schemaAuthority (Registry.componentPointer name)) with
    | none => exact found
    | some later =>
        have isLater := Registry.mem_of_get?_componentPointer found
        obtain ⟨⟨_, schema⟩, named, rfl, _⟩ := ListRel.exists_of_mem_right expanded isLater
        cases missing.symm.trans (Registry.get?_ofSchemas distinct named)
  · exact .inr (.inr (cyclic_after distinct tidy expanded cyclic))

end

/-- Where all pointers of a well-formed document are tidy, a second run changes nothing. -/
theorem Document.link_twice_of_tidy (graph : Graph) (document : Document) (settings : Settings)
    (wellFormed : graph.WellFormed document)
    (tidy : ∀ schema, graph.HoldsSchema document schema → schema.Tidy) :
    let first := (document.link graph settings).2
    (first.2.link first.1 settings).2 = first := by
  intro first
  obtain ⟨_, _, _, _, _, toured⟩ :=
    Linker.toured_of_wellFormed (.ofDocument graph document) settings wellFormed
  have wellFormedFirst : first.1.WellFormed first.2 :=
    wellFormed_link graph document settings wellFormed
  have named : ∀ entry ∈ document.namedObjects.schemas, entry.2.Tidy := fun entry member =>
    tidy entry.2 ⟨_, .root (holds_of_mem_schemas member), rfl⟩
  refine Linker.link_eq_of_settled toured wellFormedFirst fun held schema shows isSchema => ?_
  obtain ⟨origin, has, allowed⟩ := toured.walked.shown_before shows
  obtain ⟨before, wasSchema, expands⟩ := allowed.schema_before isSchema
  intro pointer isExposed
  rw [← Schema.exposed_contents, expands.2] at isExposed
  have linked : (Lookup.ofSchemas document.namedObjects.schemas settings).Linked :=
    Lookup.linked_ofRegistry _ _
  have stays := Lookup.stays_of_exposed_expansion linked isExposed
  have whole : Reference.isExternal { pointer } = true ∨
      ∃ name, pointer = Registry.componentPointer name := by
    rcases Lookup.pointers_of_exposed_expansion linked isExposed with
      inside | ⟨_, target, found, inside⟩
    · exact (tidy before ⟨origin, has, wasSchema⟩).whole pointer inside
    · obtain ⟨entry, member, isNode⟩ := Registry.mem_nodes_of_get?_ofSchemas found
      exact (named entry member).whole pointer (Schema.pointers_of_mem_nodes isNode inside)
  have expanded := schemas_link graph document settings wellFormed
  exact stays_after wellFormed.names named expanded whole stays

end ApiLinker
