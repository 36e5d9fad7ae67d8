import ApiLinker.Proofs.Linking.WellFormed

/-!
Linking expands schemas.
-/

namespace ApiLinker.Linker

/-- After a walk every schema in reach is, in structure, the plain expansion of the schema it was,
whatever was expanded before it and stored.  There is exactly one plain expansion. -/
theorem walk_expands (graph : Graph) (document : Document) (settings : Settings)
    (wellFormed : graph.WellFormed document) :
    let linker := ofDocument (.ofDocument graph document) document settings
    let laterGraph := (linker.walk graph document).2.1
    let later := (linker.walk graph document).2.2
    (∃! expand, linker.lookup.IsExpansion expand) ∧
      ∀ expand, linker.lookup.IsExpansion expand →
        Walked {
          edge := fun _ _ _ => True
          tag := fun _ _ => True
          schema := fun before after => after.contents = expand before }
          graph document laterGraph later := by
  intro linker laterGraph later
  have linked : linker.lookup.Linked := linked_ofDocument
  have unique : ∀ expand, linker.lookup.IsExpansion expand → expand = linker.lookup.expansion :=
    fun expand isExpansion => isExpansion.eq_expansion linked
  refine ⟨⟨_, Lookup.isExpansion_expansion linked, unique⟩, fun expand isExpansion => ?_⟩
  rw [unique expand isExpansion]
  obtain ⟨_, laterNodes, _, _, _, toured⟩ := toured_of_wellFormed (.ofDocument graph document)
    settings wellFormed
  refine toured.walked.imp ?_
  intro held result allowed
  cases allowed with
  | edge => exact .edge trivial
  | tag => exact .tag trivial
  | schema expands => exact .schema expands.2
  | namedSchema expands => exact .namedSchema expands.2

theorem walk_expands_aliased :
    let linker := ofDocument (.ofDocument { schemaCount := 2 } .aliased) .aliased {}
    ∀ expand, linker.lookup.IsExpansion expand →
      Walked {
        edge := fun _ _ _ => True
        tag := fun _ _ => True
        schema := fun before after => after.contents = expand before }
        { schemaCount := 2 } .aliased (linker.walk { schemaCount := 2 } .aliased).2.1
        (linker.walk { schemaCount := 2 } .aliased).2.2 :=
  (walk_expands { schemaCount := 2 } .aliased {} Document.wellFormed_aliased).2

end ApiLinker.Linker
