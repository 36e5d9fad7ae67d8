import ApiLinker.Proofs.Linking.Reach

/-!
Linking is sound and complete.
-/

namespace ApiLinker

/-- Rules by which nothing is known about schemas. -/
def Rules.trivial : Rules Unit Expansion where
  grows _ _ := True
  refl _ := True.intro
  trans _ _ := True.intro
  describes _ _ := True

namespace Linker

theorem expandable_trivial (linker : Linker) (stops : List Stop) :
    linker.Expandable Rules.trivial (fun _ _ _ => True) () stops where
  blind _ _ _ _ _ := trivial
  stable _ _ _ _ _ _ := trivial
  slot _ _ _ _ _ _ _ _ := ⟨(), trivial, trivial, trivial⟩
  named _ _ _ _ _ _ _ _ _ := ⟨(), trivial, trivial, trivial⟩

/-- One walk by a fresh linker links exactly the edges that the index can resolve.  Wherever an edge
is found afterwards, the edge there before was the same one, or it was a placeholder and the index
has what it is now linked to; and no placeholder is left that the index could resolve. -/
theorem walk_links (graph : Graph) (document : Document) (registry : Registry)
    (settings : Settings) :
    let index := Index.ofDocument graph document
    let linker := Linker.new index registry settings
    let laterGraph := (linker.walk graph document).2.1
    let later := (linker.walk graph document).2.2
    Walked {
      edge := index.Links
      tag := if settings.synthesizeMissingTags then linker.LinksTag laterGraph
        else index.Links .tags
      schema := fun _ _ => True } graph document laterGraph later ∧
    (∀ category reference, laterGraph.Shows later (.edge category (.placeholder reference)) →
      reference.isExternal = true ∨ ∃ problem, index.resolve category reference = .error problem) ∧
    (∀ reference, laterGraph.Shows later (.tag (.placeholder reference)) →
      reference.isExternal = true ∨
        ∃ problem, index.resolve .tags reference = .error problem) := by
  intro index linker laterGraph later
  obtain ⟨_, _, _, toured⟩ := toured_of_expandable linker graph document rfl rfl
    (linker.expandable_trivial _) trivial
  have walked := toured.walked
  refine ⟨walked.imp ?_, fun category reference shows => ?_, fun reference shows => ?_⟩
  · intro held result allowed
    cases allowed with
    | edge links => exact .edge links
    | tag links =>
        refine .tag ?_
        cases synthesizes : settings.synthesizeMissingTags with
        | true => exact links
        | false => exact links.links_of_not_synthesizing synthesizes
    | schema holds => exact .schema holds
    | namedSchema holds => exact .namedSchema holds
  · obtain ⟨origin, _, allowed⟩ := walked.shown_before shows
    cases allowed with
    | edge links => exact links.unresolved
  · obtain ⟨origin, _, allowed⟩ := walked.shown_before shows
    cases allowed with
    | tag links => exact links.unresolved

end Linker

end ApiLinker
