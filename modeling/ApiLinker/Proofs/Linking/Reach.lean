import ApiLinker.Proofs.Linking.Walk

/-!
Walking reaches everything.

The entities that a walk enters are those that can be reached from the document afterwards, so the
walk leaves nothing out and touches nothing else.
-/

namespace ApiLinker

open ApiLinker.Graph

namespace Linker

variable {linker : Linker} {graph laterGraph : Graph} {document later : Document}
variable {R : Schema → Schema → Prop} {id : EntityId}

namespace Toured

variable (toured : linker.Toured (linker.change laterGraph R) graph document laterGraph later)
include toured

/-- No entity that can be reached is left out. -/
theorem entered_of_reaches (reaches : laterGraph.Reaches later id) (present : id < graph.size) :
    id ∈ (graph.tour linker.index [] document).2 := by
  induction reaches with
  | root holds leads =>
      obtain ⟨origin, held, allowed⟩ := toured.root.held_before holds
      cases allowed with
      | edge links =>
          obtain ⟨stop, met, same⟩ := stop_of_document_holds held
          refine entered_of_stop met ?_ present
          rw [Stop.leadsTo?, same, ← leads, links.eq_link]
  | @step id target entity category edge _ found holds leads ih =>
      by_cases known : id < graph.size
      · obtain ⟨before, old⟩ : ∃ before, graph.entity? id = some before :=
          ⟨_, Array.getElem?_eq_getElem known⟩
        obtain ⟨after, isAfter, changes⟩ := toured.entered id (ih known) before old
        cases found.symm.trans isAfter
        obtain ⟨origin, held, allowed⟩ := changes.held_before holds
        cases allowed with
        | edge links =>
            obtain ⟨stop, met, same⟩ := stop_of_entity_holds (ih known) List.not_mem_nil old held
            refine entered_of_stop met ?_ present
            rw [Stop.leadsTo?, same, ← leads, links.eq_link]
      · have new : graph.entity? id = none :=
          Array.getElem?_eq_none_iff.mpr (Nat.le_of_not_lt known)
        obtain ⟨_, tag, rfl⟩ := toured.added id entity new found
        cases holds

theorem reaches_of_stop {stop : Stop} (met : stop ∈ (graph.tour linker.index [] document).1)
    (leads : stop.leadsTo? linker.index = some id) : laterGraph.Reaches later id := by
  suffices ahead : ∀ category edge target, stop.held = .edge category edge →
      (linker.index.link category edge).target? = some target → laterGraph.Reaches later target by
    obtain ⟨category, edge, held, target⟩ := Stop.leadsTo?_eq_some.mp leads
    exact ahead category edge id held target
  refine held_of_stop (P := fun held => ∀ category edge target, held = .edge category edge →
      (linker.index.link category edge).target? = some target → laterGraph.Reaches later target)
    ?_ ?_ stop met
  · intro held holds category edge target same leads
    subst same
    obtain ⟨result, heldAfter, allowed⟩ := toured.root.held_after holds
    cases allowed with
    | edge links => exact .root heldAfter (links.eq_link ▸ leads)
  · intro category edge id entity outer leads _ found held inside innerCategory inner target same
      leadsOn
    subst same
    have reached := outer category edge id rfl leads
    have entered := toured.entered_of_reaches reached (lt_size_of_entity? found)
    obtain ⟨after, isAfter, changes⟩ := toured.entered id entered entity found
    obtain ⟨result, heldAfter, allowed⟩ := changes.held_after inside
    cases allowed with
    | edge links => exact .step reached isAfter heldAfter (links.eq_link ▸ leadsOn)

theorem reaches_of_entered (entered : id ∈ (graph.tour linker.index [] document).2) :
    laterGraph.Reaches later id := by
  rcases (runs_tour graph linker.index [] document).opened_by entered with
    never | ⟨_, stop, met, leads, _⟩
  · cases never
  · exact toured.reaches_of_stop met leads

/-- Whatever is shown afterwards has come of something at a stop. -/
theorem stop_of_shown {held : Held} (shows : laterGraph.Shows later held) :
    ∃ stop ∈ (graph.tour linker.index [] document).1,
      (linker.change laterGraph R).Allows stop.held held := by
  cases shows with
  | root holds =>
      obtain ⟨origin, before, allowed⟩ := toured.root.held_before holds
      obtain ⟨stop, met, rfl⟩ := stop_of_document_holds before
      exact ⟨stop, met, allowed⟩
  | @inside id entity reached found holds =>
      cases old : graph.entity? id with
      | none =>
          obtain ⟨_, tag, rfl⟩ := toured.added id entity old found
          cases holds
      | some before =>
          have entered := toured.entered_of_reaches reached (lt_size_of_entity? old)
          obtain ⟨after, isAfter, changes⟩ := toured.entered id entered before old
          cases found.symm.trans isAfter
          obtain ⟨origin, held, allowed⟩ := changes.held_before holds
          obtain ⟨stop, met, rfl⟩ := stop_of_entity_holds entered List.not_mem_nil old held
          exact ⟨stop, met, allowed⟩

/-- What is known of everything toured is known of all that can be reached. -/
theorem walked_of {change : Change}
    (known : linker.Toured change graph document laterGraph later) :
    Walked change graph document laterGraph later where
  root := known.root
  reached id before reaches found :=
    known.entered id (toured.entered_of_reaches reaches (lt_size_of_entity? found)) before found
  untouched id before unreached found :=
    known.kept id before (fun entered => unreached (toured.reaches_of_entered entered)) found
  added id entity missing found := (known.added id entity missing found).2

theorem walked : Walked (linker.change laterGraph R) graph document laterGraph later :=
  toured.walked_of toured

end Toured

end Linker

end ApiLinker
