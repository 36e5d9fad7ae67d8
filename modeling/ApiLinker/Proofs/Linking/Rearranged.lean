import ApiLinker.Proofs.Linking.Renamed
import ApiLinker.Proofs.Linking.Site

/-!
Tours through documents in another order.

Which entity is entered first, and from where, depends on the order of the places.  Which entities
are entered does not: each stop of one tour has a counterpart in the other
(`Graph.Reorders.stop_after`, `Graph.Reorders.stop_before`), by induction on the way to it.  So the
two tours stop at the same things, in whatever order (`Graph.Reorders.tour_permuted`).
-/

namespace ApiLinker

open ListRel

namespace Graph

/-- A tour stops at what its holders hold, whatever is in between. -/
theorem helds_of_tour (graph : Graph) (index : Index) (document : Document) :
    ((graph.tour index [] document).1.map Stop.held).Perm
      (Place.helds document.places ++
        (graph.tour index [] document).2.flatMap fun id => Place.helds (graph.placesOf id)) := by
  have all : ((graph.holders index [] document).flatMap fun holder =>
      stopsOf holder (graph.tour index [] document).1).Perm (graph.tour index [] document).1 :=
    perm_flatMap_filter Stop.holder (nodup_holders graph index [] document) fun _ => holder_of_stop
  have parts : ((graph.holders index [] document).flatMap fun holder =>
      stopsOf holder (graph.tour index [] document).1).map Stop.held =
        (graph.holders index [] document).flatMap fun holder =>
          Place.helds (holder.places graph document) := by
    rw [List.map_flatMap]
    refine List.flatMap_congr fun holder member => ?_
    obtain ⟨base, _, stops⟩ := stopsOf_holder member
    rw [stops, Holder.map_held_stops]
  have same := all.symm.map Stop.held
  rw [parts, holders, List.filter_eq_self.mpr (by simp), List.flatMap_cons, List.flatMap_map] at same
  exact same

namespace Reorders

variable {f : EntityId → EntityId} {graph otherGraph : Graph} {document other : Document}
variable {index otherIndex : Index}
variable (reorders : graph.Reorders f document otherGraph other)
  (renames : index.Renames f otherIndex)
include reorders renames

omit reorders in
theorem leadsTo?_eq {stop counterpart : Stop}
    (allowed : (Change.renaming f).Allows stop.held counterpart.held) :
    counterpart.leadsTo? otherIndex = (stop.leadsTo? index).map f := by
  rw [Stop.leadsTo?, Stop.leadsTo?]
  generalize stop.held = held, counterpart.held = after at allowed
  cases allowed with
  | @edge category edge _ same =>
      subst same
      simp only [renames.link, Edge.target?_rename]
  | tag | schema | namedSchema => rfl

omit reorders in
theorem leads_after {stop counterpart : Stop} {id : EntityId}
    (allowed : (Change.renaming f).Allows stop.held counterpart.held)
    (leads : stop.leadsTo? index = some id) : counterpart.leadsTo? otherIndex = some (f id) := by
  rw [leadsTo?_eq renames allowed, leads, Option.map_some]

omit reorders in
theorem leads_before {stop : Stop} (counterpart : Stop) {target : EntityId}
    (allowed : (Change.renaming f).Allows stop.held counterpart.held)
    (leads : counterpart.leadsTo? otherIndex = some target) :
    ∃ id, stop.leadsTo? index = some id ∧ f id = target := by
  rwa [leadsTo?_eq renames allowed, Option.map_eq_some_iff] at leads

theorem entered_of_leads (stop : Stop) {counterpart : Stop} {id : EntityId}
    (met : counterpart ∈ (otherGraph.tour otherIndex [] other).1)
    (allowed : (Change.renaming f).Allows stop.held counterpart.held)
    (leads : stop.leadsTo? index = some id) (present : id < graph.size) :
    f id ∈ (otherGraph.tour otherIndex [] other).2 := by
  obtain ⟨_, found, _⟩ := reorders.entity_after (Array.getElem?_eq_getElem present)
  exact entered_of_stop met (leads_after renames allowed leads) (lt_size_of_entity? found)

theorem stop_after : ∀ stop ∈ (graph.tour index [] document).1,
    ∃ counterpart ∈ (otherGraph.tour otherIndex [] other).1,
      (Change.renaming f).Allows stop.held counterpart.held := by
  refine held_of_stop (P := fun held => ∃ counterpart ∈ (otherGraph.tour otherIndex [] other).1,
    (Change.renaming f).Allows held counterpart.held) ?_ ?_
  · intro held holds
    obtain ⟨after, holdsToo, allowed⟩ := reorders.root.held_after holds
    obtain ⟨stop, met, rfl⟩ := stop_of_document_holds holdsToo
    exact ⟨stop, met, allowed⟩
  · intro category edge id entity counterpart leads _ found held holds
    obtain ⟨counterpart, met, allowed⟩ := counterpart
    have entered := reorders.entered_of_leads renames ⟨.document, [], .edge category edge⟩ met
      allowed leads (lt_size_of_entity? found)
    obtain ⟨_, foundToo, related⟩ := reorders.entity_after found
    obtain ⟨after, holdsToo, allowed⟩ := related.held_after holds
    obtain ⟨stop, met, rfl⟩ := stop_of_entity_holds entered List.not_mem_nil foundToo holdsToo
    exact ⟨stop, met, allowed⟩

theorem stop_before : ∀ counterpart ∈ (otherGraph.tour otherIndex [] other).1,
    ∃ stop ∈ (graph.tour index [] document).1,
      (Change.renaming f).Allows stop.held counterpart.held := by
  refine held_of_stop (P := fun after => ∃ stop ∈ (graph.tour index [] document).1,
    (Change.renaming f).Allows stop.held after) ?_ ?_
  · intro after holds
    obtain ⟨held, holdsToo, allowed⟩ := reorders.root.held_before holds
    obtain ⟨stop, met, rfl⟩ := stop_of_document_holds holdsToo
    exact ⟨stop, met, allowed⟩
  · intro category edge target entity origin leads _ found after holds
    obtain ⟨stop, met, allowed⟩ := origin
    obtain ⟨id, leadsToo, rfl⟩ :=
      leads_before renames ⟨.document, [], .edge category edge⟩ allowed leads
    obtain ⟨_, foundToo, related⟩ := reorders.entity_before found
    have entered := entered_of_stop met leadsToo (lt_size_of_entity? foundToo)
    obtain ⟨held, holdsToo, allowed⟩ := related.held_before holds
    obtain ⟨stop, met, rfl⟩ := stop_of_entity_holds entered List.not_mem_nil foundToo holdsToo
    exact ⟨stop, met, allowed⟩

theorem mem_entered_iff {target : EntityId} :
    target ∈ (otherGraph.tour otherIndex [] other).2 ↔
      ∃ id ∈ (graph.tour index [] document).2, f id = target := by
  constructor
  · intro entered
    obtain ⟨counterpart, met, leads, _⟩ := stopsOf_entity entered List.not_mem_nil
    obtain ⟨stop, met, allowed⟩ := reorders.stop_before renames counterpart met
    obtain ⟨id, leadsToo, rfl⟩ := leads_before renames counterpart allowed leads
    obtain ⟨_, found, _⟩ := reorders.entity_before
      (Array.getElem?_eq_getElem (Linker.lt_size_of_entered entered))
    exact ⟨id, entered_of_stop met leadsToo (lt_size_of_entity? found), rfl⟩
  · rintro ⟨id, entered, rfl⟩
    obtain ⟨stop, met, leads, _⟩ := stopsOf_entity entered List.not_mem_nil
    obtain ⟨counterpart, met, allowed⟩ := reorders.stop_after renames stop met
    exact reorders.entered_of_leads renames stop met allowed leads
      (Linker.lt_size_of_entered entered)

/-- The same entities are entered. -/
theorem entered_iff {id : EntityId} :
    f id ∈ (otherGraph.tour otherIndex [] other).2 ↔ id ∈ (graph.tour index [] document).2 := by
  rw [reorders.mem_entered_iff renames]
  constructor
  · rintro ⟨origin, entered, same⟩
    exact reorders.injective same ▸ entered
  · exact fun entered => ⟨id, entered, rfl⟩

theorem entered_perm : ((graph.tour index [] document).2.map f).Perm
    (otherGraph.tour otherIndex [] other).2 := by
  have distinct := Linker.nodup_entered graph index document
  refine (List.perm_ext_iff_of_nodup (distinct.map reorders.injective)
    (Linker.nodup_entered otherGraph otherIndex other)).mpr fun target => ?_
  rw [List.mem_map, reorders.mem_entered_iff renames]

omit renames in
theorem placesOf_permuted (id : EntityId) :
    Permuted (Change.renaming f).Allows (Place.helds (graph.placesOf id))
      (Place.helds (otherGraph.placesOf (f id))) := by
  have related := reorders.entity id
  simp only [placesOf]
  cases found : graph.entity? id <;> cases foundToo : otherGraph.entity? (f id) <;>
    rw [found, foundToo] at related <;> cases related
  · exact permuted_nil
  · rename_i related
    exact related.helds

/-- The tours stop at the same things. -/
theorem tour_permuted : Permuted (Change.renaming f).Allows
    ((graph.tour index [] document).1.map Stop.held)
    ((otherGraph.tour otherIndex [] other).1.map Stop.held) := by
  have entered : Permuted (fun id target => f id = target) (graph.tour index [] document).2
      (otherGraph.tour otherIndex [] other).2 :=
    (permuted_of_forall₂ (ListRel.map _ fun _ _ => rfl)).perm_of (reorders.entered_perm renames)
  have inside := entered.flatMap (f := fun id => Place.helds (graph.placesOf id))
    (g := fun id => Place.helds (otherGraph.placesOf id)) (S := (Change.renaming f).Allows) <| by
      rintro id _ rfl
      exact reorders.placesOf_permuted id
  exact ((reorders.root.helds.append inside).of_perm (helds_of_tour graph index document)).perm_of
    (helds_of_tour otherGraph otherIndex other).symm

end Reorders

end Graph

end ApiLinker
