import ApiLinker.Linking.Walk
import ApiLinker.Proofs.Linking.Relinking
import ApiLinker.Proofs.Search

/-!
The stops of a tour, holder by holder.

A tour stops at every place of the document, and for each entity that it enters at every place of
that entity, once and in order.  It enters each entity that a stop leads to.
-/

namespace ApiLinker

def Stop.owner? (stop : Stop) : Option EntityId :=
  match stop.holder with
  | .document => none
  | .entity id => some id

def Holder.owner? : Holder → Option EntityId
  | .document => none
  | .entity id => some id

theorem Holder.map_held_stops (holder : Holder) (path : List String) (places : List Place) :
    (holder.stops path places).map Stop.held = Place.helds places := by
  simp [stops, Place.helds, Function.comp_def]

theorem Holder.holder_of_mem_stops {holder : Holder} {path : List String} {places : List Place}
    {stop : Stop} (member : stop ∈ holder.stops path places) : stop.holder = holder := by
  obtain ⟨place, _, rfl⟩ := List.mem_map.mp member
  rfl

theorem Holder.held_of_mem_stops {holder : Holder} {path : List String} {places : List Place}
    {stop : Stop} (member : stop ∈ holder.stops path places) : stop.held ∈ Place.helds places := by
  rw [← map_held_stops holder path]
  exact List.mem_map.mpr ⟨stop, member, rfl⟩

theorem Stop.owner?_eq_iff {stop : Stop} {holder : Holder} :
    stop.owner? = holder.owner? ↔ stop.holder = holder := by
  cases stop with
  | mk stopHolder path held =>
      cases stopHolder <;> cases holder <;> simp [owner?, Holder.owner?]

theorem Stop.leadsTo?_eq_some {index : Index} {stop : Stop} {id : EntityId} :
    stop.leadsTo? index = some id ↔ ∃ category edge, stop.held = .edge category edge ∧
      (index.link category edge).target? = some id := by
  rw [leadsTo?]
  cases stop.held with
  | edge => simp
  | tag | schema | namedSchema => simp

namespace Graph

variable {graph : Graph} {index : Index} {already : List EntityId} {document : Document}

theorem runs_tour (graph : Graph) (index : Index) (already : List EntityId) (document : Document) :
    (graph.tourSearch index).Runs already (Holder.document.stops [] document.places)
      (graph.tour index already document).1 (graph.tour index already document).2 :=
  Search.runs_run _ _ _

theorem owner?_of_mem_contents (stop : Stop) (id : EntityId) :
    ∀ inner ∈ (graph.tourSearch index).contents stop id, inner.owner? = some id := by
  intro inner member
  change inner.owner? = (Holder.entity id).owner?
  exact Stop.owner?_eq_iff.mpr (Holder.holder_of_mem_stops member)

def stopsOf (holder : Holder) (stops : List Stop) : List Stop :=
  stops.filter fun stop => stop.holder = holder

theorem stopsOf_eq (holder : Holder) (stops : List Stop) :
    stopsOf holder stops = stops.filter fun stop => stop.owner? = holder.owner? := by
  simp only [stopsOf, Stop.owner?_eq_iff]

theorem stopsOf_document (graph : Graph) (index : Index) (already : List EntityId)
    (document : Document) :
    stopsOf .document (graph.tour index already document).1 =
      Holder.document.stops [] document.places := by
  have none : ∀ key, (Holder.document.owner? : Option EntityId) = some key →
      key ∈ already ∨ key ∉ (graph.tour index already document).2 := by
    intro key same
    cases same
  rw [stopsOf_eq,
    (runs_tour graph index already document).filter_of_not_entered owner?_of_mem_contents none]
  refine List.filter_eq_self.mpr fun stop member => ?_
  simp [Stop.owner?_eq_iff, Holder.holder_of_mem_stops member]

/-- An entity that was not entered before is entered from one stop that leads to it. -/
theorem stopsOf_entity {already : List EntityId} {id : EntityId}
    (entered : id ∈ (graph.tour index already document).2) (isNew : id ∉ already) :
    ∃ stop ∈ (graph.tour index already document).1, stop.leadsTo? index = some id ∧
      stopsOf (.entity id) (graph.tour index already document).1 =
        (Holder.entity id).stops stop.path (graph.placesOf id) := by
  have unowned : ∀ stop ∈ Holder.document.stops [] document.places, ∀ key,
      stop.owner? = some key → key ∈ already := by
    intro stop member key same
    rw [Stop.owner?, Holder.holder_of_mem_stops member] at same
    cases same
  have runs := runs_tour graph index already document
  obtain ⟨stop, met, leads, found⟩ :=
    runs.filter_of_entered owner?_of_mem_contents unowned entered isNew
  exact ⟨stop, met, leads, by rw [stopsOf_eq]; exact found⟩

/-- A tour stops at all that the document holds. -/
theorem stop_of_document_holds {held : Held} (holds : document.Holds held) :
    ∃ stop ∈ (graph.tour index already document).1, stop.held = held := by
  have member := Document.holds_iff.mp holds
  rw [← Holder.map_held_stops .document []] at member
  obtain ⟨stop, member, same⟩ := List.mem_map.mp member
  exact ⟨stop, (runs_tour graph index already document).items_visited stop member, same⟩

/-- A tour stops at all that an entity holds which it enters. -/
theorem stop_of_entity_holds {id : EntityId} {entity : Entity} {held : Held}
    (entered : id ∈ (graph.tour index already document).2) (isNew : id ∉ already)
    (found : graph.entity? id = some entity) (holds : entity.Holds held) :
    ∃ stop ∈ (graph.tour index already document).1, stop.held = held := by
  obtain ⟨opener, _, _, stops⟩ := stopsOf_entity entered isNew
  have member := Entity.holds_iff.mp holds
  have places : graph.placesOf id = entity.places := by rw [placesOf, found]; rfl
  rw [← places, ← Holder.map_held_stops (.entity id) opener.path, ← stops] at member
  obtain ⟨stop, member, same⟩ := List.mem_map.mp member
  exact ⟨stop, (List.mem_filter.mp member).1, same⟩

theorem entered_of_stop {stop : Stop} {id : EntityId}
    (met : stop ∈ (graph.tour index already document).1) (leads : stop.leadsTo? index = some id)
    (present : id < graph.size) : id ∈ (graph.tour index already document).2 :=
  (runs_tour graph index already document).met_opened met leads (List.mem_range.mpr present)

theorem holds_of_mem_placesOf {id : EntityId} {held : Held}
    (member : held ∈ Place.helds (graph.placesOf id)) :
    ∃ entity, graph.entity? id = some entity ∧ entity.Holds held := by
  rw [placesOf] at member
  cases found : graph.entity? id with
  | none => simp [found] at member
  | some entity =>
      rw [found] at member
      exact ⟨entity, rfl, Entity.holds_iff.mpr member⟩

/-- What is held at the stops of a tour is held by the document, or by an entity that a stop at
something so held leads to. -/
theorem held_of_stop {P : Held → Prop} (start : ∀ held, document.Holds held → P held)
    (step : ∀ category edge id entity, P (.edge category edge) →
      (index.link category edge).target? = some id → id ∉ already →
      graph.entity? id = some entity → ∀ held, entity.Holds held → P held) :
    ∀ stop ∈ (graph.tour index already document).1, P stop.held := by
  refine (runs_tour graph index already document).visited_of (P := fun stop => P stop.held) ?_ ?_
  · intro stop member
    exact start _ (Document.holds_iff.mpr (Holder.held_of_mem_stops member))
  · intro stop id holds leads _ isNew inner member
    obtain ⟨entity, found, inside⟩ := holds_of_mem_placesOf (Holder.held_of_mem_stops member)
    obtain ⟨category, edge, held, target⟩ := Stop.leadsTo?_eq_some.mp leads
    exact step category edge id entity (held ▸ holds) target isNew found _ inside

end Graph

end ApiLinker
