import ApiLinker.Proofs.Linking.Visiting

/-!
A walk by a fresh linker.

The answers to the stops of a tour go back to the holders they came from, so every holder that was
toured changes at each of its places as the answer for that place says.  All that can be reached
afterwards was toured.
-/

namespace ApiLinker

open ApiLinker.Graph

namespace Linker

section

/-! What relinking does to the entities of a graph. -/

variable {edges : EdgeMap} {results : List (Stop × Option Schema)} {graph : Graph}

theorem entity?_relinkEntity (graph : Graph) (id other : EntityId) :
    (relinkEntity edges results graph id).entity? other =
      if other = id then (graph.entity? id).map
        (Entity.relink edges (schemasFor (.entity id) results))
      else graph.entity? other := by
  rw [relinkEntity]
  cases found : graph.entity? id with
  | none =>
      by_cases same : other = id <;> simp [same, found]
  | some entity =>
      exact entity?_replace (lt_size_of_entity? found) _ _

/-- Each entity of the list is relinked once and no other. -/
theorem entity?_foldl_relinkEntity {ids : List EntityId} (distinct : ids.Nodup) (graph : Graph)
    (id : EntityId) :
    (ids.foldl (relinkEntity edges results) graph).entity? id =
      if id ∈ ids then (graph.entity? id).map
        (Entity.relink edges (schemasFor (.entity id) results))
      else graph.entity? id := by
  induction ids generalizing graph with
  | nil => simp
  | cons first rest ih =>
      obtain ⟨notAgain, distinct⟩ := List.nodup_cons.mp distinct
      rw [List.foldl_cons, ih distinct, entity?_relinkEntity]
      by_cases same : id = first
      · subst same
        simp [notAgain]
      · simp [same]

theorem schemaCount_foldl_relinkEntity (ids : List EntityId) (graph : Graph) :
    (ids.foldl (relinkEntity edges results) graph).schemaCount = graph.schemaCount := by
  induction ids generalizing graph with
  | nil => rfl
  | cons first rest ih =>
      rw [List.foldl_cons, ih, relinkEntity]
      split <;> rfl

end

variable {ν : Type} {linker : Linker} {R : ν → Schema → Schema → Prop} {world : MadeUp × ν}

/-- The schemas that go back to a holder are the answers to its stops, in order. -/
theorem forall₂_schemasFor_of {κ : Type} {S : κ → Schema → Prop} (holder : Holder)
    (part : Held → Option κ) {stops : List Stop} {results : List (Option Schema)}
    (answered : List.Forall₂ (fun stop result => stop.holder = holder →
      Option.Rel S (part stop.held) result) stops results) :
    List.Forall₂ S (((stopsOf holder stops).map Stop.held).filterMap part)
      (schemasFor holder (stops.zip results)) := by
  induction answered with
  | nil => exact .nil
  | @cons stop result stops results answer _ ih =>
      simp only [stopsOf, schemasFor, List.zip_cons_cons, List.filter_cons, List.filterMap_cons]
        at ih ⊢
      by_cases owned : stop.holder = holder
      · simp only [owned, decide_true, ↓reduceIte, List.map_cons, List.filterMap_cons]
        have schema := answer owned
        cases held : part stop.held <;> cases result <;> rw [held] at schema <;> cases schema
        · exact ih
        · rename_i holds
          exact .cons holds ih
      · simpa only [owned, decide_false, Bool.false_eq_true, ↓reduceIte] using ih

theorem forall₂_schemasFor (holder : Holder) {stops : List Stop} {results : List (Option Schema)}
    (answers : List.Forall₂ (linker.Answers R world) stops results) :
    List.Forall₂ (R world.2) (Held.schemas ((stopsOf holder stops).map Stop.held))
      (schemasFor holder (stops.zip results)) :=
  forall₂_schemasFor_of holder Held.schema? (answers.imp fun _ _ answer _ => answer.schema)

variable {graph : Graph} {document : Document} {inner : Rules ν Expansion} {start : ν}

/-- The edge map of a walk does what it should to everything that a tour has stopped at. -/
theorem implies_change {later : Graph} {synthesized : Table EntityId} {held : Held}
    {S : Schema → Schema → Prop}
    (made : ∀ reference, held = .tag (.placeholder reference) → linker.MakesUp reference →
      ∃ target, Table.find? reference.identifier synthesized = some target ∧
        later.entity? target = some (.tag { name := reference.identifier })) :
    ((linker.edgeMap synthesized).change S).Implies (linker.change later S) held := by
  intro result allowed
  cases allowed with
  | @edge category before after same =>
      subst same
      exact .edge (linker.index.links_link category before)
  | @tag before after same =>
      subst same
      refine .tag (linksTag_linkTag fun reference same missing => ?_)
      subst same
      exact made reference rfl missing
  | schema changes => exact .schema changes
  | namedSchema changes => exact .namedSchema changes

theorem nodup_entered (graph : Graph) (index : Index) (document : Document) :
    (graph.tour index [] document).2.Nodup :=
  (runs_tour graph index [] document).nodup List.nodup_nil

theorem lt_size_of_entered {index : Index} {id : EntityId}
    (entered : id ∈ (graph.tour index [] document).2) : id < graph.size := by
  rcases (runs_tour graph index [] document).opened_by entered with never | ⟨isKey, _⟩
  · cases never
  · exact List.mem_range.mp isKey

section

/-! The parts of a walk. -/

/-- The answers to all stops of a walk, and the state after them. -/
def visits (linker : Linker) (graph : Graph) (document : Document) :
    List (Option Schema) × Progress :=
  (graph.tour linker.index linker.entered document).1.mapM linker.visit (linker.firstProgress graph)

def answers (linker : Linker) (graph : Graph) (document : Document) :
    List (Stop × Option Schema) :=
  (graph.tour linker.index linker.entered document).1.zip (linker.visits graph document).1

theorem walk_graph (unentered : linker.entered = []) :
    (linker.walk graph document).2.1 =
      (graph.tour linker.index [] document).2.foldl
        (relinkEntity (linker.edgeMap (linker.visits graph document).2.synthesized)
          (linker.answers graph document)) (linker.visits graph document).2.graph := by
  have newly : (graph.tour linker.index [] document).2.filter
      (fun id => !(([] : List EntityId).contains id)) =
        (graph.tour linker.index [] document).2 := by
    simp
  conv_rhs => rw [← newly, ← unentered]
  rfl

theorem walk_document :
    (linker.walk graph document).2.2 =
      document.relink (linker.edgeMap (linker.visits graph document).2.synthesized)
        (schemasFor .document (linker.answers graph document)) :=
  rfl

end

/-- What a walk does to the entities that its tour enters, and to the others. -/
structure Toured (linker : Linker) (change : Change) (graph : Graph) (document : Document)
    (laterGraph : Graph) (later : Document) : Prop where
  root : document.Changes change later
  entered : ∀ id ∈ (graph.tour linker.index [] document).2, ∀ before,
    graph.entity? id = some before →
    ∃ after, laterGraph.entity? id = some after ∧ before.Changes change after
  kept : ∀ id before, id ∉ (graph.tour linker.index [] document).2 →
    graph.entity? id = some before → laterGraph.entity? id = some before
  added : ∀ id entity, graph.entity? id = none → laterGraph.entity? id = some entity →
    linker.synthesizeMissingTags = true ∧ ∃ tag, entity = .tag tag

namespace Toured

variable {change weaker : Change} {graph laterGraph : Graph} {document later : Document}
variable (toured : linker.Toured change graph document laterGraph later)
include toured

/-- A change that is known of everything toured may be weakened. -/
theorem imp (implies : ∀ stop ∈ (graph.tour linker.index [] document).1,
    change.Implies weaker stop.held) :
    linker.Toured weaker graph document laterGraph later where
  root := toured.root.imp fun held holds => by
    obtain ⟨stop, met, rfl⟩ := stop_of_document_holds holds
    exact implies stop met
  entered id isEntered before found := by
    obtain ⟨after, isAfter, changes⟩ := toured.entered id isEntered before found
    refine ⟨after, isAfter, changes.imp fun held holds => ?_⟩
    obtain ⟨stop, met, rfl⟩ := stop_of_entity_holds isEntered List.not_mem_nil found holds
    exact implies stop met
  kept := toured.kept
  added := toured.added

/-- Whether it is entered or not, an entity that there was has changed, or stays what it was. -/
theorem entity_after {id : EntityId} {before : Entity} (found : graph.entity? id = some before) :
    ∃ after, laterGraph.entity? id = some after ∧
      (before.Changes change after ∨ after = before) := by
  by_cases entered : id ∈ (graph.tour linker.index [] document).2
  · obtain ⟨after, isAfter, changes⟩ := toured.entered id entered before found
    exact ⟨after, isAfter, .inl changes⟩
  · exact ⟨before, toured.kept id before entered found, .inr rfl⟩

theorem entity_before {id : EntityId} {after : Entity}
    (found : laterGraph.entity? id = some after) :
    (∃ before, graph.entity? id = some before ∧ (before.Changes change after ∨ after = before)) ∨
      linker.synthesizeMissingTags = true ∧ ∃ tag, after = .tag tag := by
  cases old : graph.entity? id with
  | none => exact .inr (toured.added id after old found)
  | some before =>
      obtain ⟨other, isOther, changes⟩ := toured.entity_after old
      cases found.symm.trans isOther
      exact .inl ⟨before, rfl, changes⟩

theorem tag {id : EntityId} {tag : Tag} (found : graph.entity? id = some (.tag tag)) :
    laterGraph.entity? id = some (.tag tag) := by
  obtain ⟨after, isAfter, changes | rfl⟩ := toured.entity_after found
  · cases changes
    exact isAfter
  · exact isAfter

end Toured

/-- The tags made up for a walk are in the graph that it ends with. -/
theorem entity?_walk_of_le (unentered : linker.entered = []) {id : EntityId}
    (isNew : graph.size ≤ id) :
    (linker.walk graph document).2.1.entity? id =
      (linker.visits graph document).2.graph.entity? id := by
  have notEntered : id ∉ (graph.tour linker.index [] document).2 := fun entered =>
    Nat.not_lt.mpr isNew (lt_size_of_entered entered)
  rw [walk_graph unentered, entity?_foldl_relinkEntity (nodup_entered _ _ _), if_neg notEntered]

/-- Whatever a tour enters changes by the edge map, and by the schemas that the visits give. -/
theorem toured_relink (unentered : linker.entered = [])
    (described : Visiting.Describes graph linker.synthesizeMissingTags world.1
      (linker.visits graph document).2)
    (answered : List.Forall₂ (linker.Answers R world) (graph.tour linker.index [] document).1
      (linker.visits graph document).1) :
    linker.Toured
      ((linker.edgeMap (linker.visits graph document).2.synthesized).change (R world.2)) graph
      document (linker.walk graph document).2.1 (linker.walk graph document).2.2 := by
  have supplied : ∀ holder, List.Forall₂ (R world.2)
      (Held.schemas ((stopsOf holder (graph.tour linker.index [] document).1).map Stop.held))
      (schemasFor holder (linker.answers graph document)) := by
    intro holder
    rw [answers, unentered]
    exact forall₂_schemasFor holder answered
  constructor
  · have given := supplied .document
    rw [stopsOf_document, Holder.map_held_stops] at given
    rw [walk_document]
    exact Document.changes_relink given
  · intro id entered before found
    have kept := described.kept id (lt_size_of_entered entered)
    obtain ⟨_, _, _, stops⟩ := stopsOf_entity entered List.not_mem_nil
    have given := supplied (.entity id)
    have places : graph.placesOf id = before.places := by rw [placesOf, found]; rfl
    rw [stops, Holder.map_held_stops, places] at given
    have relinked : (linker.walk graph document).2.1.entity? id =
        some (before.relink (linker.edgeMap (linker.visits graph document).2.synthesized)
          (schemasFor (.entity id) (linker.answers graph document))) := by
      rw [walk_graph unentered, entity?_foldl_relinkEntity (nodup_entered _ _ _), if_pos entered,
        kept, found]
      rfl
    exact ⟨_, relinked, Entity.changes_relink given⟩
  · intro id before notEntered found
    rw [walk_graph unentered, entity?_foldl_relinkEntity (nodup_entered _ _ _), if_neg notEntered,
      described.kept id (lt_size_of_entity? found), found]
  · intro id entity missing found
    have isNew := size_le_of_entity? missing
    rw [entity?_walk_of_le unentered isNew] at found
    exact described.added id entity isNew found

theorem toured_walk (unentered : linker.entered = [])
    (described : Visiting.Describes graph linker.synthesizeMissingTags world.1
      (linker.visits graph document).2)
    (answered : List.Forall₂ (linker.Answers R world) (graph.tour linker.index [] document).1
      (linker.visits graph document).1) :
    linker.Toured (linker.change (linker.walk graph document).2.1 (R world.2)) graph document
      (linker.walk graph document).2.1 (linker.walk graph document).2.2 := by
  -- Whatever was stopped at is linked by the edge map as it should be.
  refine (toured_relink unentered described answered).imp fun stop met => ?_
  refine implies_change fun reference held missing => ?_
  obtain ⟨result, _, answer⟩ := ListRel.exists_of_mem_left answered met
  obtain ⟨target, found⟩ := answer.tag reference held missing
  obtain ⟨isNew, bare⟩ := described.bare _ _ found
  exact ⟨target, by rw [described.synthesized, found],
    by rw [entity?_walk_of_le unentered isNew, bare]⟩

variable {inner : Rules ν Expansion} {start : ν}

/-- The state in which a fresh linker expands its first schema. -/
def firstExpansion (linker : Linker) (graph : Graph) : Expansion :=
  (linker.firstProgress graph).expansion

theorem describes_firstProgress (linker : Linker) (graph : Graph) (unmade : linker.synthesized = []) :
    Visiting.Describes graph linker.synthesizeMissingTags (fun _ => none)
      (linker.firstProgress graph) where
  size := Nat.le_refl _
  kept _ _ := rfl
  added id entity isNew found := by
    simp [firstProgress, Graph.entity?, Array.getElem?_eq_none isNew] at found
  synthesized _ := by rw [firstProgress, unmade]; rfl
  bare _ _ found := by cases found

theorem visits_eq (unentered : linker.entered = []) :
    linker.visits graph document = (graph.tour linker.index [] document).1.mapM linker.visit
      (linker.firstProgress graph) := by
  rw [visits, unentered]

/-- Rules under which all schemas of a tour can be expanded say what a walk does. -/
theorem toured_of_expandable (linker : Linker) (graph : Graph) (document : Document)
    (unentered : linker.entered = []) (unmade : linker.synthesized = [])
    (expandable : linker.Expandable inner R start (graph.tour linker.index [] document).1)
    (described : inner.describes start (linker.firstExpansion graph)) :
    ∃ later, inner.grows start later ∧
      inner.describes later (linker.visits graph document).2.expansion ∧
      linker.Toured (linker.change (linker.walk graph document).2.1 (R later)) graph document
        (linker.walk graph document).2.1 (linker.walk graph document).2.2 := by
  have begun : (linker.visiting graph inner).describes (fun _ => none, start)
      (linker.firstProgress graph) := ⟨linker.describes_firstProgress graph unmade, described⟩
  obtain ⟨later, grows, describes, answered⟩ := yields_visits begun expandable
  rw [← visits_eq unentered] at describes answered
  exact ⟨later.2, grows.2, describes.2, toured_walk unentered describes.1 answered⟩

end Linker

end ApiLinker
