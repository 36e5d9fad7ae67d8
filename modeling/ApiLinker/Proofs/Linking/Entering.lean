import ApiLinker.Proofs.Linking.Lending
import ApiLinker.Proofs.Linking.Site
import ApiLinker.Proofs.Linking.WellFormed
import ApiLinker.Proofs.Schema.Once

/-!
Walks enter once.

A walk of any kind of graph, cyclic or not, visits the places of an entity while the entity is on
loan to it.  It comes to its end, borrows each entity that a visited place leads to and that no
earlier walk has entered, borrows none twice, and resolves every registered schema once at most.
-/

namespace ApiLinker

open ApiLinker.Graph

/-- An edge of the document leads to the entity, or an edge of one that was met and has not been
entered before. -/
inductive Graph.Meets (graph : Graph) (index : Index) (already : List EntityId)
    (document : Document) : EntityId → Prop where
  | root {category : Category} {edge : Edge} {id : EntityId}
      (holds : document.Holds (.edge category edge))
      (target : (index.link category edge).target? = some id) : Meets graph index already document id
  | step {category : Category} {edge : Edge} {outer id : EntityId} {entity : Entity}
      (meets : Meets graph index already document outer) (isNew : outer ∉ already)
      (found : graph.entity? outer = some entity) (holds : entity.Holds (.edge category edge))
      (target : (index.link category edge).target? = some id) : Meets graph index already document id

namespace Linker

open Noting

/-- Runs a noting expansion on the schemas of the graph. -/
def expandingNoting {α : Type} (expand : Noting Expansion α) : Noting Progress α :=
  fun (progress, notes) =>
    let (result, expansion, notes) := expand (progress.expansion, notes)
    (result, { progress with
      graph := { progress.graph with schemaCount := expansion.schemaCount }
      expanded := expansion.expanded
      diagnostics := expansion.problems
      linkCount := expansion.replaced }, notes)

/-- A visit that notes which schemas it resolves. -/
def visitNoting (linker : Linker) (stop : Stop) : Noting Progress (Option Schema) :=
  match stop.held with
  | .edge _ _ | .tag _ => lift (linker.visit stop)
  | .schema schema => some <$> expandingNoting
      (schema.expandNoting (linker.lookup.followNoting linker.lookup.depth) stop.path)
  | .namedSchema name schema => some <$> expandingNoting
      (schema.expandNamedNoting (linker.lookup.followNoting linker.lookup.depth)
        (Locator.ofPointer linker.lookup.authority (Registry.componentPointer name)) stop.path)

theorem erases_expandingNoting {α : Type} {noting : Noting Expansion α} {plain : Expanding α}
    (erases : Erases noting plain) : Erases (expandingNoting noting) (Visiting.expanding plain) := by
  intro progress notes
  obtain ⟨later, ran⟩ := erases progress.expansion notes
  exact ⟨later, by rw [expandingNoting, ran]; rfl⟩

theorem erases_visitNoting (linker : Linker) (stop : Stop) :
    Erases (linker.visitNoting stop) (linker.visit stop) := by
  obtain ⟨holder, path, held⟩ := stop
  cases held with
  | edge | tag => exact erases_lift _
  | schema schema =>
      exact (erases_expandingNoting
        (Schema.erases_expandNoting (linker.lookup.erases_followNoting _) schema path)).map some
  | namedSchema name schema =>
      exact (erases_expandingNoting (Schema.erases_expandNamedNoting
        (linker.lookup.erases_followNoting _) _ schema path)).map some

section

/-! Looking up references expands nothing. -/

variable {linker : Linker} {progress : Progress}

theorem expanded_visitReference (path : List String) (category : Category)
    (reference : Reference) :
    (linker.visitReference path category reference progress).2.expanded = progress.expanded := by
  rw [visitReference]
  cases reference.isExternal with
  | true => cases linker.lookup.strict <;> rfl
  | false => cases linker.index.resolve category reference <;> rfl

theorem expanded_synthesizeTag (name : String) :
    (Visiting.synthesizeTag name progress).2.expanded = progress.expanded := by
  simp only [Visiting.synthesizeTag, modify, modifyGet, MonadStateOf.modifyGet, StateT.modifyGet]
  cases Table.find? name progress.synthesized <;> rfl

theorem expanded_visitTagReference (path : List String) (reference : Reference) :
    (linker.visitTagReference path reference progress).2.expanded = progress.expanded := by
  rw [visitTagReference]
  split
  · exact expanded_visitReference path .tags reference
  · cases linker.index.resolve .tags reference with
    | ok target => rfl
    | error problem =>
        cases problem with
        | notFound => exact expanded_synthesizeTag reference.identifier
        | categoryMismatch | externalReference | schemaNotFound | externalSchema => rfl

theorem expanded_visit {stop : Stop} (bare : stop.held.schema? = none) :
    (linker.visit stop progress).2.expanded = progress.expanded := by
  obtain ⟨holder, path, held⟩ := stop
  cases held with
  | edge category edge =>
      cases edge with
      | placeholder reference => exact expanded_visitReference path category reference
      | linked | inline => rfl
  | tag edge =>
      cases edge with
      | placeholder reference => exact expanded_visitTagReference path reference
      | linked | inline => rfl
  | schema | namedSchema => cases bare

end

theorem keepsOnce_expandingNoting {α : Type} {noting : Noting Expansion α}
    (keeps : Lookup.KeepsOnce id [] noting) :
    Lookup.KeepsOnce Progress.expansion [] (expandingNoting noting) := by
  intro (progress, notes) described
  obtain ⟨_, _, once, _⟩ := keeps (progress.expansion, notes) described
  exact ⟨(), trivial, once, trivial⟩

/-- A visit resolves nothing that was resolved before, if named schemas are held under their own
names. -/
theorem keepsOnce_visitNoting (linker : Linker) (linked : linker.lookup.Linked) {stop : Stop}
    (registered : ∀ name schema, stop.held = .namedSchema name schema →
      linker.lookup.registry.get?
        (Locator.ofPointer linker.lookup.authority (Registry.componentPointer name)) =
          some schema) :
    Lookup.KeepsOnce Progress.expansion [] (linker.visitNoting stop) := by
  obtain ⟨holder, path, held⟩ := stop
  cases held with
  | schema schema =>
      exact (keepsOnce_expandingNoting (Lookup.keepsOnce_expand linked schema path)).map some
  | namedSchema name schema =>
      exact (keepsOnce_expandingNoting
        (Lookup.keepsOnce_expandNamed linked (registered name schema rfl) path)).map some
  | edge | tag =>
      refine Lookup.keepsOnce_lift fun progress locator schema found => ?_
      rw [Progress.expansion, expanded_visit rfl]
      exact found

/-- A run that goes through the document and each entity that it borrows. -/
structure EntersOnce (linker : Linker) (graph : Graph) (document : Document) (lending : Lending)
    (notes : List Note) : Prop where
  /-- The run comes to its end, and nothing is borrowed that is on loan. -/
  ran : linker.lend graph document = .ok lending
  /-- It leaves behind what the walk leaves behind. -/
  walked : linker.walk graph document = linker.finishLending document lending
  returned : lending.onLoan = []
  once : lending.borrowed.Nodup
  /-- Those are borrowed that can be met and that were not entered before. -/
  borrowed : ∀ id, id ∈ lending.borrowed ↔ id ∉ linker.entered ∧ id < graph.size ∧
    graph.Meets linker.index linker.entered document id
  entered : lending.entered = lending.borrowed ++ linker.entered
  /-- All that the document and the borrowed entities hold is visited once, and nothing else. -/
  visited : ∃ sites : List Site, sites.Nodup ∧
    (∀ site, site ∈ sites ↔
      (site.holder = .document ∨ ∃ id ∈ lending.borrowed, site.holder = .entity id) ∧
        ∃ held, site.held? graph document = some held) ∧
    List.Forall₂ (fun site stop => stop.holder = site.holder ∧
      site.held? graph document = some stop.held) sites lending.visited
  noted : lending.visited.mapM linker.visitNoting (linker.firstProgress graph, []) =
    (lending.schemas, lending.progress, notes)
  /-- No schema is resolved twice. -/
  resolved : notes.Nodup
  /-- No pointer is left because too many are being followed. -/
  followed : Note.givesUp ∉ notes

/-- The visits of a walk can be run with notes, which say that no schema is resolved twice and no
pointer given up. -/
theorem exists_notes (linker : Linker) (graph : Graph) (document : Document)
    (linked : linker.lookup.Linked)
    (registered : ∀ name schema, (name, schema) ∈ document.namedObjects.schemas →
      linker.lookup.registry.get?
        (Locator.ofPointer linker.lookup.authority (Registry.componentPointer name)) =
          some schema) :
    ∃ notes, (graph.tour linker.index linker.entered document).1.mapM linker.visitNoting
        (linker.firstProgress graph, []) =
          ((linker.visits graph document).1, (linker.visits graph document).2, notes) ∧
      Lookup.Once [] (linker.visits graph document).2.expansion notes := by
  obtain ⟨notes, noted⟩ := erases_mapM linker.erases_visitNoting
    (graph.tour linker.index linker.entered document).1 (linker.firstProgress graph) []
  have begun : Lookup.Once [] (linker.firstProgress graph).expansion [] := {
    followsAll := List.not_mem_nil
    distinct := List.nodup_nil
    stored := fun _ never => by cases never }
  have keeps : Lookup.KeepsOnce Progress.expansion []
      ((graph.tour linker.index linker.entered document).1.mapM linker.visitNoting) :=
    Lookup.keepsOnce_mapM fun stop met => linker.keepsOnce_visitNoting linked
      fun name schema held => registered name schema (mem_schemas_of_stop met held)
  obtain ⟨_, _, once, _⟩ := keeps (linker.firstProgress graph, []) begun
  rw [noted] at once
  exact ⟨notes, noted, once⟩

/-- What a walk enters is met. -/
theorem meets_of_stop {graph : Graph} {index : Index} {already : List EntityId} {document : Document}
    {stop : Stop} {id : EntityId} (met : stop ∈ (graph.tour index already document).1)
    (leads : stop.leadsTo? index = some id) : graph.Meets index already document id := by
  obtain ⟨category, edge, held, target⟩ := Stop.leadsTo?_eq_some.mp leads
  refine held_of_stop (P := fun held => ∀ category edge id, held = .edge category edge →
    (index.link category edge).target? = some id → graph.Meets index already document id)
    ?_ ?_ stop met category edge id held target
  · rintro _ holds category edge id rfl target
    exact .root holds target
  · rintro category edge outer entity meets leads isNew found _ holds innerCategory inner id rfl target
    exact .step (meets category edge outer rfl leads) isNew found holds target

theorem entered_of_meets {graph : Graph} {index : Index} {already : List EntityId}
    {document : Document} {id : EntityId} (meets : graph.Meets index already document id)
    (present : id < graph.size) : id ∈ (graph.tour index already document).2 := by
  induction meets with
  | root holds target =>
      obtain ⟨stop, met, held⟩ := stop_of_document_holds holds
      exact entered_of_stop met (Stop.leadsTo?_eq_some.mpr ⟨_, _, held, target⟩) present
  | step _ isNew found holds target ih =>
      obtain ⟨stop, met, held⟩ :=
        stop_of_entity_holds (ih (lt_size_of_entity? found)) isNew found holds
      exact entered_of_stop met (Stop.leadsTo?_eq_some.mpr ⟨_, _, held, target⟩) present

/-- A walk enters what it can come to, but for what was entered before. -/
theorem newly_entered_iff {graph : Graph} {index : Index} {already : List EntityId}
    {document : Document} {id : EntityId} :
    id ∈ (graph.tour index already document).2 ∧ id ∉ already ↔
      id ∉ already ∧ id < graph.size ∧ graph.Meets index already document id := by
  constructor
  · rintro ⟨entered, isNew⟩
    rcases (runs_tour graph index already document).opened_by entered with
      before | ⟨isKey, stop, met, leads, _⟩
    · exact absurd before isNew
    · exact ⟨isNew, List.mem_range.mp isKey, meets_of_stop met leads⟩
  · rintro ⟨isNew, present, meets⟩
    exact ⟨entered_of_meets meets present, isNew⟩

/-- Every walk comes to its end without giving up a pointer, whichever entities were entered and
whichever schemas expanded before.  It borrows each entity that it comes to once, never while that
entity is on loan, and resolves each registered schema once at most. -/
theorem walk_enters_once (linker : Linker) (graph : Graph) (document : Document)
    (settings : Settings)
    (looksUp : linker.lookup = .ofRegistry (document.registry settings.schemaAuthority) settings)
    (distinct : document.namedObjects.schemas.names.Nodup) :
    ∃ lending notes, linker.EntersOnce graph document lending notes := by
  obtain ⟨borrowed, entered, ran⟩ := linker.lend_eq graph document
  obtain ⟨new, isNew, once, fresh⟩ :=
    (runs_tour graph linker.index linker.entered document).exists_new
  cases List.append_cancel_right (entered.symm.trans isNew)
  obtain ⟨notes, noted, resolved⟩ := linker.exists_notes graph document
    (looksUp ▸ Lookup.linked_ofRegistry _ _)
    fun name schema member => looksUp ▸ Registry.get?_ofSchemas distinct member
  have borrowed_iff (id : EntityId) : id ∈ borrowed ↔
      id ∈ (graph.tour linker.index linker.entered document).2 ∧ id ∉ linker.entered := by
    rw [entered, List.mem_append]
    exact ⟨fun member => ⟨.inl member, fresh id member⟩, fun ⟨either, notYet⟩ =>
      either.resolve_right notYet⟩
  refine ⟨_, notes, {
    ran
    walked := walk_eq_of_lend ran
    returned := rfl
    once
    borrowed := fun id => (borrowed_iff id).trans newly_entered_iff
    entered := rfl
    visited := ?_
    noted
    resolved := resolved.distinct
    followed := resolved.followsAll }⟩
  obtain ⟨sites, different, isSite, stops⟩ :=
    sites_of_tour graph linker.index linker.entered document
  refine ⟨sites, different, fun site => ?_, stops.imp fun site stop stopsAt => ?_⟩
  · rw [isSite, mem_holders_iff]
    simp only [borrowed_iff, and_assoc]
  · obtain ⟨held, base, stopsAt⟩ := stopsAt
    rw [stopsAt.same]
    exact ⟨rfl, stopsAt.found⟩

/-- A callback to a path item, whose operation makes the callback again. -/
def callingGraph : Graph where
  entities := #[
    .callback { expressions := [("{$url}", .inline 1)] },
    .pathItem { post := some {
      callbacks := [("event", .placeholder (Reference.toComponent .callbacks "event"))] } }]
  schemaCount := 2

/-- Besides the callback, two schemas that point to each other. -/
def callingDocument : Document where
  components := some {
    schemas := [("A", .node 0 (.pointer "#/components/schemas/B")),
      ("B", .node 1 (.pointer "#/components/schemas/A"))]
    callbacks := [("event", .inline 0)] }

theorem walk_enters_once_calling :
    let index := Index.ofDocument callingGraph callingDocument
    let linker := ofDocument index callingDocument {}
    (index.link .callbacks (.placeholder (Reference.toComponent .callbacks "event"))).target? =
        some 0 ∧
      callingDocument.namedObjects.schemas.names.Nodup ∧
      ∃ lending notes, linker.EntersOnce callingGraph callingDocument lending notes :=
  ⟨by decide, by decide, walk_enters_once _ _ _ {} rfl (by decide)⟩

end Linker

end ApiLinker
