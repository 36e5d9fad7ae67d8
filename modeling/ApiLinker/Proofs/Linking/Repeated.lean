import ApiLinker.Proofs.Linking.Again
import ApiLinker.Proofs.Linking.Missing

/-!
What a second walk reports.

A second walk with the same tables stops where the first one did, and reports on references what the
first one reported.  A failing schema pointer was reported by the first walk where that looked into
the schema around it, once.  The second walk comes to the pointer in every expansion that has it, and
reports it there.
-/

namespace ApiLinker

open ApiLinker.Graph

/-- The later stop is at the same place, with what the change has made of what was held there. -/
structure Stop.Becomes (change : Change) (before after : Stop) : Prop where
  path : after.path = before.path
  held : change.Allows before.held after.held

theorem Problem.withHost_of_schema {problem : Problem} (kind : problem.isComponent = false)
    (host : Option String) : problem.withHost host = problem := by
  cases host <;> cases problem <;> first | rfl | cases kind

namespace Schema

theorem queries_contents (schema : Schema) (path : List String) :
    schema.contents.queries path = schema.queries path := by
  induction schema using induct generalizing path with
  | node id body ih =>
      rw [contents_node]
      cases points : body.reference with
      | some pointer =>
          rw [queries_pointer points,
            queries_pointer (by rw [SchemaBody.reference_map, points])]
      | none =>
          rw [queries_plain points, queries_plain (by rw [SchemaBody.reference_map, points]),
            SchemaBody.children_map, Subschemas.visits_map, List.flatMap_map]
          refine List.flatMap_congr fun visit member => ?_
          exact ih visit.2 (List.mem_map.mpr ⟨visit, member, rfl⟩) _

end Schema

namespace Lookup

variable {lookup : Lookup} {schema : Schema} {path : List String} {query : Query}

/-- A pointer that is exposed in an expansion is exposed there in the schema itself, or in the
expansion of what a pointer of the schema gives way to. -/
theorem queries_expansion (linked : lookup.Linked) {pointer : String}
    (member : query ∈ (lookup.expansion schema).queries path)
    (sought : query.sought = .pointer pointer) :
    query ∈ schema.queries path ∨ ∃ outer ∈ schema.exposed, ∃ target,
      lookup.target? outer = some target ∧ pointer ∈ (lookup.expansion target).exposed := by
  induction schema using induct_expansion linked generalizing path with
  | stays id body outer points stays =>
      rw [expansion_stays points stays, Schema.queries_contents] at member
      exact .inl member
  | followed id body outer target points found _ =>
      rw [expansion_followed linked points found] at member
      obtain ⟨inner, isExposed, same⟩ := Schema.exposed_of_mem_queries member
      cases same.symm.trans sought
      exact .inr ⟨outer, by rw [Schema.exposed_pointer points, List.mem_singleton], target, found,
        isExposed⟩
  | inside id body plain ih =>
      rw [expansion_plain plain,
        Schema.queries_plain (by rw [SchemaBody.reference_map, plain]), SchemaBody.children_map,
        Subschemas.visits_map, List.flatMap_map] at member
      obtain ⟨⟨slot, child⟩, visit, member⟩ := List.mem_flatMap.mp member
      have isChild : child ∈ body.children.list := List.mem_map.mpr ⟨(slot, child), visit, rfl⟩
      rcases ih child isChild member with member | ⟨outer, isExposed, rest⟩
      · rw [Schema.queries_plain plain]
        exact .inl (List.mem_flatMap.mpr ⟨(slot, child), visit, member⟩)
      · exact .inr ⟨outer, (Schema.mem_exposed_of_none plain).mpr ⟨child, isChild, isExposed⟩, rest⟩

end Lookup

section

/-! Where named schemas are held. -/

variable {document : Document} {name : String} {schema : Schema}

open Place in
theorem Document.path_of_named {place : Place} (member : place ∈ document.places)
    (held : place.held = .namedSchema name schema) :
    place.path = ["components", "schemas", name] := by
  simp only [places, Components.places, within, ofTable, ofTags, securityPlaces,
    SecurityRequirement.places, List.mem_append, List.mem_map, List.mem_flatMap,
    Option.mem_toList, under] at member
  aesop

theorem Graph.path_of_named {graph : Graph} {index : Index} {stop : Stop}
    (met : stop ∈ (graph.tour index [] document).1)
    (held : stop.held = .namedSchema name schema) :
    stop.path = ["components", "schemas", name] := by
  refine (runs_tour graph index [] document).visited_of (P := fun stop => ∀ name schema,
    stop.held = .namedSchema name schema → stop.path = ["components", "schemas", name])
    ?_ ?_ stop met name schema held
  · intro stop isFirst name schema held
    obtain ⟨place, member, rfl⟩ := List.mem_map.mp isFirst
    exact Document.path_of_named member held
  · intro outer id _ _ _ _ inner member name schema held
    obtain ⟨entity, _, holds⟩ := holds_of_mem_placesOf (Holder.held_of_mem_stops member)
    rw [held] at holds
    exact absurd (Entity.ordinary_of_holds holds) not_false

end

namespace Linker

variable {linker : Linker} {graph laterGraph : Graph} {document later : Document}
variable {R : Schema → Schema → Prop}

section

/-! The tour of a second walk. -/

theorem becomes_of_places {holder : Holder} {path : List String} {change : Change}
    (keeps : change.KeepsNames) {places laterPlaces : List Place}
    (related : List.Forall₂ change.AllowsAt places laterPlaces) :
    List.Forall₂ (Stop.Becomes change) (holder.stops path places)
      (holder.stops path laterPlaces) := by
  simp only [Holder.stops, List.forall₂_map_left_iff, List.forall₂_map_right_iff]
  exact related.imp fun _ _ allowed => ⟨congrArg (path ++ ·) (allowed.path keeps), allowed.held⟩

theorem leadsTo?_of_becomes {before after : Stop}
    (becomes : before.Becomes (linker.change laterGraph R) after) :
    after.leadsTo? linker.index = before.leadsTo? linker.index := by
  obtain ⟨_, path, held⟩ := before
  obtain ⟨_, laterPath, laterHeld⟩ := after
  have allowed := becomes.held
  cases allowed with
  | edge links =>
      simp only [Stop.leadsTo?]
      rw [links.link_eq, links.eq_link]
  | tag | schema | namedSchema => rfl

/-- A second tour has the stops of the first, with what the walk has made of what was held. -/
theorem tour_again
    (toured : linker.Toured (linker.change laterGraph R) graph document laterGraph later) :
    List.Forall₂ (Stop.Becomes (linker.change laterGraph R)) (graph.tour linker.index [] document).1
      (laterGraph.tour linker.index [] later).1 := by
  refine (runs_tour graph linker.index [] document).visited_related
    (runs_tour laterGraph linker.index [] later)
    (becomes_of_places keepsNames_change toured.root.places)
    (fun _ _ becomes => leadsTo?_of_becomes becomes) ?_ ?_ ?_ fun _ _ => Iff.rfl
  · intro id isKey
    have found : graph.entity? id = some _ := Array.getElem?_eq_getElem (List.mem_range.mp isKey)
    obtain ⟨after, isAfter, _⟩ := toured.entity_after found
    exact List.mem_range.mpr (lt_size_of_entity? isAfter)
  · intro before after id becomes entered
    change List.Forall₂ _ (Holder.stops _ before.path _) (Holder.stops _ after.path _)
    rw [becomes.path]
    exact becomes_of_places keepsNames_change
      (toured.places_of_holder (entity_mem_holders entered))
  · intro other id isNew
    have above : graph.size ≤ id :=
      Nat.le_of_not_lt fun below => isNew (List.mem_range.mpr below)
    have missing : graph.entity? id = none := Array.getElem?_eq_none_iff.mpr above
    have bare : laterGraph.placesOf id = [] := by
      rw [placesOf]
      cases found : laterGraph.entity? id with
      | none => rfl
      | some entity =>
          obtain ⟨_, tag, rfl⟩ := toured.added id entity missing found
          rfl
    change Holder.stops _ _ (laterGraph.placesOf id) = []
    rw [bare]
    rfl

end

section

/-! Reports on references. -/

theorem wrong_of_allows {before after : Held}
    (allowed : (linker.change laterGraph R).Allows before after) :
    after.sought?.bind linker.problem? = before.sought?.bind linker.problem? := by
  cases allowed with
  | edge links =>
      cases links with
      | linked | inline | external | missing => rfl
      | found isLocal resolved =>
          simp [Held.sought?, problem?, Index.problem?, isLocal, resolved]
  | tag links =>
      cases links with
      | lookedUp _ links =>
          cases links with
          | linked | inline | external | missing => rfl
          | found isLocal resolved =>
              simp [Held.sought?, problem?, Index.problem?, isLocal, resolved]
      | madeUp missing => exact (problem?_tag_of_makesUp missing).symm
  | schema | namedSchema => rfl

theorem complaint?_of_becomes {before after : Stop}
    (becomes : before.Becomes (linker.change laterGraph R) after) :
    linker.complaint? after = linker.complaint? before := by
  rw [complaint?, complaint?, wrong_of_allows becomes.held, becomes.path]

theorem filterMap_complaint?_of_becomes {stops laterStops : List Stop}
    (related : List.Forall₂ (Stop.Becomes (linker.change laterGraph R)) stops laterStops) :
    laterStops.filterMap linker.complaint? = stops.filterMap linker.complaint? := by
  induction related with
  | nil => rfl
  | cons becomes _ ih =>
      rw [List.filterMap_cons, List.filterMap_cons, complaint?_of_becomes becomes, ih]

theorem location_of_changes {change : Change} (changes : document.Changes change later) :
    later.location = document.location := by
  rw [changes.rest]

/-- A second walk by a linker with the same tables repeats the reports on references. -/
theorem component_reports_again (unentered : linker.entered = [])
    (unexpanded : linker.expanded = []) (unreported : linker.diagnostics = [])
    (linked : linker.lookup.Linked)
    (toured : linker.Toured (linker.change laterGraph R) graph document laterGraph later) :
    (linker.walk laterGraph later).1.diagnostics.filter (·.problem.isComponent) =
      (linker.walk graph document).1.diagnostics.filter (·.problem.isComponent) := by
  rw [filter_diagnostics linker laterGraph later unentered unexpanded unreported linked,
    filter_diagnostics linker graph document unentered unexpanded unreported linked,
    filterMap_complaint?_of_becomes (tour_again toured), location_of_changes toured.root]

end

section

/-! Reports on schema pointers. -/

variable {stops : List Stop} {asked : List Query} {opened : List String}

theorem schema_of_query {stop : Stop} {query : Query} (member : query ∈ stop.queries)
    {pointer : String} (sought : query.sought = .pointer pointer) :
    ∃ schema, stop.held.schema? = some schema ∧ query ∈ schema.queries stop.path := by
  obtain ⟨schema, held, within⟩ := Held.schema_of_pointer member sought
  exact ⟨schema, by rw [held]; rfl, within⟩

/-- Where no pointer is followed, pointers are only asked for at the stops that they are held
at. -/
theorem asked_at_stop (asks : linker.lookup.Asks [] (stops.flatMap Stop.queries) asked opened)
    (settled : ∀ stop ∈ stops, ∀ schema, stop.held.schema? = some schema →
      ∀ pointer ∈ schema.exposed, linker.lookup.target? pointer = none)
    {query : Query} (met : query ∈ asked) {pointer : String}
    (sought : query.sought = .pointer pointer) :
    ∃ stop ∈ stops, ∃ schema, stop.held.schema? = some schema ∧
      query ∈ schema.queries stop.path := by
  have places : ∀ query ∈ asked, ∃ stop ∈ stops, query ∈ stop.queries ∨
      ∃ schema, stop.held.schema? = some schema ∧ query ∈ schema.queries stop.path := by
    refine asks.asked_of (fun query member => ?_) ?_
    · obtain ⟨stop, isStop, member⟩ := List.mem_flatMap.mp member
      exact ⟨stop, isStop, .inl member⟩
    · intro query locator schema place opens inner member
      obtain ⟨stop, isStop, place⟩ := place
      cases outer : query.sought with
      | component | tag => rw [outer] at opens; cases opens
      | pointer other =>
          have inSchema : ∃ held, stop.held.schema? = some held ∧ query ∈ held.queries stop.path :=
            place.elim (fun first => schema_of_query first outer) id
          obtain ⟨held, isSchema, within⟩ := inSchema
          obtain ⟨same, isExposed, isPointer⟩ := Schema.exposed_of_mem_queries within
          cases isPointer.symm.trans outer
          rw [outer] at opens
          cases (settled stop isStop held isSchema other isExposed).symm.trans
            (Lookup.opens?_pointer opens).1
      | named name named =>
          rw [outer] at opens
          cases opens
          rcases place with first | ⟨held, _, within⟩
          · obtain ⟨isNamed, path⟩ := Held.eq_of_named first outer
            rw [path] at member
            exact ⟨stop, isStop, .inr ⟨schema, by rw [isNamed]; rfl, member⟩⟩
          · obtain ⟨_, _, isPointer⟩ := Schema.exposed_of_mem_queries within
            cases isPointer.symm.trans outer
  obtain ⟨stop, isStop, first | within⟩ := places query met
  · exact ⟨stop, isStop, schema_of_query first sought⟩
  · exact ⟨stop, isStop, within⟩

/-- A named schema is looked into at its stop, or else where a pointer to it is followed. -/
theorem looked_into_at_stop
    (asks : linker.lookup.Asks [] ((graph.tour linker.index [] document).1.flatMap Stop.queries)
      asked opened)
    {stop : Stop} (met : stop ∈ (graph.tour linker.index [] document).1) {name : String}
    {schema : Schema} (held : stop.held = .namedSchema name schema)
    (distinct : document.namedObjects.schemas.names.Nodup) :
    (∀ query ∈ schema.queries stop.path, query ∈ asked) ∨
      linker.lookup.Opens (Offers (graph.tour linker.index [] document).1)
        (Locator.ofPointer linker.lookup.authority (Registry.componentPointer name)) := by
  have first : ⟨stop.path, .named name schema⟩ ∈ stop.queries := by
    rw [Stop.queries, held]
    exact List.mem_singleton.mpr rfl
  have isOpen := asks.opened (asks.queries_asked _ (List.mem_flatMap.mpr ⟨stop, met, first⟩))
    (rfl : linker.lookup.opens? (.named name schema) = some _)
  rcases asks.opened_by isOpen with never | ⟨query, isAsked, other, opens, within⟩
  · cases never
  refine (asks.opened_for isAsked opens).imp_left fun named => ?_
  obtain ⟨place, isStop, otherName, isNamed, path, sameLocator⟩ := named
  have names := Locator.ofPointer_injective sameLocator
  simp only [List.cons.injEq, true_and, and_true] at names
  subst names
  cases Table.eq_of_mem_of_nodup distinct (mem_schemas_of_stop met held)
    (mem_schemas_of_stop isStop isNamed)
  rwa [path, path_of_named isStop isNamed, ← path_of_named met held] at within

/-- A pointer that is exposed in an expansion at a later stop was asked for there before, or a
pointer is followed to a schema whose expansion has it exposed. -/
theorem asked_or_followed (linked : linker.lookup.Linked)
    (distinct : document.namedObjects.schemas.names.Nodup)
    (registered : ∀ entry ∈ document.namedObjects.schemas, linker.lookup.registry.get?
      (Locator.ofPointer linker.lookup.authority (Registry.componentPointer entry.1)) =
        some entry.2)
    (asks : linker.lookup.Asks [] ((graph.tour linker.index [] document).1.flatMap Stop.queries)
      asked opened)
    {stop : Stop} (met : stop ∈ (graph.tour linker.index [] document).1) {schema : Schema}
    (isSchema : stop.held.schema? = some schema) {query : Query}
    (member : query ∈ (linker.lookup.expansion schema).queries stop.path) {pointer : String}
    (sought : query.sought = .pointer pointer) :
    query ∈ asked ∨ ∃ locator target,
      linker.lookup.Opens (Offers (graph.tour linker.index [] document).1) locator ∧
        linker.lookup.registry.get? locator = some target ∧
        pointer ∈ (linker.lookup.expansion target).exposed := by
  rcases Lookup.queries_expansion linked member sought with own | ⟨outer, isExposed, target, rest⟩
  · cases held : stop.held with
    | edge | tag => rw [held] at isSchema; cases isSchema
    | schema other =>
        rw [held] at isSchema
        cases isSchema
        have first : query ∈ stop.queries := by rwa [Stop.queries, held]
        exact .inl (asks.queries_asked _ (List.mem_flatMap.mpr ⟨stop, met, first⟩))
    | namedSchema name other =>
        rw [held] at isSchema
        cases isSchema
        refine (looked_into_at_stop asks met held distinct).imp (fun within => within query own)
          fun opens => ?_
        obtain ⟨inner, isExposed, same⟩ := Schema.exposed_of_mem_queries member
        cases same.symm.trans sought
        have named := mem_schemas_of_stop met held
        exact ⟨_, schema, opens, registered (name, schema) named, isExposed⟩
  · obtain ⟨isTarget, inside⟩ := rest
    have opens : linker.lookup.Opens (Offers (graph.tour linker.index [] document).1)
        (Locator.ofPointer linker.lookup.authority outer) :=
      ⟨schema, outer, target, .offered ⟨stop, met, isSchema⟩, isExposed, isTarget, rfl⟩
    exact .inr ⟨_, target, opens, (Lookup.target?_eq_some linked isTarget).2.2, inside⟩

/-- What a second walk asks for in schemas, the first one has asked for. -/
theorem asked_again {nodes : NodeTable} {askedAgain : List Query} {openedAgain : List String}
    (linked : linker.lookup.Linked) (distinct : document.namedObjects.schemas.names.Nodup)
    (registered : ∀ entry ∈ document.namedObjects.schemas, linker.lookup.registry.get?
      (Locator.ofPointer linker.lookup.authority (Registry.componentPointer entry.1)) =
        some entry.2)
    (registers : linker.lookup.Registers
      ((graph.tour linker.index [] document).1.flatMap Stop.queries))
    (toured : linker.Toured (linker.change laterGraph (linker.lookup.Expands nodes)) graph document
      laterGraph later)
    (asks : linker.lookup.Asks [] ((graph.tour linker.index [] document).1.flatMap Stop.queries)
      asked opened)
    (again : linker.lookup.Asks [] ((laterGraph.tour linker.index [] later).1.flatMap Stop.queries)
      askedAgain openedAgain)
    {query : Query} (met : query ∈ askedAgain) {pointer : String}
    (sought : query.sought = .pointer pointer) :
    (∃ other ∈ asked, other.sought = .pointer pointer) ∧
      (query ∈ asked ∨ ∃ locator target,
        linker.lookup.Opens (Offers (graph.tour linker.index [] document).1) locator ∧
          linker.lookup.registry.get? locator = some target ∧
          pointer ∈ (linker.lookup.expansion target).exposed) := by
  -- At every later stop there is an expansion of what was held there before.
  have expanded : ∀ stop ∈ (laterGraph.tour linker.index [] later).1, ∀ schema,
      stop.held.schema? = some schema → ∃ before ∈ (graph.tour linker.index [] document).1,
        ∃ original, before.held.schema? = some original ∧ stop.path = before.path ∧
          schema.contents = linker.lookup.expansion original := by
    intro stop isStop schema isSchema
    obtain ⟨before, isBefore, becomes⟩ :=
      ListRel.exists_of_mem_right (tour_again toured) isStop
    obtain ⟨original, wasSchema, expands⟩ := becomes.held.schema_before isSchema
    exact ⟨before, isBefore, original, wasSchema, becomes.path, expands.2⟩
  obtain ⟨stop, isStop, schema, isSchema, within⟩ := asked_at_stop again
    (fun stop isStop schema isSchema pointer isExposed => by
      obtain ⟨_, _, _, _, _, same⟩ := expanded stop isStop schema isSchema
      exact (Lookup.target?_eq_none_iff linked).mpr
        (Schema.settled_of_contents linked same pointer isExposed)) met sought
  obtain ⟨before, isBefore, original, wasSchema, path, same⟩ := expanded stop isStop schema isSchema
  rw [← Schema.queries_contents, same, path] at within
  obtain ⟨inner, isExposed, isPointer⟩ := Schema.exposed_of_mem_queries within
  cases isPointer.symm.trans sought
  obtain ⟨place, inside⟩ := asks.asks_offered linked registers ⟨before, isBefore, wasSchema⟩
  exact ⟨asks.exposed_asked linked registers inside isExposed, asked_or_followed linked distinct
    registered asks isBefore wasSchema within sought⟩

end

/-- The names of a document stay, and with them what is registered under their locators. -/
theorem registered_of_changes {change : Change}
    (registered : ∀ entry ∈ document.namedObjects.schemas, linker.lookup.registry.get?
      (Locator.ofPointer linker.lookup.authority (Registry.componentPointer entry.1)) =
        some entry.2)
    (changes : document.Changes change later) :
    ∀ entry ∈ later.namedObjects.schemas, ∃ schema, linker.lookup.registry.get?
      (Locator.ofPointer linker.lookup.authority (Registry.componentPointer entry.1)) =
        some schema := by
  intro entry member
  have named : entry.1 ∈ later.namedObjects.schemas.names := List.mem_map_of_mem member
  rw [changes.schemas.names_eq] at named
  obtain ⟨original, isOriginal, same⟩ := List.mem_map.mp named
  exact ⟨original.2, same ▸ registered original isOriginal⟩

theorem mem_reports_iff {asked : List Query} {host : Option String}
    {diagnostics : List Diagnostic} {diagnostic : Diagnostic}
    (logged : diagnostics = (asked.filterMap linker.diagnostic?).map (Diagnostic.withHost host)) :
    diagnostic ∈ diagnostics ↔ ∃ query ∈ asked, ∃ problem,
      linker.problem? query.sought = some problem ∧
        Diagnostic.withHost host ⟨query.path, problem⟩ = diagnostic := by
  simp only [logged, diagnostic?, List.mem_map, List.mem_filterMap, Option.map_eq_some_iff]
  constructor
  · rintro ⟨_, ⟨query, met, problem, wrong, rfl⟩, rfl⟩
    exact ⟨query, met, problem, wrong, rfl⟩
  · rintro ⟨query, met, problem, wrong, rfl⟩
    exact ⟨_, ⟨query, met, problem, wrong, rfl⟩, rfl⟩

/-- A second walk with the same tables repeats the reports on references.  Everything else that it
reports was reported by the first walk, at that place or at another one.  It was at another one only
where a pointer is followed to a schema whose expansion leaves the failing pointer exposed. -/
theorem walk_repeats (graph : Graph) (document : Document) (settings : Settings)
    (wellFormed : graph.WellFormed document) :
    let linker := ofDocument (.ofDocument graph document) document settings
    let laterGraph := (linker.walk graph document).2.1
    let later := (linker.walk graph document).2.2
    let first := (linker.walk graph document).1.diagnostics
    let second := (linker.walk laterGraph later).1.diagnostics
    second.filter (·.problem.isComponent) = first.filter (·.problem.isComponent) ∧
      ∀ diagnostic ∈ second, diagnostic ∈ first ∨
        (∃ other ∈ first, other.problem = diagnostic.problem) ∧
          ∃ locator schema pointer,
            linker.lookup.Opens (graph.Provides document laterGraph later) locator ∧
            linker.lookup.registry.get? locator = some schema ∧
            pointer ∈ (linker.lookup.expansion schema).exposed ∧
            linker.lookup.problem? pointer = some diagnostic.problem := by
  intro linker laterGraph later first second
  have linked : linker.lookup.Linked := linked_ofDocument
  have distinct := wellFormed.names
  have registered := registered_of_distinct (.ofDocument graph document) settings distinct
  have registers := registers_of_distinct graph (.ofDocument graph document) settings distinct
  obtain ⟨_, nodes, _, _, _, toured⟩ := toured_of_wellFormed (.ofDocument graph document)
    settings wellFormed
  have components : second.filter (·.problem.isComponent) = first.filter (·.problem.isComponent) :=
    component_reports_again rfl rfl rfl linked toured
  have location : later.location = document.location := location_of_changes toured.root
  obtain ⟨asked, opened, asks, logged⟩ := walk_log_of_distinct graph (.ofDocument graph document)
    settings distinct
  obtain ⟨askedAgain, openedAgain, again, loggedAgain⟩ := linker.walk_log laterGraph later rfl rfl
    rfl linked (registered_of_changes registered toured.root)
  rw [location] at loggedAgain
  refine ⟨components, fun diagnostic isSecond => ?_⟩
  obtain ⟨query, met, problem, wrong, rfl⟩ := (mem_reports_iff loggedAgain).mp isSecond
  have kind := isComponent_of_problem? wrong
  cases sought : query.sought with
  | component | tag =>
      have inSecond : Diagnostic.withHost document.location ⟨query.path, problem⟩ ∈
          second.filter (·.problem.isComponent) := by
        refine List.mem_filter.mpr ⟨isSecond, (Problem.isComponent_withHost _ _).trans ?_⟩
        rw [kind, sought]
        rfl
      rw [components] at inSecond
      exact .inl (List.mem_filter.mp inSecond).1
  | named => rw [sought] at wrong; cases wrong
  | pointer pointer =>
      obtain ⟨⟨other, isAsked, same⟩, here | followed⟩ := asked_again linked distinct registered
        registers toured asks again met sought
      · exact .inl ((mem_reports_iff logged).mpr ⟨query, here, problem, wrong, rfl⟩)
      · obtain ⟨locator, target, opens, isRegistered, isExposed⟩ := followed
        rw [sought] at wrong kind
        have elsewhere := (mem_reports_iff logged).mpr ⟨other, isAsked, problem, same ▸ wrong, rfl⟩
        refine .inr ⟨⟨_, elsewhere, rfl⟩, locator, target, pointer, offers_eq toured ▸ opens,
          isRegistered, isExposed, ?_⟩
        exact wrong.trans (congrArg some (Problem.withHost_of_schema kind _).symm)

section

open ApiLinker.Document

theorem wellFormed_dangling : Graph.WellFormed { schemaCount := 2 } dangling := by
  refine wellFormed_ofSchemas [
    .node 0 (.pointer "#/components/schemas/B"),
    .node 1 (.pointer "#/components/schemas/M")] (by decide) fun entry member => ?_
  simp only [List.mem_cons, List.not_mem_nil, or_false] at member
  rcases member with rfl | rfl <;> exact Schema.isIn_of_childless rfl rfl

/-- What the first walk reports at `A`, the second one reports at `A` and `B`. -/
theorem walk_repeats_dangling :
    let linker := ofDocument (.ofDocument { schemaCount := 2 } dangling) dangling {}
    let walked := linker.walk { schemaCount := 2 } dangling
    let second := (linker.walk walked.2.1 walked.2.2).1.diagnostics
    second.map Diagnostic.path = [["components", "schemas", "A"], ["components", "schemas", "B"]] ∧
      ∀ diagnostic ∈ second, diagnostic ∈ walked.1.diagnostics ∨
        (∃ other ∈ walked.1.diagnostics, other.problem = diagnostic.problem) ∧
          ∃ locator schema pointer,
            linker.lookup.Opens
              (Graph.Provides { schemaCount := 2 } dangling walked.2.1 walked.2.2) locator ∧
            linker.lookup.registry.get? locator = some schema ∧
            pointer ∈ (linker.lookup.expansion schema).exposed ∧
            linker.lookup.problem? pointer = some diagnostic.problem :=
  ⟨by decide +kernel, (walk_repeats { schemaCount := 2 } dangling {} wellFormed_dangling).2⟩

/-- The report at `B` is new. -/
theorem walk_dangling_again :
    let linker := ofDocument (.ofDocument { schemaCount := 2 } dangling) dangling {}
    let walked := linker.walk { schemaCount := 2 } dangling
    ¬ ∀ diagnostic ∈ (linker.walk walked.2.1 walked.2.2).1.diagnostics,
        diagnostic ∈ walked.1.diagnostics := by
  decide +kernel

end

end Linker

end ApiLinker
