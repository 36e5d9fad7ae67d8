import ApiLinker.Proofs.Linking.Asked
import ApiLinker.Proofs.Linking.Reported

/-!
Reports on missing schemas.

A walk looks once into the schema at each site, and once into what is registered under each locator
that a name or a followed pointer has.  So it reports what is missing in a named schema once, but
also once more for every locator inside that schema that a pointer is followed to.
-/

namespace ApiLinker

def Problem.isMissingSchema : Problem → Bool
  | .schemaNotFound _ _ => true
  | .notFound _ _ | .categoryMismatch _ _ | .externalReference _ | .externalSchema _ => false

/-- A schema that is held without being registered by name. -/
def Held.slot? : Held → Option Schema
  | .schema held => some held
  | .edge _ _ | .tag _ | .namedSchema _ _ => none

/-- A schema to look into: the one at a site, or the one that is registered under a locator. -/
inductive Source where
  | site (site : Site)
  | locator (locator : String)

/-- The schema was held, whether by name or not, at a site that can be reached afterwards. -/
def Graph.Provides (graph : Graph) (document : Document) (laterGraph : Graph) (later : Document)
    (schema : Schema) : Prop :=
  ∃ (site : Site) (held : Held), laterGraph.Includes later site.holder ∧
    site.held? graph document = some held ∧ held.schema? = some schema

namespace Lookup

def missing? (lookup : Lookup) (query : Query) : Option Diagnostic :=
  query.sought.pointer?.bind fun pointer =>
    if Reference.isExternal { pointer } then none
    else match lookup.registry.get? (Locator.ofPointer lookup.authority pointer) with
      | some _ => none
      | none => some {
          path := query.path
          problem := .schemaNotFound pointer (Locator.ofPointer lookup.authority pointer) }

/-- The reports on a schema at a path: one for each node, not beneath another with a pointer, whose
own pointer is local and has nothing registered under its locator. -/
def missing (lookup : Lookup) (schema : Schema) (path : List String) : List Diagnostic :=
  (schema.queries path).filterMap lookup.missing?

variable {lookup : Lookup} {schema : Schema}

theorem missing_eq_nil (fine : ∀ pointer ∈ schema.exposed, lookup.problem? pointer = none)
    (path : List String) : lookup.missing schema path = [] := by
  refine List.filterMap_eq_nil_iff.mpr fun query member => ?_
  obtain ⟨pointer, isExposed, sought⟩ := Schema.exposed_of_mem_queries member
  cases isExternal : Reference.isExternal { pointer } with
  | true => simp [missing?, sought, Sought.pointer?, isExternal]
  | false =>
      cases registered : lookup.registry.get? (Locator.ofPointer lookup.authority pointer) with
      | some schema => simp [missing?, sought, Sought.pointer?, isExternal, registered]
      | none =>
          cases (fine pointer isExposed).symm.trans (problem?_missing isExternal registered)

theorem length_missing_le (lookup : Lookup) (schema : Schema) (path : List String) :
    (lookup.missing schema path).length ≤ schema.exposed.length := by
  have same := congrArg List.length (Schema.sought_queries schema path)
  rw [List.length_map, List.length_map] at same
  exact Nat.le_trans (List.length_filterMap_le _ _) (Nat.le_of_eq same)

end Lookup

namespace Source

variable (lookup : Lookup) (graph : Graph) (document : Document)
variable (laterGraph : Graph) (later : Document)

/-- The source is a schema of the document: one at a site, or one with a name. -/
def IsHeld : Source → Prop
  | .site here => laterGraph.Includes later here.holder ∧
      ∃ schema, here.held? graph document = some (.schema schema)
  | .locator text => ∃ name ∈ document.namedObjects.schemas.names,
      Locator.ofPointer lookup.authority (Registry.componentPointer name) = text

/-- A pointer is followed to the source. -/
def IsFollowed : Source → Prop
  | .site _ => False
  | .locator text => lookup.Opens (graph.Provides document laterGraph later) text

/-- The schema is that of the source.  A site can be looked into along paths that lead to it. -/
inductive Gives : Source → (path : List String) → Schema → Prop where
  | site {site : Site} {path : List String} {schema : Schema}
      (follows : laterGraph.Follows later path site)
      (found : site.held? graph document = some (.schema schema)) :
      Gives (.site site) path schema
  | locator {locator : String} {path : List String} {schema : Schema}
      (registered : lookup.registry.get? locator = some schema) :
      Gives (.locator locator) path schema

end Source

namespace Linker

open ApiLinker.Graph

/-- The diagnostics are the reports on the sources, each once. -/
def ReportsOn (lookup : Lookup) (graph : Graph) (document : Document) (laterGraph : Graph)
    (later : Document) (isSource : Source → Prop) (diagnostics : List Diagnostic) : Prop :=
  ∃ (sources : List Source) (parts : List (List Diagnostic)), sources.Nodup ∧
    (∀ source, source ∈ sources ↔ isSource source) ∧
    List.Forall₂ (fun source part => ∃ path schema,
      source.Gives lookup graph document laterGraph later path schema ∧
        part = lookup.missing schema path) sources parts ∧
    diagnostics.Perm parts.flatten

variable {linker : Linker} {graph laterGraph : Graph} {document later : Document}
variable {R : Schema → Schema → Prop} {asked : List Query} {opened : List String}

theorem isMissingSchema_of_isComponent {problem : Problem} (host : Option String)
    (isComponent : problem.isComponent = true) :
    (problem.withHost host).isMissingSchema = false := by
  cases host <;> cases problem <;> first | rfl | cases isComponent

/-- Of the reports on a query, those on missing schemas are kept. -/
theorem missing?_eq (host : Option String) (query : Query) :
    ((linker.diagnostic? query).map (Diagnostic.withHost host)).filter
        (fun diagnostic => diagnostic.problem.isMissingSchema) =
      linker.lookup.missing? query := by
  obtain ⟨path, sought⟩ := query
  have component (isComponent : sought.isComponent = true) :
      ((linker.diagnostic? ⟨path, sought⟩).map (Diagnostic.withHost host)).filter
        (fun diagnostic => diagnostic.problem.isMissingSchema) = none := by
    cases wrong : linker.problem? sought with
    | none => simp [diagnostic?, wrong]
    | some problem =>
        have kind := (isComponent_of_problem? wrong).trans isComponent
        simp [diagnostic?, wrong, Diagnostic.withHost, isMissingSchema_of_isComponent host kind]
  cases sought with
  | component | tag => exact component rfl
  | named => rfl
  | pointer text =>
      simp only [diagnostic?, problem?, Lookup.problem?, Lookup.missing?, Sought.pointer?,
        Option.bind_some]
      split
      · cases linker.lookup.strict <;> cases host <;> rfl
      · cases linker.lookup.registry.get? (Locator.ofPointer linker.lookup.authority text) <;>
          cases host <;> rfl

theorem filter_missing (host : Option String) (asked : List Query) :
    ((asked.filterMap linker.diagnostic?).map (Diagnostic.withHost host)).filter
        (fun diagnostic => diagnostic.problem.isMissingSchema) =
      asked.filterMap linker.lookup.missing? := by
  rw [List.map_filterMap, List.filter_filterMap]
  exact List.filterMap_congr fun query _ => missing?_eq host query

/-- The schemas at the stops are those that are held at sites which can be reached afterwards. -/
theorem offers_eq
    (toured : linker.Toured (linker.change laterGraph R) graph document laterGraph later) :
    Offers (graph.tour linker.index [] document).1 =
      graph.Provides document laterGraph later := by
  obtain ⟨sites, _, isSite, stops⟩ := sites_of_tour graph linker.index [] document
  funext schema
  refine propext ⟨?_, ?_⟩
  · rintro ⟨stop, met, isSchema⟩
    obtain ⟨site, member, held, base, stopsAt⟩ := ListRel.exists_of_mem_right stops met
    rw [stopsAt.same] at isSchema
    exact ⟨site, held, toured.includes_of_holder ((isSite site).mp member).1, stopsAt.found,
      isSchema⟩
  · rintro ⟨site, held, includes, found, isSchema⟩
    have isHolder := toured.holder_of_includes includes found
    obtain ⟨stop, met, _, _, stopsAt⟩ :=
      ListRel.exists_of_mem_left stops ((isSite site).mpr ⟨isHolder, held, found⟩)
    refine ⟨stop, met, ?_⟩
    rw [stopsAt.same]
    cases stopsAt.found.symm.trans found
    exact isSchema

/-- What a walk opens are the locators of the names, and those of the pointers that are followed. -/
theorem opened_iff (linked : linker.lookup.Linked)
    (registers : linker.lookup.Registers
      ((graph.tour linker.index [] document).1.flatMap Stop.queries))
    (asks : linker.lookup.Asks []
      ((graph.tour linker.index [] document).1.flatMap Stop.queries) asked opened)
    {locator : String} :
    locator ∈ opened ↔
      (∃ name ∈ document.namedObjects.schemas.names,
        Locator.ofPointer linker.lookup.authority (Registry.componentPointer name) = locator) ∨
      linker.lookup.Opens (Offers (graph.tour linker.index [] document).1) locator := by
  constructor
  · intro isOpen
    rcases asks.opened_by isOpen with never | ⟨query, met, schema, found, _⟩
    · cases never
    · refine (asks.opened_for met found).imp_left fun named => ?_
      obtain ⟨stop, isStop, name, held, _, same⟩ := named
      exact ⟨name, List.mem_map_of_mem (mem_schemas_of_stop isStop held), same⟩
  · rintro (⟨name, isName, rfl⟩ | ⟨source, pointer, schema, looks, isExposed, isTarget, rfl⟩)
    · obtain ⟨⟨given, schema⟩, member, rfl⟩ := List.mem_map.mp isName
      obtain ⟨stop, met, held⟩ := @stop_of_document_holds graph linker.index [] document _
        (Document.holds_of_mem_schemas member)
      have member : ⟨stop.path, .named given schema⟩ ∈ stop.queries := by
        rw [Stop.queries, held]
        exact List.mem_singleton.mpr rfl
      exact asks.opened (asks.queries_asked _ (List.mem_flatMap.mpr ⟨stop, met, member⟩)) rfl
    · obtain ⟨path, within⟩ := asks.asks_looks linked registers looks
      obtain ⟨query, member, sought⟩ := Schema.query_of_mem_exposed isExposed path
      have opens : linker.lookup.opens? query.sought =
          some (Locator.ofPointer linker.lookup.authority pointer, schema) := by
        simp [sought, Lookup.opens?, isTarget]
      exact asks.opened (within query member) opens

section

/-! The sources of a walk, in the order of its stops and of what it opens. -/

variable (lookup : Lookup) (graph document)

def siteSource? (site : Site) : Option Source :=
  ((site.held? graph document).bind Held.slot?).map fun _ => .site site

def sitePart? (stop : Stop) : Option (List Diagnostic) :=
  stop.held.slot?.map fun schema => lookup.missing schema stop.path

theorem filterMap_queries (stop : Stop) :
    stop.queries.filterMap lookup.missing? = (sitePart? lookup stop).getD [] := by
  obtain ⟨holder, path, held⟩ := stop
  cases held with
  | edge category edge => cases edge <;> rfl
  | tag edge => cases edge <;> rfl
  | schema | namedSchema => rfl

theorem flatten_siteParts (stops : List Stop) :
    (stops.filterMap (sitePart? lookup)).flatten =
      (stops.flatMap Stop.queries).filterMap lookup.missing? := by
  induction stops with
  | nil => rfl
  | cons stop rest ih =>
      rw [List.flatMap_cons, List.filterMap_append, filterMap_queries, ← ih, List.filterMap_cons]
      cases sitePart? lookup stop <;> rfl

end

theorem siteSource?_eq_some {site : Site} {source : Source} :
    siteSource? graph document site = some source ↔ source = .site site ∧
      ∃ schema, site.held? graph document = some (.schema schema) := by
  have slot_iff (held : Held) (schema : Schema) :
      held.slot? = some schema ↔ held = .schema schema := by
    cases held <;> simp [Held.slot?]
  simp only [siteSource?, Option.map_eq_some_iff, Option.bind_eq_some_iff, slot_iff]
  constructor
  · rintro ⟨schema, ⟨_, found, rfl⟩, rfl⟩
    exact ⟨rfl, schema, found⟩
  · rintro ⟨rfl, schema, found⟩
    exact ⟨schema, ⟨_, found, rfl⟩, rfl⟩

/-- Each schema at a site is looked into there. -/
theorem reportsOn_sites
    (toured : linker.Toured (linker.change laterGraph R) graph document laterGraph later) :
    ReportsOn linker.lookup graph document laterGraph later
      (fun source => ∃ site, source = .site site ∧
        source.IsHeld linker.lookup graph document laterGraph later)
      (((graph.tour linker.index [] document).1.flatMap Stop.queries).filterMap
        linker.lookup.missing?) := by
  obtain ⟨sites, distinct, isSite, stops⟩ := sites_of_tour graph linker.index [] document
  refine ⟨sites.filterMap (siteSource? graph document),
    (graph.tour linker.index [] document).1.filterMap (sitePart? linker.lookup), ?_, ?_, ?_, ?_⟩
  · refine distinct.filterMap fun site other source isSource isOther => ?_
    obtain ⟨rfl, _⟩ := siteSource?_eq_some.mp isSource
    obtain ⟨same, _⟩ := siteSource?_eq_some.mp isOther
    cases same
    rfl
  · intro source
    simp only [List.mem_filterMap, siteSource?_eq_some, isSite]
    constructor
    · rintro ⟨site, ⟨isHolder, _⟩, rfl, held⟩
      exact ⟨site, rfl, toured.includes_of_holder isHolder, held⟩
    · rintro ⟨site, rfl, includes, schema, found⟩
      exact ⟨site, ⟨toured.holder_of_includes includes found, _, found⟩, rfl, schema, found⟩
  · have holders := ListRel.imp_of_mem stops fun site member stop stopsAt =>
      And.intro ((isSite site).mp member).1 stopsAt
    refine List.rel_filterMap (fun site stop both => ?_) holders
    obtain ⟨isHolder, held, base, stopsAt⟩ := both
    have follows := toured.follows_of_stopsAt stopsAt isHolder
    have same : stop.held = held := by rw [stopsAt.same]
    simp only [siteSource?, sitePart?, stopsAt.found, Option.bind_some, same]
    cases held with
    | edge | tag | namedSchema => exact .none
    | schema schema => exact .some ⟨stop.path, schema, .site follows stopsAt.found, rfl⟩
  · rw [flatten_siteParts]

/-- The schemas of different openings are looked into under their locators. -/
theorem reportsOn_openings {openings : List Lookup.Opening}
    (distinct : (openings.map Lookup.Opening.locator).Nodup)
    (registered : ∀ opening ∈ openings,
      linker.lookup.registry.get? opening.locator = some opening.schema) :
    ReportsOn linker.lookup graph document laterGraph later
      (fun source => ∃ locator ∈ openings.map Lookup.Opening.locator, source = .locator locator)
      ((openings.flatMap Lookup.Opening.queries).filterMap linker.lookup.missing?) := by
  refine ⟨openings.map fun opening => .locator opening.locator,
    openings.map fun opening => linker.lookup.missing opening.schema opening.path, ?_, ?_, ?_, ?_⟩
  · have different := distinct.map (fun left right same => by cases same; rfl :
      Function.Injective Source.locator)
    rwa [List.map_map] at different
  · intro source
    simp [eq_comm]
  · rw [List.forall₂_map_left_iff, List.forall₂_map_right_iff]
    refine List.forall₂_same.mpr fun opening member => ?_
    exact ⟨opening.path, opening.schema, .locator (registered opening member), rfl⟩
  · rw [List.filterMap_flatMap, ← List.flatMap_def]
    exact .refl _

theorem ReportsOn.append {lookup : Lookup} {isFirst isSecond isSource : Source → Prop}
    {diagnostics others : List Diagnostic}
    (first : ReportsOn lookup graph document laterGraph later isFirst diagnostics)
    (second : ReportsOn lookup graph document laterGraph later isSecond others)
    (disjoint : ∀ source, isFirst source → ¬ isSecond source)
    (either : ∀ source, isSource source ↔ isFirst source ∨ isSecond source) :
    ReportsOn lookup graph document laterGraph later isSource (diagnostics ++ others) := by
  obtain ⟨sources, parts, distinct, member, given, all⟩ := first
  obtain ⟨moreSources, moreParts, moreDistinct, moreMember, moreGiven, moreAll⟩ := second
  refine ⟨sources ++ moreSources, parts ++ moreParts, ?_, ?_, ?_, ?_⟩
  · refine List.nodup_append'.mpr ⟨distinct, moreDistinct, fun source isOne isOther => ?_⟩
    exact disjoint source ((member source).mp isOne) ((moreMember source).mp isOther)
  · intro source
    rw [List.mem_append, member, moreMember, either]
  · exact List.rel_append given moreGiven
  · rw [List.flatten_append]
    exact all.append moreAll

theorem ReportsOn.perm {lookup : Lookup} {isSource : Source → Prop}
    {diagnostics others : List Diagnostic}
    (reports : ReportsOn lookup graph document laterGraph later isSource diagnostics)
    (same : others.Perm diagnostics) :
    ReportsOn lookup graph document laterGraph later isSource others := by
  obtain ⟨sources, parts, distinct, member, given, all⟩ := reports
  exact ⟨sources, parts, distinct, member, given, same.trans all⟩

/-- Sources on which there is nothing to report can be left out. -/
theorem ReportsOn.of_silent {lookup : Lookup} {isSource isKept : Source → Prop}
    {diagnostics : List Diagnostic}
    (reports : ReportsOn lookup graph document laterGraph later isSource diagnostics)
    (fewer : ∀ source, isKept source → isSource source)
    (silent : ∀ source path schema, isSource source → ¬ isKept source →
      source.Gives lookup graph document laterGraph later path schema →
      lookup.missing schema path = []) :
    ReportsOn lookup graph document laterGraph later isKept diagnostics := by
  classical
  obtain ⟨sources, parts, distinct, member, given, all⟩ := reports
  obtain ⟨kept, keptGiven, same⟩ := ListRel.filter_flatten (P := isKept) given (by
    rintro source isIn _ left ⟨path, schema, gives, rfl⟩
    exact silent source path schema ((member source).mp isIn) left gives)
  refine ⟨_, kept, distinct.filter _, fun source => ?_, keptGiven, by rwa [same]⟩
  rw [List.mem_filter, member, decide_eq_true_eq]
  exact ⟨And.right, fun keeps => ⟨fewer source keeps, keeps⟩⟩

/-- All that is asked for in schemas is asked for in those that are held or followed. -/
theorem reportsOn_asked (linked : linker.lookup.Linked)
    (registers : linker.lookup.Registers
      ((graph.tour linker.index [] document).1.flatMap Stop.queries))
    (toured : linker.Toured (linker.change laterGraph R) graph document laterGraph later)
    (asks : linker.lookup.Asks []
      ((graph.tour linker.index [] document).1.flatMap Stop.queries) asked opened) :
    ReportsOn linker.lookup graph document laterGraph later
      (fun source => source.IsHeld linker.lookup graph document laterGraph later ∨
        source.IsFollowed linker.lookup graph document laterGraph later)
      (asked.filterMap linker.lookup.missing?) := by
  obtain ⟨openings, all, locators, openedBy⟩ := asks.perm_openings
  rw [List.append_nil] at locators
  have registered : ∀ opening ∈ openings,
      linker.lookup.registry.get? opening.locator = some opening.schema := by
    intro opening member
    obtain ⟨query, met, found⟩ := openedBy opening member
    exact Lookup.registered_of_opens? linked (asks.registers registers) met found
  have different := locators.nodup_iff.mpr (asks.nodup linked registers List.nodup_nil)
  have isOpened (text : String) : text ∈ openings.map Lookup.Opening.locator ↔
      Source.IsHeld linker.lookup graph document laterGraph later (.locator text) ∨
        Source.IsFollowed linker.lookup graph document laterGraph later (.locator text) := by
    rw [locators.mem_iff, opened_iff linked registers asks, offers_eq toured]
    rfl
  refine ((reportsOn_sites toured).append (reportsOn_openings different registered) ?_ ?_).perm ?_
  · rintro source ⟨site, rfl, _⟩ ⟨locator, _, never⟩
    cases never
  · intro source
    constructor
    · intro either
      cases source with
      | site site => exact .inl ⟨site, rfl, either.resolve_right id⟩
      | locator text => exact .inr ⟨text, (isOpened text).mpr either, rfl⟩
    · rintro (⟨site, rfl, held⟩ | ⟨text, member, rfl⟩)
      · exact .inl held
      · exact (isOpened text).mp member
  · rw [← List.filterMap_append]
    exact all.filterMap _

/-- A walk reports what is missing in each schema that is held and in each that a pointer is
followed to, once for every site and for every locator.  Where nothing is missing in the latter,
apart from the named ones, that is one report for each pointer of the document that is missed. -/
theorem walk_missing (graph : Graph) (document : Document) (settings : Settings)
    (distinct : document.namedObjects.schemas.names.Nodup) :
    let linker := ofDocument (.ofDocument graph document) document settings
    let laterGraph := (linker.walk graph document).2.1
    let later := (linker.walk graph document).2.2
    let isHeld := Source.IsHeld linker.lookup graph document laterGraph later
    let isFollowed := Source.IsFollowed linker.lookup graph document laterGraph later
    let missing := (linker.walk graph document).1.diagnostics.filter
      fun diagnostic => diagnostic.problem.isMissingSchema
    ReportsOn linker.lookup graph document laterGraph later
        (fun source => isHeld source ∨ isFollowed source) missing ∧
      ((∀ source path schema, isFollowed source → ¬ isHeld source →
          source.Gives linker.lookup graph document laterGraph later path schema →
          linker.lookup.missing schema path = []) →
        ReportsOn linker.lookup graph document laterGraph later isHeld missing) := by
  intro linker laterGraph later isHeld isFollowed missing
  have linked : linker.lookup.Linked := linked_ofDocument
  have registers := registers_of_distinct graph (.ofDocument graph document) settings distinct
  obtain ⟨_, _, _, toured⟩ := toured_of_expandable linker graph document rfl rfl
    (linker.expandable_trivial _) trivial
  obtain ⟨asked, opened, asks, logged⟩ := walk_log_of_distinct graph (.ofDocument graph document)
    settings distinct
  have reported : missing = asked.filterMap linker.lookup.missing? :=
    (congrArg (List.filter _) logged).trans (filter_missing _ _)
  have onAll : ReportsOn linker.lookup graph document laterGraph later
      (fun source => isHeld source ∨ isFollowed source) missing :=
    reported ▸ reportsOn_asked linked registers toured asks
  exact ⟨onAll, fun silent => onAll.of_silent (fun source => Or.inl)
    fun source path schema either held =>
      silent source path schema (either.resolve_left held) held⟩

end Linker

section

/-! A pointer that is missed once, and one that is reported twice. -/

/-- `B` points to a schema that is not there, and `A` to `B`. -/
def Document.dangling : Document :=
  .ofSchemas [
    ("A", .node 0 (.pointer "#/components/schemas/B")),
    ("B", .node 1 (.pointer "#/components/schemas/M"))]

/-- `B` points to a schema that is not there from inside its items, and `A` to these items. -/
def Document.nested : Document :=
  .ofSchemas [
    ("A", .node 0 (.pointer "#/components/schemas/B/items")),
    ("B", .node 1 {
      items := some (.node 2 { items := some (.node 3 (.pointer "#/components/schemas/M")) }) })]

namespace Linker

open ApiLinker.Document ApiLinker.Graph

variable {laterGraph : Graph} {later : Document}

/-- All that is registered is named, so the missed pointer of `B` is reported once. -/
theorem walk_missing_dangling :
    let linker := ofDocument (.ofDocument { schemaCount := 2 } dangling) dangling {}
    let walked := linker.walk { schemaCount := 2 } dangling
    let lookup := linker.lookup
    (walked.1.diagnostics.map Diagnostic.path = [["components", "schemas", "A"]]) ∧
      ReportsOn lookup { schemaCount := 2 } dangling walked.2.1 walked.2.2
        (Source.IsHeld lookup { schemaCount := 2 } dangling walked.2.1 walked.2.2)
        (walked.1.diagnostics.filter fun diagnostic => diagnostic.problem.isMissingSchema) := by
  refine ⟨by decide +kernel, ?_⟩
  refine (walk_missing { schemaCount := 2 } dangling {} (by decide)).2 ?_
  intro source path schema followed notHeld gives
  cases gives with
  | site => cases followed
  | @locator text _ _ registered =>
      have named : ∀ entry ∈ (dangling.registry defaultAuthority).schemas,
          ∃ name ∈ dangling.namedObjects.schemas.names,
            Locator.ofPointer defaultAuthority (Registry.componentPointer name) = entry.1 := by
        decide +kernel
      exact absurd (named _ (Table.mem_of_find? registered)) notHeld

theorem not_slot_nested (site : Site) (schema : Schema) :
    site.held? { schemaCount := 4 } nested ≠ some (.schema schema) := by
  have named : ∀ held ∈ Place.helds nested.places, held.slot?.isNone = true := by decide
  intro found
  rcases holds_of_held? found with ⟨_, holds⟩ | ⟨id, entity, _, isEntity, _⟩
  · exact absurd (named _ (Document.holds_iff.mp holds)) Bool.noConfusion
  · simp [Graph.entity?] at isEntity

/-- The schemas of the document have one pointer that is missed. -/
theorem length_reportsOn_nested {diagnostics : List Diagnostic}
    (reports : ReportsOn (ofDocument (.ofDocument { schemaCount := 4 } nested) nested {}).lookup
      { schemaCount := 4 } nested laterGraph later
      (Source.IsHeld (ofDocument (.ofDocument { schemaCount := 4 } nested) nested {}).lookup
        { schemaCount := 4 } nested laterGraph later) diagnostics) :
    diagnostics.length ≤ 1 := by
  have registered {name : String} {schema : Schema}
      (member : (name, schema) ∈ nested.namedObjects.schemas) :=
    registered_of_distinct (.ofDocument { schemaCount := 4 } nested) {} (by decide) _ member
  have names : ∀ name ∈ nested.namedObjects.schemas.names, name = "A" ∨ name = "B" := by decide
  -- Nothing is missing in `A`, so all reports are on `B`.
  obtain ⟨sources, parts, distinct, isSource, given, all⟩ := reports.of_silent
    (fun source (same : source = .locator
        (Locator.ofPointer defaultAuthority (Registry.componentPointer "B"))) =>
      same ▸ ⟨"B", by decide, rfl⟩)
    (by
      intro source path schema held other gives
      cases gives with
      | site _ found => exact absurd found (not_slot_nested _ schema)
      | locator isRegistered =>
          obtain ⟨name, member, rfl⟩ := held
          rcases names name member with rfl | rfl
          · cases isRegistered.symm.trans (registered List.mem_cons_self)
            exact Lookup.missing_eq_nil (by decide +kernel) path
          · exact absurd rfl other)
  have single := List.perm_singleton.mp ((List.perm_ext_iff_of_nodup distinct
    (List.nodup_singleton _)).mpr fun source => by rw [isSource, List.mem_singleton])
  subst single
  cases given with
  | cons holds rest =>
      cases rest
      obtain ⟨path, schema, gives, rfl⟩ := holds
      cases gives with
      | locator isRegistered =>
          cases isRegistered.symm.trans (registered (.tail _ List.mem_cons_self))
          rw [all.length_eq, List.flatten_cons, List.flatten_nil, List.append_nil]
          exact Lookup.length_missing_le _ _ path

/-- The missed pointer of `B` is reported where `A` follows its pointer to it, and again where it
is. -/
theorem walk_missing_nested :
    let linker := ofDocument (.ofDocument { schemaCount := 4 } nested) nested {}
    let walked := linker.walk { schemaCount := 4 } nested
    let lookup := linker.lookup
    ¬ ReportsOn lookup { schemaCount := 4 } nested walked.2.1 walked.2.2
        (Source.IsHeld lookup { schemaCount := 4 } nested walked.2.1 walked.2.2)
        (walked.1.diagnostics.filter fun diagnostic => diagnostic.problem.isMissingSchema) :=
  fun reports => absurd (length_reportsOn_nested reports) (by decide +kernel)

end Linker

end

end ApiLinker
