import ApiLinker.Proofs.Index
import ApiLinker.Proofs.Linking.Complete
import ApiLinker.Proofs.Linking.Logging
import ApiLinker.Proofs.Linking.Site

/-!
Every placeholder that is left is reported once.

What a walk reports about references corresponds one to one to the sites that still hold a
placeholder, apart from external ones that are not asked about.
-/

namespace ApiLinker

namespace Held

/-- The reference that is still open, with the category of what it should name. -/
def placeholder? : Held → Option (Category × Reference)
  | .edge category (.placeholder reference) => some (category, reference)
  | .tag (.placeholder reference) => some (.tags, reference)
  | .edge _ _ | .tag _ | .schema _ | .namedSchema _ _ => none

def sought? : Held → Option Sought
  | .edge category (.placeholder reference) => some (.component category reference)
  | .tag (.placeholder reference) => some (.tag reference)
  | .edge _ _ | .tag _ | .schema _ | .namedSchema _ _ => none

theorem mem_queries_of_sought? {held : Held} {sought : Sought} (asks : held.sought? = some sought)
    (path : List String) : ⟨path, sought⟩ ∈ held.queries path := by
  cases held with
  | edge category edge =>
      cases edge with
      | placeholder => cases asks; exact List.mem_singleton.mpr rfl
      | linked | inline => cases asks
  | tag edge =>
      cases edge with
      | placeholder => cases asks; exact List.mem_singleton.mpr rfl
      | linked | inline => cases asks
  | schema | namedSchema => cases asks

end Held

/-- The segments that the location of a diagnostic is made of, with their escapes taken back. -/
def Diagnostic.segments (diagnostic : Diagnostic) : List String :=
  ((Pointer.splitSlashes diagnostic.location.toList).drop 1).map fun piece =>
    Pointer.unescape (String.ofList piece)

theorem Diagnostic.segments_eq (diagnostic : Diagnostic) :
    diagnostic.segments = diagnostic.path := by
  rw [segments, location, Pointer.splitSlashes_ofSegments, List.drop_one, List.tail_cons,
    List.map_map]
  refine List.map_id'' (fun segment => ?_) _
  exact Pointer.unescape_escape segment

/-- A problem with a reference and not with a schema pointer. -/
def Problem.isComponent (problem : Problem) : Bool :=
  problem.reference?.isSome

theorem Problem.isComponent_withHost (host : Option String) (problem : Problem) :
    (problem.withHost host).isComponent = problem.isComponent := by
  cases host <;> cases problem <;> rfl

theorem Problem.reference?_withHost {host : Option String} {problem : Problem}
    {reference : Reference} (about : problem.reference? = some reference) :
    (problem.withHost host).reference? =
      some { reference with host := host <|> reference.host } := by
  cases host <;> cases problem <;> cases about <;> rfl

theorem Index.reference?_of_resolve {index : Index} {category : Category} {reference : Reference}
    {problem : Problem} (failed : index.resolve category reference = .error problem) :
    problem.reference? = some reference := by
  obtain rfl | rfl := Index.eq_of_resolve_error failed <;> rfl

/-- What is wrong with an external reference is that it is external, where that is asked about, and
with a local one what the index says. -/
inductive Index.Misses (index : Index) (strict : Bool) (category : Category)
    (reference : Reference) : Problem → Prop where
  | external (isExternal : reference.isExternal = true) (asked : strict = true) :
      Misses index strict category reference (.externalReference reference)
  | unresolved {problem : Problem} (isLocal : reference.isExternal = false)
      (failed : index.resolve category reference = .error problem) :
      Misses index strict category reference problem

namespace Index

variable {index : Index} {strict : Bool} {category : Category} {reference : Reference}
variable {problem : Problem}

theorem problem?_eq_some_iff :
    index.problem? strict category reference = some problem ↔
      index.Misses strict category reference problem := by
  constructor
  · intro found
    rw [problem?] at found
    split at found
    · rename_i isExternal
      split at found
      · rename_i asked
        cases found
        exact .external isExternal asked
      · cases found
    · rename_i isLocal
      split at found
      · cases found
      · rename_i failed
        cases found
        exact .unresolved (Bool.not_eq_true _ ▸ isLocal) failed
  · intro misses
    cases misses with
    | external isExternal asked => simp [problem?, isExternal, asked]
    | unresolved isLocal failed => simp [problem?, isLocal, failed]

theorem Misses.reference? (misses : index.Misses strict category reference problem) :
    problem.reference? = some reference := by
  cases misses with
  | external => rfl
  | unresolved _ failed => exact reference?_of_resolve failed

theorem Misses.link_eq (misses : index.Misses strict category reference problem) :
    index.link category (.placeholder reference) = .placeholder reference := by
  cases misses with
  | external isExternal => simp [link, isExternal]
  | unresolved _ failed => simp [link, failed]

theorem Misses.asked (misses : index.Misses strict category reference problem)
    (isExternal : reference.isExternal = true) : strict = true := by
  cases misses with
  | external _ asked => exact asked
  | unresolved isLocal => cases isLocal.symm.trans isExternal

theorem exists_misses
    (unresolved : reference.isExternal = true ∨
      ∃ problem, index.resolve category reference = .error problem)
    (asked : reference.isExternal = true → strict = true) :
    ∃ problem, index.Misses strict category reference problem := by
  cases isExternal : reference.isExternal with
  | true => exact ⟨_, .external isExternal (asked isExternal)⟩
  | false =>
      rcases unresolved with never | ⟨problem, failed⟩
      · cases isExternal.symm.trans never
      · exact ⟨problem, .unresolved isExternal failed⟩

end Index

namespace Linker

open ApiLinker.Graph

variable {linker : Linker} {graph laterGraph : Graph} {document later : Document}
variable {R : Schema → Schema → Prop}

/-- What is missed at a place is a placeholder. -/
theorem misses_of_problem? {held : Held} {sought : Sought} {problem : Problem}
    (asks : held.sought? = some sought) (wrong : linker.problem? sought = some problem) :
    ∃ category reference, held.placeholder? = some (category, reference) ∧
      linker.index.Misses linker.lookup.strict category reference problem := by
  cases held with
  | edge category edge =>
      cases edge with
      | placeholder reference =>
          cases asks
          exact ⟨category, reference, rfl, Index.problem?_eq_some_iff.mp wrong⟩
      | linked | inline => cases asks
  | tag edge =>
      cases edge with
      | placeholder reference =>
          cases asks
          have known : ¬ linker.MakesUp reference := fun missing => by
            cases (problem?_tag_of_makesUp missing).symm.trans wrong
          rw [problem?_tag known] at wrong
          exact ⟨.tags, reference, rfl, Index.problem?_eq_some_iff.mp wrong⟩
      | linked | inline => cases asks
  | schema | namedSchema => cases asks

/-- Where something is missed, nothing changes. -/
theorem eq_of_problem? {before after : Held} {sought : Sought} {problem : Problem}
    (allowed : (linker.change laterGraph R).Allows before after)
    (asks : before.sought? = some sought) (wrong : linker.problem? sought = some problem) :
    after = before := by
  obtain ⟨category, reference, isOpen, misses⟩ := misses_of_problem? asks wrong
  cases allowed with
  | @edge _ edge _ links =>
      cases edge with
      | placeholder => cases isOpen; rw [links.eq_link, misses.link_eq]
      | linked | inline => cases isOpen
  | @tag edge _ links =>
      cases edge with
      | placeholder =>
          cases isOpen
          cases asks
          cases links with
          | lookedUp _ links => rw [links.eq_link, misses.link_eq]
          | madeUp missing => cases (problem?_tag_of_makesUp missing).symm.trans wrong
      | linked | inline => cases isOpen
  | schema | namedSchema => cases asks

/-- A placeholder that is left was missed, if it is one that is asked about. -/
theorem problem?_of_placeholder {before after : Held} {category : Category} {reference : Reference}
    (allowed : (linker.change laterGraph R).Allows before after)
    (isLeft : after.placeholder? = some (category, reference))
    (asked : reference.isExternal = true → linker.lookup.strict = true) :
    ∃ sought problem, before.sought? = some sought ∧ linker.problem? sought = some problem := by
  cases allowed with
  | @edge _ _ edge links =>
      cases edge with
      | placeholder =>
          cases isLeft
          obtain ⟨problem, misses⟩ := Index.exists_misses links.unresolved asked
          have wrong := Index.problem?_eq_some_iff.mpr misses
          cases links with
          | external | missing => exact ⟨_, problem, rfl, wrong⟩
      | linked | inline => cases isLeft
  | @tag _ edge links =>
      cases edge with
      | placeholder =>
          cases isLeft
          obtain ⟨problem, misses⟩ := Index.exists_misses links.unresolved asked
          have known := links.known _ rfl
          have wrong := (problem?_tag known).trans (Index.problem?_eq_some_iff.mpr misses)
          cases links with
          | lookedUp _ links =>
              cases links with
              | external | missing => exact ⟨_, problem, rfl, wrong⟩
      | linked | inline => cases isLeft
  | schema | namedSchema => cases isLeft

section

/-! The reports of a walk on references. -/

/-- What is reported at a stop about references. -/
def complaint? (linker : Linker) (stop : Stop) : Option Diagnostic :=
  (stop.held.sought?.bind linker.problem?).map (Diagnostic.mk stop.path)

theorem isComponent_of_problem? {sought : Sought} {problem : Problem}
    (wrong : linker.problem? sought = some problem) :
    problem.isComponent = sought.isComponent := by
  cases sought with
  | component category reference =>
      rw [Problem.isComponent, (Index.problem?_eq_some_iff.mp wrong).reference?]
      rfl
  | tag reference =>
      have asks : (Held.tag (.placeholder reference)).sought? = some (.tag reference) := rfl
      obtain ⟨_, _, isOpen, misses⟩ := misses_of_problem? asks wrong
      rw [Problem.isComponent, misses.reference?]
      rfl
  | pointer pointer =>
      simp only [problem?, Lookup.problem?] at wrong
      split at wrong <;> split at wrong <;> cases wrong <;> rfl
  | named => cases wrong

theorem reports_component (asked : List Query) :
    linker.reports Problem.isComponent asked =
      (asked.filter (·.sought.isComponent)).filterMap linker.diagnostic? := by
  rw [reports]
  induction asked with
  | nil => rfl
  | cons query rest ih =>
      cases wrong : linker.problem? query.sought with
      | none =>
          have silent : linker.diagnostic? query = none := by rw [diagnostic?, wrong]; rfl
          rw [List.filterMap_cons_none silent, ih, List.filter_cons]
          split
          · rw [List.filterMap_cons_none silent]
          · rfl
      | some problem =>
          have reports : linker.diagnostic? query = some ⟨query.path, problem⟩ := by
            rw [diagnostic?, wrong]; rfl
          rw [List.filterMap_cons_some reports, List.filter_cons, List.filter_cons, ih]
          simp only [isComponent_of_problem? wrong]
          split
          · rw [List.filterMap_cons_some reports]
          · rfl

theorem filter_queries (stop : Stop) :
    (stop.queries.filter (·.sought.isComponent)).filterMap linker.diagnostic? =
      (linker.complaint? stop).toList := by
  obtain ⟨holder, path, held⟩ := stop
  have single (query : Query) (isComponent : query.sought.isComponent = true) :
      ([query].filter (·.sought.isComponent)).filterMap linker.diagnostic? =
        (linker.diagnostic? query).toList := by
    cases found : linker.diagnostic? query <;> simp [isComponent, found]
  cases held with
  | edge category edge =>
      cases edge with
      | placeholder reference => exact single ⟨path, .component category reference⟩ rfl
      | linked | inline => rfl
  | tag edge =>
      cases edge with
      | placeholder reference => exact single ⟨path, .tag reference⟩ rfl
      | linked | inline => rfl
  | schema schema =>
      have none : (schema.queries path).filter (·.sought.isComponent) = [] :=
        Schema.filter_component_queries schema path
      rw [Stop.queries, Held.queries, none]
      rfl
  | namedSchema => rfl

/-- The reports of a walk on references are what is reported at its stops, in order. -/
theorem filter_diagnostics (linker : Linker) (graph : Graph) (document : Document)
    (unentered : linker.entered = []) (unexpanded : linker.expanded = [])
    (unreported : linker.diagnostics = []) (linked : linker.lookup.Linked) :
    (linker.walk graph document).1.diagnostics.filter (·.problem.isComponent) =
      ((graph.tour linker.index [] document).1.filterMap linker.complaint?).map
        (Diagnostic.withHost document.location) := by
  have unheeded : ∀ locator, linker.Covers Problem.isComponent locator := fun locator =>
    .inr fun _ => rfl
  obtain ⟨asked, later, asks, logged⟩ := walk_reports_asked linker graph document unentered
    unexpanded linked fun _ _ => unheeded _
  rw [reports_component, asks.filter_component, List.filter_flatMap, List.filterMap_flatMap]
    at logged
  simp only [filter_queries] at logged
  rw [walk_diagnostics, unreported, List.nil_append, List.filter_map,
    List.filterMap_eq_flatMap_toList, ← logged]
  congr 1
  refine List.filter_congr fun diagnostic _ => ?_
  exact Problem.isComponent_withHost _ _

end

/-- The diagnostic reports the placeholder that was at the site and is left there. -/
structure ReportedBy (index : Index) (strict : Bool) (graph : Graph) (document : Document)
    (laterGraph : Graph) (later : Document) (site : Site) (diagnostic : Diagnostic) : Prop where
  /-- The location leads to the site. -/
  follows : laterGraph.Follows later diagnostic.segments site
  kept : site.held? laterGraph later = site.held? graph document
  problem : ∃ held category reference problem,
    site.held? graph document = some held ∧
      held.placeholder? = some (category, reference) ∧
      index.Misses strict category reference problem ∧
      diagnostic.problem = problem.withHost document.location ∧
      diagnostic.problem.reference? =
        some { reference with host := document.location <|> reference.host }

/-- What is wrong at a site. -/
def problemAt? (linker : Linker) (graph : Graph) (document : Document) (site : Site) :
    Option Problem :=
  (site.held? graph document).bind fun held => held.sought?.bind linker.problem?

theorem problemAt?_eq_some {site : Site} {problem : Problem}
    (wrong : linker.problemAt? graph document site = some problem) :
    ∃ held sought, site.held? graph document = some held ∧
      held.sought? = some sought ∧ linker.problem? sought = some problem := by
  obtain ⟨held, found, wrong⟩ := Option.bind_eq_some_iff.mp wrong
  obtain ⟨sought, asks, wrong⟩ := Option.bind_eq_some_iff.mp wrong
  exact ⟨held, sought, found, asks, wrong⟩

/-- What is wrong at a site is reported at its stop. -/
theorem complaint?_of_stopsAt {site : Site} {stop : Stop} {held : Held} {base : List String}
    (stopsAt : graph.StopsAt linker.index [] document site stop held base) :
    linker.complaint? stop =
      (linker.problemAt? graph document site).map (Diagnostic.mk stop.path) := by
  rw [complaint?, problemAt?, stopsAt.found, stopsAt.same, Option.bind_some]

section

variable (toured : linker.Toured (linker.change laterGraph R) graph document laterGraph later)
include toured

/-- Something is wrong at a site that is toured if and only if it is left with a placeholder that
is asked about. -/
theorem wrong_iff {site : Site} :
    (site.holder ∈ graph.holders linker.index [] document ∧
        ∃ problem, linker.problemAt? graph document site = some problem) ↔
      laterGraph.Includes later site.holder ∧
        ∃ held category reference, site.held? laterGraph later = some held ∧
          held.placeholder? = some (category, reference) ∧
          (reference.isExternal = true → linker.lookup.strict = true) := by
  constructor
  · rintro ⟨isHolder, problem, wrong⟩
    obtain ⟨before, sought, found, asks, wrong⟩ := problemAt?_eq_some wrong
    obtain ⟨after, isAfter, allowed⟩ := toured.held_after keepsNames_change isHolder found
    obtain ⟨category, reference, isOpen, misses⟩ := misses_of_problem? asks wrong
    rw [← eq_of_problem? allowed asks wrong] at isOpen
    exact ⟨toured.includes_of_holder isHolder, after, category, reference, isAfter, isOpen,
      misses.asked⟩
  · rintro ⟨includes, after, category, reference, isAfter, isLeft, asked⟩
    have isHolder := toured.holder_of_site includes isAfter
    obtain ⟨before, found, allowed⟩ := toured.held_before keepsNames_change isHolder isAfter
    obtain ⟨sought, problem, asks, wrong⟩ := problem?_of_placeholder allowed isLeft asked
    refine ⟨isHolder, problem, ?_⟩
    simp only [problemAt?, found, Option.bind_some, asks, wrong]

/-- What is reported at a stop is about its site. -/
theorem reportedBy_of_complaint {site : Site} {stop : Stop} {held : Held} {base : List String}
    (stopsAt : graph.StopsAt linker.index [] document site stop held base)
    (isHolder : site.holder ∈ graph.holders linker.index [] document) {problem : Problem}
    (wrong : linker.problemAt? graph document site = some problem) :
    ReportedBy linker.index linker.lookup.strict graph document laterGraph later site
      (Diagnostic.withHost document.location ⟨stop.path, problem⟩) := by
  obtain ⟨before, sought, found, asks, wrong⟩ := problemAt?_eq_some wrong
  obtain ⟨after, isAfter, allowed⟩ := toured.held_after keepsNames_change isHolder found
  obtain ⟨category, reference, isOpen, misses⟩ := misses_of_problem? asks wrong
  refine ⟨?_, by rw [isAfter, found, eq_of_problem? allowed asks wrong], before, category,
    reference, problem, found, isOpen, misses, rfl,
    Problem.reference?_withHost misses.reference?⟩
  rw [Diagnostic.segments_eq]
  exact toured.follows_of_stopsAt stopsAt isHolder

end

/-- The reports of a walk on references correspond one to one to the sites in reach that are left
with a placeholder, external ones counting only in strict mode.  Each report leads to its site, and
says of the reference that is left there what is wrong with it. -/
theorem walk_reports (graph : Graph) (document : Document) (registry : Registry)
    (settings : Settings) :
    let index := Index.ofDocument graph document
    let linker := Linker.new index registry settings
    let laterGraph := (linker.walk graph document).2.1
    let later := (linker.walk graph document).2.2
    ∃ sites : List Site, sites.Nodup ∧
      (∀ site, site ∈ sites ↔ laterGraph.Includes later site.holder ∧
        ∃ held category reference, site.held? laterGraph later = some held ∧
          held.placeholder? = some (category, reference) ∧
          (reference.isExternal = true → settings.strict = true)) ∧
      List.Forall₂ (ReportedBy index settings.strict graph document laterGraph later) sites
        ((linker.walk graph document).1.diagnostics.filter (·.problem.reference?.isSome)) := by
  intro index linker laterGraph later
  obtain ⟨_, _, _, toured⟩ := toured_of_expandable linker graph document rfl rfl
    (linker.expandable_trivial _) trivial
  obtain ⟨sites, distinct, isSite, stops⟩ := sites_of_tour graph index [] document
  refine ⟨sites.filter fun site => (linker.problemAt? graph document site).isSome,
    distinct.filter _, fun site => ?_, ?_⟩
  · rw [List.mem_filter, isSite, Option.isSome_iff_exists]
    refine Iff.trans ?_ (wrong_iff toured)
    constructor
    · rintro ⟨⟨isHolder, _⟩, wrong⟩
      exact ⟨isHolder, wrong⟩
    · rintro ⟨isHolder, problem, wrong⟩
      obtain ⟨held, _, found, _⟩ := problemAt?_eq_some wrong
      exact ⟨⟨isHolder, held, found⟩, problem, wrong⟩
  · have reports := filter_diagnostics linker graph document rfl rfl rfl
      (Lookup.linked_ofRegistry registry settings)
    have holders := ListRel.imp_of_mem stops fun site member stop stopsAt =>
      And.intro ((isSite site).mp member).1 stopsAt
    refine Eq.mpr (congrArg _ reports) ?_
    rw [← List.filterMap_eq_filter, List.forall₂_map_right_iff]
    refine List.rel_filterMap (fun site stop both => ?_) holders
    obtain ⟨isHolder, held, base, stopsAt⟩ := both
    rw [complaint?_of_stopsAt stopsAt]
    cases wrong : linker.problemAt? graph document site with
    | none => simp only [Option.guard, wrong]; exact .none
    | some problem =>
        simp only [Option.guard, wrong]
        exact .some (reportedBy_of_complaint toured stopsAt isHolder wrong)

end Linker

end ApiLinker
