import ApiLinker.Proofs.Linking.Reported

/-!
What becomes of the tags that are asked for.

Where missing tags are made up, a walk leaves no local placeholder for a tag that names no other
category.  One that names a declared tag, and does not reach inside it, is linked to that tag; all
others of one name share a bare tag.  A tag that has the name of a declared one is made up for
pointers alone that reach inside a tag.
-/

namespace ApiLinker

open ApiLinker.Graph

/-- There is a tag of the name among the top-level tags. -/
def Document.DeclaresTag (graph : Graph) (document : Document) (name : String) : Prop :=
  ∃ edge ∈ document.tags, ∃ target tag, edge.target? = some target ∧
    graph.entity? target = some (.tag tag) ∧ tag.name = name

/-- The site holds a placeholder for a tag, which is local and names no other category. -/
def Site.AsksForTag (graph : Graph) (document : Document) (site : Site) (reference : Reference) :
    Prop :=
  site.held? graph document = some (.tag (.placeholder reference)) ∧
    reference.isExternal = false ∧
    ∀ category, reference.category? = some category → category = .tags

namespace Index

variable {graph : Graph} {document : Document} {reference : Reference}

theorem ofDocument_knows_tag_iff {name : String} :
    (ofDocument graph document).Knows .tags name ↔ document.DeclaresTag graph name := by
  constructor
  · rintro ⟨target, found⟩
    obtain ⟨edge, member, tag, leads, isTag, named⟩ := exists_tag_of_ofDocument found
    exact ⟨edge, member, target, tag, leads, isTag, named⟩
  · rintro ⟨edge, member, target, tag, leads, isTag, rfl⟩
    exact ofDocument_knows_tag member leads isTag

/-- A reference that names no other category is found, or it reaches inside an object or has a name
that is not registered. -/
theorem resolve_cases (index : Index) {category : Category}
    (fits : ∀ other, reference.category? = some other → other = category) :
    (reference.isNested = false ∧ ∃ target, index.entity? category reference.identifier =
        some target ∧ index.resolve category reference = .ok target) ∨
      ((reference.isNested = true ∨ ¬ index.Knows category reference.identifier) ∧
        index.resolve category reference = .error (.notFound category reference)) := by
  have named : reference.category?.any (· != category) = false := by
    cases found : reference.category? with
    | none => rfl
    | some other => simp [fits other found]
  rw [resolve, named]
  cases reference.isNested with
  | true => exact .inr ⟨.inl rfl, rfl⟩
  | false =>
      cases found : index.entity? category reference.identifier with
      | some target => exact .inl ⟨rfl, target, rfl, rfl⟩
      | none =>
          refine .inr ⟨.inr fun knows => ?_, rfl⟩
          obtain ⟨target, isTarget⟩ := knows
          cases found.symm.trans isTarget

end Index

namespace Linker

variable {linker : Linker} {graph laterGraph : Graph} {document later : Document}
variable {reference : Reference}

theorem MakesUp.fits (missing : linker.MakesUp reference) :
    ∀ category, reference.category? = some category → category = .tags := by
  obtain ⟨_, _, _, _, failed⟩ := missing
  intro category named
  by_contra different
  simp [Index.resolve, named, different] at failed

section

variable (asked : linker.synthesizeMissingTags = true) (isLocal : reference.isExternal = false)
variable (fits : ∀ category, reference.category? = some category → category = .tags)
include asked isLocal fits

theorem makesUp_iff : linker.MakesUp reference ↔
    reference.isNested = true ∨ ¬ linker.index.Knows .tags reference.identifier := by
  rcases linker.index.resolve_cases fits with
    ⟨whole, target, found, resolved⟩ | ⟨unknown, failed⟩
  · have known : linker.index.Knows .tags reference.identifier := ⟨target, found⟩
    simp [MakesUp, resolved, whole, known]
  · exact iff_of_true ⟨asked, isLocal, _, _, failed⟩ unknown

theorem problem?_tag_eq_none : linker.problem? (.tag reference) = none := by
  by_cases missing : linker.MakesUp reference
  · exact problem?_tag_of_makesUp missing
  · rcases linker.index.resolve_cases fits with ⟨_, target, _, resolved⟩ | ⟨_, failed⟩
    · rw [problem?_tag missing, Index.problem?, isLocal, resolved]
      rfl
    · exact absurd ⟨asked, isLocal, _, _, failed⟩ missing

end

section

/-! Which tags are made up. -/

/-- Rules by which tags are made up under certain names only. -/
def namedRules (names : String → Prop) : Rules Unit Progress where
  grows _ _ := True
  refl _ := trivial
  trans _ _ := trivial
  describes _ progress := ∀ name id, Table.find? name progress.synthesized = some id → names name

variable {names : String → Prop} {progress : Progress}

theorem yields_synthesizing_none {action : Visiting α}
    (described : (namedRules names).describes () progress)
    (same : (action progress).2.synthesized = progress.synthesized) :
    (namedRules names).Yields action (fun _ _ => True) () progress :=
  ⟨(), trivial, fun name id found => described name id (same ▸ found), trivial⟩

theorem synthesized_visitReference (path : List String) (category : Category) :
    (linker.visitReference path category reference progress).2.synthesized =
      progress.synthesized := by
  rw [visitReference]
  cases reference.isExternal with
  | true => cases linker.lookup.strict <;> rfl
  | false => cases linker.index.resolve category reference <;> rfl

theorem yields_named_synthesizeTag {name : String} (named : names name)
    (described : (namedRules names).describes () progress) :
    (namedRules names).Yields (Visiting.synthesizeTag name) (fun _ _ => True) () progress := by
  refine ⟨(), trivial, fun other id found => ?_, trivial⟩
  simp only [Visiting.synthesizeTag, modify, modifyGet, MonadStateOf.modifyGet, StateT.modifyGet]
    at found
  cases known : Table.find? name progress.synthesized with
  | some _ =>
      rw [known] at found
      exact described other id found
  | none =>
      rw [known] at found
      by_cases same : other = name
      · exact same ▸ named
      · exact described other id ((Table.find?_insert_of_ne same _ _).symm.trans found)

theorem yields_named_visitTagReference (path : List String)
    (named : linker.MakesUp reference → names reference.identifier)
    (described : (namedRules names).describes () progress) :
    (namedRules names).Yields (linker.visitTagReference path reference) (fun _ _ => True) ()
      progress := by
  rw [visitTagReference]
  split
  · exact yields_synthesizing_none described (synthesized_visitReference _ _)
  · rename_i isAsked
    simp only [Bool.or_eq_true, Bool.not_eq_true', not_or, Bool.not_eq_true, Bool.not_eq_false]
      at isAsked
    split
    · exact yields_synthesizing_none described rfl
    · rename_i category other failed
      have missing : linker.MakesUp reference :=
        ⟨isAsked.2, isAsked.1, category, other, failed⟩
      exact (yields_named_synthesizeTag (named missing) described).bind
        fun _ _ _ _ described _ => yields_synthesizing_none described rfl
    · exact yields_synthesizing_none described rfl

/-- Nothing is made up at a stop but a tag that the stop asks for. -/
theorem yields_named_visit {stop : Stop}
    (named : ∀ reference, stop.held = .tag (.placeholder reference) → linker.MakesUp reference →
      names reference.identifier)
    (described : (namedRules names).describes () progress) :
    (namedRules names).Yields (linker.visit stop) (fun _ _ => True) () progress := by
  rw [visit]
  cases held : stop.held with
  | edge category edge =>
      cases edge with
      | placeholder reference =>
          exact yields_synthesizing_none described (synthesized_visitReference _ _)
      | linked | inline => exact yields_synthesizing_none described rfl
  | schema | namedSchema => exact yields_synthesizing_none described rfl
  | tag edge =>
      cases edge with
      | linked | inline => exact yields_synthesizing_none described rfl
      | placeholder reference =>
          exact (yields_named_visitTagReference stop.path (named reference held) described).bind
            fun _ _ _ _ described _ => Rules.yields_pure described trivial

end

/-- A stop of the tour asks for each tag that a walk makes up. -/
theorem stop_of_synthesized (unentered : linker.entered = []) (unmade : linker.synthesized = [])
    {name : String} {target : EntityId}
    (found : Table.find? name (linker.walk graph document).1.synthesized = some target) :
    ∃ stop ∈ (graph.tour linker.index [] document).1, ∃ reference,
      stop.held = .tag (.placeholder reference) ∧ linker.MakesUp reference ∧
      reference.identifier = name := by
  have begun : (namedRules fun name => ∃ stop ∈ (graph.tour linker.index [] document).1,
      ∃ reference, stop.held = .tag (.placeholder reference) ∧ linker.MakesUp reference ∧
        reference.identifier = name).describes () (linker.firstProgress graph) := by
    intro name id found
    rw [firstProgress, unmade] at found
    cases found
  obtain ⟨_, _, described, _⟩ := Rules.yields_mapM (R := fun _ _ _ => True)
    (fun _ _ _ _ _ _ => trivial) (fun stop met _ _ _ described => yields_named_visit
      (fun reference held missing => ⟨stop, met, reference, held, missing, rfl⟩) described) begun
  rw [← visits_eq unentered] at described
  exact described name target found

/-- What a walk does to its tags: one that is to be made up becomes the tag that was made up for
its name, and the others are looked up. -/
theorem walk_tags (linker : Linker) (graph : Graph) (document : Document)
    (unentered : linker.entered = []) (unmade : linker.synthesized = []) :
    let laterGraph := (linker.walk graph document).2.1
    let later := (linker.walk graph document).2.2
    linker.Toured (linker.change laterGraph fun _ _ => True) graph document laterGraph later ∧
      linker.Toured ((linker.edgeMap (linker.walk graph document).1.synthesized).change
        fun _ _ => True) graph document laterGraph later ∧
      ∀ stop ∈ (graph.tour linker.index [] document).1, ∀ reference,
        stop.held = .tag (.placeholder reference) → linker.MakesUp reference →
        ∃ target, Table.find? reference.identifier (linker.walk graph document).1.synthesized =
            some target ∧ graph.size ≤ target ∧
          laterGraph.entity? target = some (.tag { name := reference.identifier }) := by
  have begun : (linker.visiting graph Rules.trivial).describes (fun _ => none, ())
      (linker.firstProgress graph) := ⟨linker.describes_firstProgress graph unmade, trivial⟩
  obtain ⟨world, _, describes, answered⟩ := yields_visits begun (linker.expandable_trivial _)
  rw [← visits_eq unentered] at describes answered
  refine ⟨toured_walk unentered describes.1 answered, toured_relink unentered describes.1 answered,
    fun stop met reference held missing => ?_⟩
  obtain ⟨_, _, answer⟩ := ListRel.exists_of_mem_left answered met
  obtain ⟨target, made⟩ := answer.tag reference held missing
  obtain ⟨isNew, bare⟩ := describes.1.bare _ _ made
  exact ⟨target, (describes.1.synthesized _).trans made, isNew,
    (entity?_walk_of_le unentered isNew).trans bare⟩

section

variable (linker graph document)

/-- What becomes of the placeholders for tags that are local and name no other category. -/
structure SettlesTags : Prop where
  /-- One that names a declared tag is linked to the tag that the index has under the name. -/
  declared : ∀ (site : Site) reference,
    (linker.walk graph document).2.1.Includes (linker.walk graph document).2.2 site.holder →
    site.AsksForTag graph document reference → reference.isNested = false →
    document.DeclaresTag graph reference.identifier →
    ∃ target tag, site.held? (linker.walk graph document).2.1 (linker.walk graph document).2.2 =
        some (.tag (.linked reference target)) ∧
      linker.index.entity? .tags reference.identifier = some target ∧
      (∃ edge ∈ document.tags, edge.target? = some target) ∧
      (linker.walk graph document).2.1.entity? target = some (.tag tag) ∧
      tag.name = reference.identifier
  /-- All others give way to the bare tag that was made up for the name. -/
  bare : ∀ (site : Site) reference,
    (linker.walk graph document).2.1.Includes (linker.walk graph document).2.2 site.holder →
    site.AsksForTag graph document reference →
    reference.isNested = true ∨ ¬ document.DeclaresTag graph reference.identifier →
    ∃ target, site.held? (linker.walk graph document).2.1 (linker.walk graph document).2.2 =
        some (.tag (.inline target)) ∧
      Table.find? reference.identifier (linker.walk graph document).1.synthesized = some target ∧
      graph.size ≤ target ∧ (linker.walk graph document).2.1.entity? target =
        some (.tag { name := reference.identifier })
  /-- A tag that has the name of a declared one is made up for a pointer inside a tag. -/
  undeclared : ∀ name target,
    Table.find? name (linker.walk graph document).1.synthesized = some target →
    document.DeclaresTag graph name →
    ∃ (site : Site) (reference : Reference),
      (linker.walk graph document).2.1.Includes (linker.walk graph document).2.2 site.holder ∧
      site.AsksForTag graph document reference ∧ reference.isNested = true ∧
      reference.identifier = name
  /-- Each report on a reference is on a site of another kind. -/
  unreported : ∀ diagnostic ∈ (linker.walk graph document).1.diagnostics,
    diagnostic.problem.reference?.isSome = true →
    ∃ site, ReportedBy linker.index linker.lookup.strict graph document
        (linker.walk graph document).2.1 (linker.walk graph document).2.2 site diagnostic ∧
      ∀ reference, ¬ site.AsksForTag graph document reference

end

section

variable {R : Schema → Schema → Prop}

/-- What is found at the site of a placeholder for a tag afterwards. -/
theorem Toured.held?_of_tag {synthesized : Table EntityId} {site : Site}
    (relinked : linker.Toured ((linker.edgeMap synthesized).change R) graph document laterGraph
      later)
    (member : site.holder ∈ graph.holders linker.index [] document)
    (found : site.held? graph document = some (.tag (.placeholder reference))) :
    site.held? laterGraph later =
      some (.tag (linker.linkTag synthesized (.placeholder reference))) := by
  obtain ⟨after, isAfter, allowed⟩ :=
    relinked.held_after (keepsNames_edgeMap synthesized) member found
  cases allowed with
  | tag same => rw [isAfter, same]; rfl

/-- What is reported of a reference is not reported of a placeholder that is settled. -/
theorem not_asksForTag_of_problemAt? (asked : linker.synthesizeMissingTags = true) {site : Site}
    {problem : Problem} (wrong : linker.problemAt? graph document site = some problem) :
    ¬ site.AsksForTag graph document reference := by
  rintro ⟨found, isLocal, fits⟩
  obtain ⟨other, sought, isOther, asks, missed⟩ := problemAt?_eq_some wrong
  cases found.symm.trans isOther
  cases asks
  cases missed.symm.trans (problem?_tag_eq_none asked isLocal fits)

end

/-- A reference on which a walk reports is one at a site where something is wrong. -/
theorem exists_site_of_reported (unentered : linker.entered = []) (unexpanded : linker.expanded = [])
    (unreported : linker.diagnostics = []) (linked : linker.lookup.Linked)
    (toured : linker.Toured (linker.change (linker.walk graph document).2.1 fun _ _ => True) graph
      document (linker.walk graph document).2.1 (linker.walk graph document).2.2)
    {diagnostic : Diagnostic} (reported : diagnostic ∈ (linker.walk graph document).1.diagnostics)
    (about : diagnostic.problem.reference?.isSome = true) :
    ∃ site problem, linker.problemAt? graph document site = some problem ∧
      ReportedBy linker.index linker.lookup.strict graph document (linker.walk graph document).2.1
        (linker.walk graph document).2.2 site diagnostic := by
  have member : diagnostic ∈ (linker.walk graph document).1.diagnostics.filter
      (·.problem.isComponent) := List.mem_filter.mpr ⟨reported, about⟩
  rw [filter_diagnostics linker graph document unentered unexpanded unreported linked] at member
  obtain ⟨complaint, isComplaint, rfl⟩ := List.mem_map.mp member
  obtain ⟨stop, met, complains⟩ := List.mem_filterMap.mp isComplaint
  obtain ⟨site, held, base, isHolder, stopsAt⟩ := exists_stopsAt_of_stop met
  rw [complaint?_of_stopsAt stopsAt] at complains
  obtain ⟨problem, wrong, rfl⟩ := Option.map_eq_some_iff.mp complains
  exact ⟨site, problem, wrong, reportedBy_of_complaint toured stopsAt isHolder wrong⟩

section

/-! References to tags, where the index is that of the document. -/

variable (indexed : linker.index = .ofDocument graph document)
variable (asked : linker.synthesizeMissingTags = true) (isLocal : reference.isExternal = false)
variable (fits : ∀ category, reference.category? = some category → category = .tags)
include indexed asked isLocal fits

theorem makesUp_iff_declares : linker.MakesUp reference ↔
    reference.isNested = true ∨ ¬ document.DeclaresTag graph reference.identifier := by
  rw [makesUp_iff asked isLocal fits, indexed, Index.ofDocument_knows_tag_iff]

theorem linkTag_of_declares (whole : reference.isNested = false)
    (declared : document.DeclaresTag graph reference.identifier) (synthesized : Table EntityId) :
    ∃ target tag, linker.linkTag synthesized (.placeholder reference) = .linked reference target ∧
      linker.index.entity? .tags reference.identifier = some target ∧
      (∃ edge ∈ document.tags, edge.target? = some target) ∧
      graph.entity? target = some (.tag tag) ∧ tag.name = reference.identifier := by
  have known : ¬ linker.MakesUp reference := by
    simp [makesUp_iff_declares indexed asked isLocal fits, whole, declared]
  rcases linker.index.resolve_cases fits with ⟨_, target, registered, resolved⟩ | ⟨_, failed⟩
  · obtain ⟨edge, member, tag, leads, isTag, named⟩ :=
      Index.exists_tag_of_ofDocument (indexed ▸ registered)
    refine ⟨target, tag, ?_, registered, ⟨edge, member, leads⟩, isTag, named⟩
    rw [linkTag_of_known fun _ same => by cases same; exact known]
    simp only [Index.link, isLocal, resolved, Bool.false_eq_true, ↓reduceIte]
  · exact absurd ⟨asked, isLocal, _, _, failed⟩ known

end

/-- With missing tags made up, a walk settles all local placeholders for tags. -/
theorem walk_settlesTags (graph : Graph) (document : Document) (registry : Registry)
    (settings : Settings) (asked : settings.synthesizeMissingTags = true) :
    (Linker.new (.ofDocument graph document) registry settings).SettlesTags graph document := by
  let linker := Linker.new (.ofDocument graph document) registry settings
  have indexed : linker.index = .ofDocument graph document := rfl
  have making : linker.synthesizeMissingTags = true := asked
  obtain ⟨toured, relinked, made⟩ := linker.walk_tags graph document rfl rfl
  constructor
  · rintro site reference includes ⟨found, isLocal, fits⟩ whole declared
    have isHeld := relinked.held?_of_tag (toured.holder_of_includes includes found) found
    obtain ⟨target, tag, linked, registered, isDeclared, isTag, named⟩ :=
      linkTag_of_declares indexed making isLocal fits whole declared
        (linker.walk graph document).1.synthesized
    exact ⟨target, tag, by rw [isHeld, linked], registered, isDeclared, toured.tag isTag, named⟩
  · rintro site reference includes ⟨found, isLocal, fits⟩ unknown
    have isHolder := toured.holder_of_includes includes found
    have isHeld := relinked.held?_of_tag isHolder found
    have missing := (makesUp_iff_declares indexed making isLocal fits).mpr unknown
    obtain ⟨stop, met, base, stopsAt⟩ := exists_stopsAt_of_site isHolder found
    obtain ⟨target, isMade, isNew, bare⟩ :=
      made stop met reference (by rw [stopsAt.same]) missing
    exact ⟨target, by rw [isHeld, linkTag_of_makesUp missing isMade], isMade, isNew, bare⟩
  · intro name target found declared
    obtain ⟨stop, met, reference, held, missing, rfl⟩ := stop_of_synthesized rfl rfl found
    obtain ⟨site, _, base, isHolder, stopsAt⟩ := exists_stopsAt_of_stop met
    have isLocal := missing.2.1
    have unknown := (makesUp_iff_declares indexed making isLocal missing.fits).mp missing
    exact ⟨site, reference, toured.includes_of_holder isHolder,
      ⟨by rw [stopsAt.found, ← held, stopsAt.same], isLocal, missing.fits⟩,
      unknown.resolve_right (not_not_intro declared), rfl⟩
  · intro diagnostic reported about
    obtain ⟨site, problem, wrong, reportedBy⟩ := exists_site_of_reported rfl rfl rfl
      (Lookup.linked_ofRegistry registry settings) toured reported about
    exact ⟨site, reportedBy, fun _ => not_asksForTag_of_problemAt? making wrong⟩

section

/-! A pointer that reaches inside a declared tag. -/

def onePet : Graph where
  entities := #[.tag { name := "pet", description := some "d" }]

def insidePet : Document where
  tags := [.inline 0, .placeholder { pointer := "#/tags/pet/x" }]

theorem walk_settlesTags_insidePet :
    ({} : Settings).synthesizeMissingTags = true ∧
      (Linker.new (.ofDocument onePet insidePet) (insidePet.registry defaultAuthority)
        {}).SettlesTags onePet insidePet :=
  ⟨rfl, walk_settlesTags onePet insidePet (insidePet.registry defaultAuthority) {} rfl⟩

/-- The pointer has the name of a declared tag and is not linked to it: another tag of that name is
made up. -/
theorem walk_insidePet :
    let linker := Linker.new (.ofDocument onePet insidePet) (insidePet.registry defaultAuthority) {}
    let laterGraph := (linker.walk onePet insidePet).2.1
    let later := (linker.walk onePet insidePet).2.2
    (¬ ∀ (site : Site) reference, laterGraph.Includes later site.holder →
      site.AsksForTag onePet insidePet reference →
      insidePet.DeclaresTag onePet reference.identifier →
      ∃ target, site.held? laterGraph later = some (.tag (.linked reference target)) ∧
        linker.index.entity? .tags reference.identifier = some target) ∧
    ¬ ∀ name target, Table.find? name (linker.walk onePet insidePet).1.synthesized = some target →
      ¬ insidePet.DeclaresTag onePet name := by
  intro linker laterGraph later
  have declares : insidePet.DeclaresTag onePet "pet" :=
    ⟨.inline 0, List.mem_cons_self, 0, { name := "pet", description := some "d" }, rfl, rfl, rfl⟩
  have evaluated : (Site.held? laterGraph later { holder := .document, path := ["tags", "1"] }).bind
      Held.edge? = some (.inline 1) := by
    decide +kernel
  have made : Table.find? "pet" (linker.walk onePet insidePet).1.synthesized = some 1 := by
    decide +kernel
  refine ⟨fun linked => ?_, fun apart => apart "pet" 1 made declares⟩
  have asks : Site.AsksForTag onePet insidePet { holder := .document, path := ["tags", "1"] }
      { pointer := "#/tags/pet/x" } := by
    refine ⟨rfl, by decide, ?_⟩
    intro category named
    exact (Option.some.inj (named.symm.trans (by decide +kernel)))
  have named : Reference.identifier { pointer := "#/tags/pet/x" } = "pet" := by decide +kernel
  obtain ⟨target, found, _⟩ := linked { holder := .document, path := ["tags", "1"] } _ trivial asks
    (by rw [named]; exact declares)
  rw [found, Option.bind_some] at evaluated
  cases evaluated

end

end Linker

end ApiLinker
