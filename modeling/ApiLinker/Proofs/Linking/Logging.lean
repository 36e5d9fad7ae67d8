import ApiLinker.Proofs.Linking.Query
import ApiLinker.Proofs.Linking.WellFormed

/-!
What a walk reports.

Visiting a stop asks for what is held there, and reports what is wrong with all that is asked for,
in that order and nothing else.  `Linker.Logs` is this relation between an action and its queries,
with one rule for each way to put actions together.
-/

namespace ApiLinker

def Index.problem? (index : Index) (strict : Bool) (category : Category) (reference : Reference) :
    Option Problem :=
  if reference.isExternal then
    if strict then some (.externalReference reference) else none
  else match index.resolve category reference with
    | .ok _ => none
    | .error problem => some problem

def Diagnostic.withHost (host : Option String) (diagnostic : Diagnostic) : Diagnostic :=
  { diagnostic with problem := diagnostic.problem.withHost host }

namespace Linker

/-- What is wrong with what is sought.  A tag that is made up is not missed. -/
def problem? (linker : Linker) : Sought → Option Problem
  | .component category reference => linker.index.problem? linker.lookup.strict category reference
  | .tag reference =>
      match linker.index.problem? linker.lookup.strict .tags reference with
      | some (.notFound category missing) =>
          if linker.synthesizeMissingTags then none else some (.notFound category missing)
      | found => found
  | .pointer pointer => linker.lookup.problem? pointer
  | .named _ _ => none

def diagnostic? (linker : Linker) (query : Query) : Option Diagnostic :=
  (linker.problem? query.sought).map fun problem => { path := query.path, problem }

variable (linker : Linker) (heeds : Problem → Bool)

/-- What there is to report, as far as it is heeded. -/
def reports (asked : List Query) : List Diagnostic :=
  (asked.filterMap linker.diagnostic?).filter fun diagnostic => heeds diagnostic.problem

theorem reports_append (asked others : List Query) :
    linker.reports heeds (asked ++ others) =
      linker.reports heeds asked ++ linker.reports heeds others := by
  simp [reports]

/-- The locator is registered, unless nobody heeds that it is not. -/
def Covers (locator : String) : Prop :=
  (∃ schema, linker.lookup.registry.get? locator = some schema) ∨
    ∀ pointer, heeds (.schemaNotFound pointer locator) = false

/-- The locators opened are those that an expansion is stored for. -/
structure Remembers (known : List String) (expanded : Table Schema) : Prop where
  stored : ∀ locator, locator ∈ known ↔ ∃ schema, Table.find? locator expanded = some schema
  covered : ∀ locator ∈ known, linker.Covers heeds locator

/-- The action asks for `queries`, opens what they open, and adds the reports on all of it to those
that there are. -/
def Logs {σ α : Type} (view : σ → Expansion) (action : StateM σ α) (queries : List Query) : Prop :=
  ∀ known state, linker.Remembers heeds known (view state).expanded →
    ∃ asked later, linker.lookup.Asks known queries asked later ∧
      linker.Remembers heeds later (view (action state).2).expanded ∧
      ((view (action state).2).problems.filter fun diagnostic => heeds diagnostic.problem) =
        ((view state).problems.filter fun diagnostic => heeds diagnostic.problem) ++
          linker.reports heeds asked

variable {linker heeds} {σ α β : Type} {view : σ → Expansion}

section

/-! Rules for all actions. -/

theorem logs_silent {action : StateM σ α}
    (expanded : ∀ state, (view (action state).2).expanded = (view state).expanded)
    (problems : ∀ state, (view (action state).2).problems = (view state).problems) :
    linker.Logs heeds view action [] := by
  intro known state remembers
  refine ⟨[], known, .nil known, ?_, ?_⟩
  · rwa [expanded]
  · rw [problems, reports, List.filterMap_nil, List.filter_nil, List.append_nil]

theorem logs_pure (value : α) : linker.Logs heeds view (pure value) [] :=
  logs_silent (fun _ => rfl) fun _ => rfl

theorem Logs.bind {action : StateM σ α} {next : α → StateM σ β} {queries more : List Query}
    (first : linker.Logs heeds view action queries)
    (rest : ∀ value, linker.Logs heeds view (next value) more) :
    linker.Logs heeds view (action >>= next) (queries ++ more) := by
  intro known state remembers
  obtain ⟨asked, middle, asks, remembers, logged⟩ := first known state remembers
  obtain ⟨others, later, asksMore, remembers, loggedMore⟩ := rest _ middle _ remembers
  refine ⟨asked ++ others, later, asks.append asksMore, remembers, ?_⟩
  rw [reports_append, ← List.append_assoc, ← logged]
  exact loggedMore

theorem Logs.map {action : StateM σ α} {queries : List Query}
    (logs : linker.Logs heeds view action queries) (change : α → β) :
    linker.Logs heeds view (change <$> action) queries :=
  logs

/-- What opens nothing is asked for by reporting what is wrong with it. -/
theorem logs_query {action : StateM σ α} {query : Query}
    (shut : linker.lookup.opens? query.sought = none)
    (expanded : ∀ state, (view (action state).2).expanded = (view state).expanded)
    (problems : ∀ state, (view (action state).2).problems =
      (view state).problems ++ (linker.diagnostic? query).toList) :
    linker.Logs heeds view action [query] := by
  intro known state remembers
  have never : ∀ locator schema, linker.lookup.opens? query.sought = some (locator, schema) →
      locator ∈ known := by
    intro locator schema found
    cases shut.symm.trans found
  refine ⟨[query], known, .pass query never (.nil known), ?_, ?_⟩
  · rwa [expanded]
  · have single : [query].filterMap linker.diagnostic? = (linker.diagnostic? query).toList := by
      cases found : linker.diagnostic? query <;> simp [found]
    rw [problems, List.filter_append, reports, single]

theorem logs_mapM {visit : α → StateM σ β} {queries : α → List Query} {items : List α}
    (each : ∀ item ∈ items, linker.Logs heeds view (visit item) (queries item)) :
    linker.Logs heeds view (items.mapM visit) (items.flatMap queries) := by
  induction items with
  | nil => exact logs_pure []
  | cons item rest ih =>
      rw [List.mapM_cons, List.flatMap_cons]
      refine (each item List.mem_cons_self).bind fun first => ?_
      exact (ih fun other member => each other (List.mem_cons_of_mem _ member)).map (first :: ·)

/-- Sub-schemas are asked for in the order of their slots. -/
theorem logs_mapVisits {τ υ : Type} {visit : Slot → τ → StateM σ υ}
    {queries : Slot → τ → List Query} {children : Subschemas τ}
    (each : ∀ slot, ∀ child ∈ children.list, linker.Logs heeds view (visit slot child)
      (queries slot child)) :
    linker.Logs heeds view (children.mapVisits visit)
      (children.visits.flatMap fun (slot, child) => queries slot child) := by
  rw [Subschemas.mapVisits_eq_mapM]
  have visits : linker.Logs heeds view (children.visits.mapM fun entry => visit entry.1 entry.2)
      (children.visits.flatMap fun entry => queries entry.1 entry.2) :=
    logs_mapM fun entry visited => each entry.1 entry.2 (List.mem_map_of_mem visited)
  exact visits.map _

end

section

/-! Expansion. -/

variable {follow : List String → String → Expanding (Option Schema)} {schema : Schema}

theorem logs_expandWith
    (followed : ∀ pointer ∈ schema.exposed, ∀ path,
      linker.Logs heeds id (follow path pointer) [{ path, sought := .pointer pointer }])
    (path : List String) :
    linker.Logs heeds id (schema.expandWith follow path) (schema.queries path) := by
  induction schema using Schema.induct generalizing path with
  | node number body ih =>
      cases points : body.reference with
      | some pointer =>
          rw [Schema.expandWith_pointer points, Schema.queries_pointer points]
          refine (followed pointer (by rw [Schema.exposed_pointer points, List.mem_singleton])
            path).bind fun result => ?_
          cases result with
          | none => exact logs_pure _
          | some target => exact logs_silent (fun _ => rfl) fun _ => rfl
      | none =>
          rw [Schema.expandWith_plain points, Schema.queries_plain points, ← List.append_nil
            (List.flatMap _ _)]
          refine (logs_mapVisits fun slot child member => ih child member
            (Lookup.exposed_of_child points member followed) (path ++ slot.segments)).bind
              fun children => ?_
          split
          · exact logs_pure _
          · exact logs_silent (fun _ => rfl) fun _ => rfl

theorem Remembers.insert {known : List String} {expanded : Table Schema} {locator : String}
    (remembers : linker.Remembers heeds known expanded) (covered : linker.Covers heeds locator)
    (schema : Schema) :
    linker.Remembers heeds (locator :: known) (Table.insert locator schema expanded) where
  stored other := by
    by_cases same : other = locator
    · subst same
      simp [Table.find?_insert_self]
    · simp [Table.find?_insert_of_ne same, same, remembers.stored]
  covered := List.forall_mem_cons.mpr ⟨covered, remembers.covered⟩

/-- A schema that a query opens is looked into unless an expansion of it is stored. -/
theorem logs_expandNamedWith (query : Query) {locator : String}
    (opens : linker.lookup.opens? query.sought = some (locator, schema))
    (fine : linker.problem? query.sought = none) (covered : linker.Covers heeds locator)
    (inside : linker.Logs heeds id (schema.expandWith follow query.path)
      (schema.queries query.path)) :
    linker.Logs heeds id (schema.expandNamedWith follow locator query.path) [query] := by
  intro known state remembers
  have silent : linker.diagnostic? query = none := by rw [diagnostic?, fine]; rfl
  simp only [Schema.expandNamedWith_eq, id_eq] at remembers ⊢
  cases stored : Table.find? locator state.expanded with
  | some result =>
      have isKnown := (remembers.stored locator).mpr ⟨result, stored⟩
      refine ⟨[query], known, .pass query ?_ (.nil known), remembers, ?_⟩
      · intro other schema found
        cases opens.symm.trans found
        exact isKnown
      · simp [reports, silent]
  | none =>
      have closed : locator ∉ known := by
        intro isKnown
        obtain ⟨result, found⟩ := (remembers.stored locator).mp isKnown
        cases stored.symm.trans found
      obtain ⟨asked, later, asks, remembers, logged⟩ := inside known state remembers
      refine ⟨query :: asked ++ [], locator :: later, .enter opens closed asks (.nil _),
        remembers.insert covered _, ?_⟩
      simpa [reports, silent] using logged

/-- A local pointer that is registered and on no cycle is expanded for its locator. -/
theorem follow_registered {lookup : Lookup} {depth : Nat} {pointer : String}
    (isLocal : Reference.isExternal { pointer } = false)
    (acyclic : lookup.links.isCyclic (Locator.ofPointer lookup.authority pointer) = false)
    (registered : lookup.registry.get? (Locator.ofPointer lookup.authority pointer) = some schema)
    (path : List String) :
    lookup.follow (depth + 1) path pointer =
      some <$> schema.expandNamedWith (lookup.follow depth)
        (Locator.ofPointer lookup.authority pointer) path := by
  funext state
  have mapped : (some <$> schema.expandNamedWith (lookup.follow depth)
      (Locator.ofPointer lookup.authority pointer) path) state =
        (some (schema.expandNamedWith (lookup.follow depth)
            (Locator.ofPointer lookup.authority pointer) path state).1,
          (schema.expandNamedWith (lookup.follow depth)
            (Locator.ofPointer lookup.authority pointer) path state).2) := rfl
  rw [Lookup.follow_succ isLocal acyclic, registered]
  cases stored : Table.find? (Locator.ofPointer lookup.authority pointer) state.expanded with
  | some known => rw [mapped, Schema.expandNamedWith_eq, stored]
  | none => rfl

/-- A local pointer with nothing registered is reported, unless its locator has been opened by
name. -/
theorem logs_follow_missing {depth : Nat} {pointer : String}
    (isLocal : Reference.isExternal { pointer } = false)
    (acyclic : linker.lookup.links.isCyclic (Locator.ofPointer linker.lookup.authority pointer) =
      false)
    (missing : linker.lookup.registry.get? (Locator.ofPointer linker.lookup.authority pointer) =
      none) (path : List String) :
    linker.Logs heeds id (linker.lookup.follow (depth + 1) path pointer)
      [{ path, sought := .pointer pointer }] := by
  intro known state remembers
  have shut : linker.lookup.opens? (.pointer pointer) = none := by
    simp [Lookup.opens?, Lookup.target?, missing]
  have wrong : linker.diagnostic? { path, sought := .pointer pointer } =
      some (.mk path (.schemaNotFound pointer
        (Locator.ofPointer linker.lookup.authority pointer))) := by
    rw [diagnostic?, problem?, Lookup.problem?_missing isLocal missing]
    rfl
  refine ⟨[{ path, sought := .pointer pointer }], known,
    .pass _ (by simp [shut]) (.nil known), ?_⟩
  simp only [Lookup.follow_succ isLocal acyclic, missing, id_eq] at remembers ⊢
  cases stored : Table.find? (Locator.ofPointer linker.lookup.authority pointer)
      state.expanded with
  | none =>
      refine ⟨remembers, ?_⟩
      simp only [reports, List.filterMap_cons, wrong, List.filterMap_nil]
      exact List.filter_append _ _
  | some result =>
      have isKnown := (remembers.stored _).mpr ⟨result, stored⟩
      refine ⟨remembers, ?_⟩
      rcases remembers.covered _ isKnown with ⟨schema, registered⟩ | unheeded
      · cases missing.symm.trans registered
      · simp [reports, wrong, unheeded]

/-- A pointer is asked for as one query, if that is so for the pointers it opens, one level
deeper. -/
theorem logs_follow_succ (linked : linker.lookup.Linked) {depth : Nat} {pointer : String}
    (followed : ∀ schema, linker.lookup.target? pointer = some schema → ∀ inner ∈ schema.exposed,
      ∀ path, linker.Logs heeds id (linker.lookup.follow depth path inner)
        [{ path, sought := .pointer inner }]) (path : List String) :
    linker.Logs heeds id (linker.lookup.follow (depth + 1) path pointer)
      [{ path, sought := .pointer pointer }] := by
  cases isExternal : Reference.isExternal { pointer } with
  | true =>
      refine logs_query (by simp [Lookup.opens?, Lookup.target?, isExternal]) ?_ ?_ <;>
        intro state <;> rw [Lookup.follow] <;>
        cases strict : linker.lookup.strict <;>
        simp [isExternal, strict, diagnostic?, problem?, Lookup.problem?] <;> rfl
  | false =>
      cases isCyclic : linker.lookup.links.isCyclic
          (Locator.ofPointer linker.lookup.authority pointer) with
      | true =>
          obtain ⟨schema, registered⟩ :=
            Lookup.registered_of_cyclic ((Lookup.isCyclic_iff linked).mp isCyclic)
          have fine : linker.diagnostic? { path, sought := .pointer pointer } = none := by
            rw [diagnostic?, problem?, Lookup.problem?_registered isExternal registered]
            rfl
          have returns : linker.lookup.follow (depth + 1) path pointer = pure none := by
            rw [Lookup.follow]
            simp [isExternal, isCyclic]
          rw [returns]
          refine logs_query (by simp [Lookup.opens?, Lookup.target?, isCyclic])
            (fun _ => rfl) fun state => ?_
          rw [fine, Option.toList_none, List.append_nil]
          rfl
      | false =>
          cases registered : linker.lookup.registry.get?
              (Locator.ofPointer linker.lookup.authority pointer) with
          | none => exact logs_follow_missing isExternal isCyclic registered path
          | some schema =>
              have target : linker.lookup.target? pointer = some schema := by
                simp [Lookup.target?, isExternal, isCyclic, registered]
              rw [follow_registered isExternal isCyclic registered]
              refine (logs_expandNamedWith ⟨path, .pointer pointer⟩
                (by simp [Lookup.opens?, target]) ?_ (.inl ⟨schema, registered⟩)
                (logs_expandWith (followed schema target) path)).map some
              exact Lookup.problem?_registered isExternal registered

theorem logs_follow (linked : linker.lookup.Linked) (depth : Nat) {pointer : String}
    (within : linker.lookup.Within depth pointer) (path : List String) :
    linker.Logs heeds id (linker.lookup.follow (depth + 1) path pointer)
      [{ path, sought := .pointer pointer }] := by
  induction depth generalizing pointer path with
  | zero =>
      refine logs_follow_succ linked (fun schema found => ?_) path
      cases within.symm.trans found
  | succ depth ih =>
      exact logs_follow_succ linked (fun schema found inner isExposed path =>
        ih (within schema found inner isExposed) path) path

theorem logs_expand (linked : linker.lookup.Linked) (schema : Schema) (path : List String) :
    linker.Logs heeds id (linker.lookup.expand schema path) (schema.queries path) :=
  logs_expandWith (fun pointer _ => logs_follow linked _ (Lookup.within_size linked pointer)) path

theorem logs_expandNamed (linked : linker.lookup.Linked) {name : String}
    (covered : linker.Covers heeds
      (Locator.ofPointer linker.lookup.authority (Registry.componentPointer name)))
    (schema : Schema) (path : List String) :
    linker.Logs heeds id (linker.lookup.expandNamed name schema path)
      [{ path, sought := .named name schema }] :=
  logs_expandNamedWith ⟨path, .named name schema⟩ rfl rfl covered
    (logs_expand linked schema path)

end

section

/-! Visits. -/

theorem logs_expanding {expand : Expanding α} {queries : List Query}
    (logs : linker.Logs heeds id expand queries) :
    linker.Logs heeds Progress.expansion (Visiting.expanding expand) queries :=
  fun known progress remembers => logs known progress.expansion remembers

/-- Looking up a reference reports what is wrong with it. -/
theorem logs_visitReference (query : Query) {category : Category} {reference : Reference}
    (shut : linker.lookup.opens? query.sought = none)
    (same : linker.problem? query.sought =
      linker.index.problem? linker.lookup.strict category reference) :
    linker.Logs heeds Progress.expansion (linker.visitReference query.path category reference)
      [query] := by
  refine logs_query shut (fun progress => ?_) fun progress => ?_
  · rw [visitReference]
    cases reference.isExternal with
    | true => cases linker.lookup.strict <;> rfl
    | false => cases linker.index.resolve category reference <;> rfl
  · rw [diagnostic?, same, Index.problem?, visitReference]
    cases reference.isExternal with
    | true => cases linker.lookup.strict <;> simp <;> rfl
    | false => cases linker.index.resolve category reference <;> simp <;> rfl

/-- A tag that is not made up is looked up like everything else. -/
theorem problem?_tag {reference : Reference} (known : ¬ linker.MakesUp reference) :
    linker.problem? (.tag reference) =
      linker.index.problem? linker.lookup.strict .tags reference := by
  rw [problem?]
  split
  · rename_i category missing found
    have unasked : linker.synthesizeMissingTags = false := by
      by_contra asked
      rw [Index.problem?] at found
      split at found
      · split at found <;> cases found
      · rename_i isLocal
        split at found
        · cases found
        · rename_i problem failed
          cases found
          exact known ⟨Bool.not_eq_false _ ▸ asked, Bool.not_eq_true _ ▸ isLocal, category,
            missing, failed⟩
    rw [unasked, if_neg Bool.false_ne_true, found]
  · rfl

theorem problem?_tag_of_makesUp {reference : Reference} (missing : linker.MakesUp reference) :
    linker.problem? (.tag reference) = none := by
  obtain ⟨asked, isLocal, category, other, failed⟩ := missing
  simp [problem?, Index.problem?, isLocal, failed, asked]

theorem logs_synthesizeTag (name : String) :
    linker.Logs heeds Progress.expansion (Visiting.synthesizeTag name) [] := by
  have kept : ∀ progress, ((Visiting.synthesizeTag name) progress).2.expanded = progress.expanded ∧
      ((Visiting.synthesizeTag name) progress).2.diagnostics = progress.diagnostics := by
    intro progress
    simp only [Visiting.synthesizeTag, modify, modifyGet, MonadStateOf.modifyGet,
      StateT.modifyGet]
    cases Table.find? name progress.synthesized <;> exact ⟨rfl, rfl⟩
  exact logs_silent (fun progress => (kept progress).1) fun progress => (kept progress).2

theorem logs_visitTagReference (path : List String) (reference : Reference) :
    linker.Logs heeds Progress.expansion (linker.visitTagReference path reference)
      [{ path, sought := .tag reference }] := by
  cases plain : reference.isExternal || !linker.synthesizeMissingTags with
  | true =>
      have known : ¬ linker.MakesUp reference := by
        intro missing
        simp [missing.1, missing.2.1] at plain
      rw [visitTagReference, if_pos plain]
      exact logs_visitReference ⟨path, .tag reference⟩ rfl (problem?_tag known)
  | false =>
      obtain ⟨isLocal, asked⟩ : reference.isExternal = false ∧
          linker.synthesizeMissingTags = true := by simpa using plain
      have counted (fine : linker.problem? (.tag reference) = none) :
          linker.Logs heeds Progress.expansion Visiting.countLink
            [{ path, sought := .tag reference }] := by
        refine logs_query rfl (fun _ => rfl) fun progress => ?_
        rw [diagnostic?, fine]
        exact (List.append_nil _).symm
      have reported {problem : Problem} (wrong : linker.problem? (.tag reference) = some problem) :
          linker.Logs heeds Progress.expansion (Visiting.report path problem)
            [{ path, sought := .tag reference }] := by
        refine logs_query rfl (fun _ => rfl) fun progress => ?_
        rw [diagnostic?, wrong]
        rfl
      rw [visitTagReference, if_neg (by simp [plain])]
      cases resolved : linker.index.resolve .tags reference with
      | ok target => exact counted (by simp [problem?, Index.problem?, isLocal, resolved])
      | error problem =>
          cases problem with
          | notFound category missing =>
              exact (logs_synthesizeTag reference.identifier).bind fun _ =>
                counted (by simp [problem?, Index.problem?, isLocal, asked, resolved])
          | categoryMismatch | externalReference | schemaNotFound | externalSchema =>
              exact reported (by simp [problem?, Index.problem?, isLocal, resolved])

/-- A stop is visited by asking for what is held there. -/
theorem logs_visit (linked : linker.lookup.Linked) {stop : Stop}
    (covered : ∀ name schema, stop.held = .namedSchema name schema → linker.Covers heeds
      (Locator.ofPointer linker.lookup.authority (Registry.componentPointer name))) :
    linker.Logs heeds Progress.expansion (linker.visit stop) stop.queries := by
  cases held : stop.held with
  | edge category edge =>
      cases edge with
      | placeholder reference =>
          simp only [visit, Stop.queries, held]
          exact (logs_visitReference ⟨stop.path, .component category reference⟩ rfl rfl).map
            fun _ => none
      | linked | inline =>
          simp only [visit, Stop.queries, held]
          exact logs_pure none
  | tag edge =>
      cases edge with
      | placeholder reference =>
          simp only [visit, Stop.queries, held]
          exact (logs_visitTagReference stop.path reference).map fun _ => none
      | linked | inline =>
          simp only [visit, Stop.queries, held]
          exact logs_pure none
  | schema schema =>
      simp only [visit, Stop.queries, held]
      exact (logs_expanding (logs_expand linked schema stop.path)).map some
  | namedSchema name schema =>
      simp only [visit, Stop.queries, held]
      exact (logs_expanding (logs_expandNamed linked (covered name schema held) schema
        stop.path)).map some

theorem walk_diagnostics (linker : Linker) (graph : Graph) (document : Document) :
    (linker.walk graph document).1.diagnostics =
      linker.diagnostics ++ (linker.visits graph document).2.diagnostics.map
        (Diagnostic.withHost document.location) :=
  rfl

/-- The reports of a walk by a fresh linker are those on all that it asks for at the stops of its
tour, in order. -/
theorem walk_reports_asked (linker : Linker) (graph : Graph) (document : Document)
    (unentered : linker.entered = []) (unexpanded : linker.expanded = [])
    (linked : linker.lookup.Linked)
    (covered : ∀ entry ∈ document.namedObjects.schemas, linker.Covers heeds
      (Locator.ofPointer linker.lookup.authority (Registry.componentPointer entry.1))) :
    ∃ asked later, linker.lookup.Asks []
        ((graph.tour linker.index [] document).1.flatMap Stop.queries) asked later ∧
      ((linker.visits graph document).2.diagnostics.filter fun diagnostic =>
        heeds diagnostic.problem) = linker.reports heeds asked := by
  have logs : linker.Logs heeds Progress.expansion
      ((graph.tour linker.index [] document).1.mapM linker.visit)
      ((graph.tour linker.index [] document).1.flatMap Stop.queries) :=
    logs_mapM fun stop met => logs_visit linked fun name schema held =>
      covered (name, schema) (Graph.mem_schemas_of_stop met held)
  have remembers : linker.Remembers heeds [] (linker.firstProgress graph).expansion.expanded := by
    refine ⟨fun locator => ?_, fun _ never => by cases never⟩
    simp [firstProgress, Progress.expansion, unexpanded, Table.find?]
  obtain ⟨asked, later, asks, _, logged⟩ := logs [] (linker.firstProgress graph) remembers
  refine ⟨asked, later, asks, ?_⟩
  rw [visits, unentered]
  exact logged

end

end Linker

end ApiLinker
