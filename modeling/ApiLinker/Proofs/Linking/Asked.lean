import ApiLinker.Proofs.Linking.Logging

/-!
What a walk has looked into.

Each schema that is held at a stop is looked into, and so is whatever an exposed pointer gives way
to, once for each locator.  So every pointer that an expansion leaves exposed has been asked for.
-/

namespace ApiLinker

/-- A stop at which the schema is held, whether by name or not. -/
def Graph.Offers (stops : List Stop) (schema : Schema) : Prop :=
  ∃ stop ∈ stops, stop.held.schema? = some schema

/-- The schemas to be looked into: those that are offered, and those that their exposed pointers
give way to. -/
inductive Lookup.Looks (lookup : Lookup) (offered : Schema → Prop) : Schema → Prop where
  | offered {schema : Schema} (isOffered : offered schema) : Looks lookup offered schema
  | followed {schema target : Schema} {pointer : String} (looks : Looks lookup offered schema)
      (isExposed : pointer ∈ schema.exposed) (found : lookup.target? pointer = some target) :
      Looks lookup offered target

/-- The locator is that of a pointer which gives way to what is registered there. -/
def Lookup.Opens (lookup : Lookup) (offered : Schema → Prop) (locator : String) : Prop :=
  ∃ schema pointer target, lookup.Looks offered schema ∧ pointer ∈ schema.exposed ∧
    lookup.target? pointer = some target ∧ Locator.ofPointer lookup.authority pointer = locator

/-- Names are sought for what is offered, and pointers where they are exposed in what is to be
looked into. -/
def Lookup.Expects (lookup : Lookup) (offered : Schema → Prop) : Sought → Prop
  | .component _ _ | .tag _ => True
  | .named _ schema => offered schema
  | .pointer pointer => ∃ schema, lookup.Looks offered schema ∧ pointer ∈ schema.exposed

namespace Lookup

variable {lookup : Lookup} {known later : List String} {queries asked : List Query}

/-- The names that are asked for are registered, with the schemas that they are asked for with. -/
def Registers (lookup : Lookup) (queries : List Query) : Prop :=
  ∀ query ∈ queries, ∀ name schema, query.sought = .named name schema →
    lookup.registry.get? (Locator.ofPointer lookup.authority (Registry.componentPointer name)) =
      some schema

theorem Asks.registers (asks : lookup.Asks known queries asked later)
    (registers : lookup.Registers queries) : lookup.Registers asked := by
  intro query met name schema sought
  exact registers query (asks.named_of met sought) name schema sought

/-- What is looked into is what is registered. -/
theorem registered_of_opens? (linked : lookup.Linked) (registers : lookup.Registers asked)
    {query : Query} (met : query ∈ asked) {locator : String} {schema : Schema}
    (found : lookup.opens? query.sought = some (locator, schema)) :
    lookup.registry.get? locator = some schema := by
  cases sought : query.sought with
  | component | tag => rw [sought] at found; cases found
  | pointer pointer =>
      rw [sought] at found
      obtain ⟨target, rfl⟩ := opens?_pointer found
      exact (target?_eq_some linked target).2.2
  | named name named =>
      rw [sought] at found
      cases found
      exact registers query met name schema sought

theorem registers_queries (schema : Schema) (path : List String) :
    lookup.Registers (schema.queries path) := by
  intro query member name named sought
  obtain ⟨pointer, _, isPointer⟩ := Schema.exposed_of_mem_queries member
  cases isPointer.symm.trans sought

/-- No locator is opened while its own schema is looked into, as pointers into a cycle open
nothing. -/
theorem Asks.closed_inside (linked : lookup.Linked) {locator : String} {schema : Schema}
    (registered : lookup.registry.get? locator = some schema) (closed : locator ∉ known)
    {path : List String} (inside : lookup.Asks known (schema.queries path) asked later) :
    locator ∉ later := by
  have led : ∀ query ∈ asked, ∃ pointer, query.sought = .pointer pointer ∧
      (Reference.isExternal { pointer } = false →
        Relation.TransGen lookup.Leads locator (Locator.ofPointer lookup.authority pointer)) := by
    refine inside.asked_of (fun query member => ?_) ?_
    · obtain ⟨pointer, isExposed, sought⟩ := Schema.exposed_of_mem_queries member
      exact ⟨pointer, sought, fun isLocal => .single
        ⟨schema, registered, pointer, Schema.pointers_of_exposed _ isExposed, isLocal, rfl⟩⟩
    · intro query other target leads found inner member
      obtain ⟨outer, isPointer, leads⟩ := leads
      obtain ⟨pointer, isExposed, sought⟩ := Schema.exposed_of_mem_queries member
      rw [isPointer] at found
      obtain ⟨isTarget, _⟩ := opens?_pointer found
      obtain ⟨isLocal, _, isRegistered⟩ := target?_eq_some linked isTarget
      exact ⟨pointer, sought, fun innerLocal => (leads isLocal).tail
        ⟨target, isRegistered, pointer, Schema.pointers_of_exposed _ isExposed, innerLocal, rfl⟩⟩
  intro isOpen
  rcases inside.opened_by isOpen with before | ⟨query, met, target, found, _⟩
  · exact closed before
  · obtain ⟨pointer, isPointer, leads⟩ := led query met
    rw [isPointer] at found
    obtain ⟨isTarget, rfl⟩ := opens?_pointer found
    obtain ⟨isLocal, acyclic, _⟩ := target?_eq_some linked isTarget
    exact acyclic (leads isLocal)

/-- No locator is opened twice. -/
theorem Asks.nodup (linked : lookup.Linked) (registers : lookup.Registers queries)
    (asks : lookup.Asks known queries asked later) (distinct : known.Nodup) : later.Nodup := by
  induction asks with
  | nil => exact distinct
  | pass _ _ _ ih => exact ih (List.forall_mem_cons.mp registers).2 distinct
  | enter found closed inside _ ihInside ih =>
      have registered := registered_of_opens? linked registers List.mem_cons_self found
      refine ih (List.forall_mem_cons.mp registers).2 (List.nodup_cons.mpr ⟨?_, ?_⟩)
      · exact inside.closed_inside linked registered closed
      · exact ihInside (registers_queries _ _) distinct

/-- Whatever can be opened for something that is asked for is looked into somewhere. -/
theorem Asks.looks_into (linked : lookup.Linked) (registers : lookup.Registers queries)
    (asks : lookup.Asks [] queries asked later) {query : Query} (met : query ∈ asked)
    {locator : String} {schema : Schema}
    (found : lookup.opens? query.sought = some (locator, schema)) :
    ∃ path, ∀ inner ∈ schema.queries path, inner ∈ asked := by
  have registersAll := asks.registers registers
  rcases asks.opened_by (asks.opened met found) with never | ⟨first, isFirst, other, opens, within⟩
  · cases never
  · have isRegistered := registered_of_opens? linked registersAll met found
    cases isRegistered.symm.trans (registered_of_opens? linked registersAll isFirst opens)
    exact ⟨first.path, within⟩

/-- Every pointer that the expansion of a schema leaves exposed is asked for where the schema is
looked into. -/
theorem Asks.exposed_asked (linked : lookup.Linked) (registers : lookup.Registers queries)
    (asks : lookup.Asks [] queries asked later) {schema : Schema} {path : List String}
    (within : ∀ query ∈ schema.queries path, query ∈ asked) {pointer : String}
    (isExposed : pointer ∈ (lookup.expansion schema).exposed) :
    ∃ query ∈ asked, query.sought = .pointer pointer := by
  induction schema using induct_expansion linked generalizing path with
  | stays id body target points stays =>
      rw [expansion_stays points stays, Schema.exposed_contents, Schema.exposed_pointer points,
        List.mem_singleton] at isExposed
      subst isExposed
      exact ⟨_, within ⟨path, .pointer pointer⟩ (by simp [Schema.queries_pointer points]), rfl⟩
  | followed id body target schema points found ih =>
      rw [expansion_followed linked points found] at isExposed
      have met := within ⟨path, .pointer target⟩ (by simp [Schema.queries_pointer points])
      have opens : lookup.opens? (.pointer target) =
          some (Locator.ofPointer lookup.authority target, schema) := by simp [opens?, found]
      obtain ⟨place, inside⟩ := asks.looks_into linked registers met opens
      exact ih inside isExposed
  | inside id body plain ih =>
      rw [expansion_plain plain,
        Schema.mem_exposed_of_none (by rw [SchemaBody.reference_map, plain]),
        SchemaBody.children_map, Subschemas.list_map] at isExposed
      obtain ⟨_, expanded, isExposed⟩ := isExposed
      obtain ⟨_, member, rfl⟩ := List.mem_map.mp expanded
      obtain ⟨⟨slot, child⟩, visit, rfl⟩ := List.mem_map.mp member
      have inChild : ∀ query ∈ child.queries (path ++ slot.segments), query ∈ asked := by
        intro query inChild
        refine within query ?_
        rw [Schema.queries_plain plain]
        exact List.mem_flatMap.mpr ⟨(slot, child), visit, inChild⟩
      exact ih child member inChild isExposed

section

/-! What is asked for at stops. -/

variable {stops : List Stop} {schema : Schema}

theorem Asks.asks_offered (linked : lookup.Linked)
    (registers : lookup.Registers (stops.flatMap Stop.queries))
    (asks : lookup.Asks [] (stops.flatMap Stop.queries) asked later)
    (offered : Graph.Offers stops schema) :
    ∃ path, ∀ query ∈ schema.queries path, query ∈ asked := by
  obtain ⟨stop, met, isSchema⟩ := offered
  have first : ∀ query ∈ stop.held.queries stop.path, query ∈ asked := fun query member =>
    asks.queries_asked query (List.mem_flatMap.mpr ⟨stop, met, member⟩)
  cases held : stop.held with
  | edge | tag => rw [held] at isSchema; cases isSchema
  | schema other =>
      rw [held] at isSchema first
      cases isSchema
      exact ⟨stop.path, first⟩
  | namedSchema name other =>
      rw [held] at isSchema first
      cases isSchema
      exact asks.looks_into linked registers (first _ List.mem_cons_self) rfl

/-- What is to be looked into is looked into. -/
theorem Asks.asks_looks (linked : lookup.Linked)
    (registers : lookup.Registers (stops.flatMap Stop.queries))
    (asks : lookup.Asks [] (stops.flatMap Stop.queries) asked later)
    (looks : lookup.Looks (Graph.Offers stops) schema) :
    ∃ path, ∀ query ∈ schema.queries path, query ∈ asked := by
  induction looks with
  | offered isOffered => exact asks.asks_offered linked registers isOffered
  | @followed _ target pointer _ isExposed found ih =>
      obtain ⟨path, within⟩ := ih
      obtain ⟨query, member, sought⟩ := Schema.query_of_mem_exposed isExposed path
      have opens : lookup.opens? query.sought =
          some (Locator.ofPointer lookup.authority pointer, target) := by
        simp [sought, opens?, found]
      exact asks.looks_into linked registers (within query member) opens

theorem expects_of_stop {stop : Stop} (met : stop ∈ stops) {query : Query}
    (member : query ∈ stop.queries) : lookup.Expects (Graph.Offers stops) query.sought := by
  rcases Held.query_cases member with ⟨_, isComponent⟩ | ⟨schema, held, within⟩ |
    ⟨name, schema, held, rfl⟩
  · cases sought : query.sought with
    | component | tag => trivial
    | pointer | named => rw [sought] at isComponent; cases isComponent
  · obtain ⟨pointer, isExposed, sought⟩ := Schema.exposed_of_mem_queries within
    rw [sought]
    exact ⟨schema, .offered ⟨stop, met, by rw [held]; rfl⟩, isExposed⟩
  · exact ⟨stop, met, by rw [held]; rfl⟩

/-- Nothing else is looked into. -/
theorem Asks.expects (asks : lookup.Asks [] (stops.flatMap Stop.queries) asked later)
    {query : Query} (met : query ∈ asked) :
    lookup.Expects (Graph.Offers stops) query.sought := by
  refine asks.asked_of (P := fun query => lookup.Expects (Graph.Offers stops) query.sought) ?_ ?_
    query met
  · intro query member
    obtain ⟨stop, isStop, member⟩ := List.mem_flatMap.mp member
    exact expects_of_stop isStop member
  · intro query locator schema expected found inner member
    obtain ⟨pointer, isExposed, sought⟩ := Schema.exposed_of_mem_queries member
    rw [sought]
    refine ⟨schema, ?_, isExposed⟩
    cases outer : query.sought with
    | component | tag => rw [outer] at found; cases found
    | pointer pointer =>
        rw [outer] at expected found
        obtain ⟨source, looks, isExposed⟩ := expected
        exact .followed looks isExposed (opens?_pointer found).1
    | named name named =>
        rw [outer] at expected found
        cases found
        exact .offered expected

/-- What is opened is opened for a schema that is held by name, or else a pointer to it is
followed. -/
theorem Asks.opened_for (asks : lookup.Asks [] (stops.flatMap Stop.queries) asked later)
    {query : Query} (met : query ∈ asked) {locator : String}
    (found : lookup.opens? query.sought = some (locator, schema)) :
    (∃ stop ∈ stops, ∃ name, stop.held = .namedSchema name schema ∧ query.path = stop.path ∧
      Locator.ofPointer lookup.authority (Registry.componentPointer name) = locator) ∨
      lookup.Opens (Graph.Offers stops) locator := by
  have expected := asks.expects met
  cases sought : query.sought with
  | component | tag => rw [sought] at found; cases found
  | pointer pointer =>
      rw [sought] at expected found
      obtain ⟨isTarget, same⟩ := opens?_pointer found
      obtain ⟨source, looks, isExposed⟩ := expected
      exact .inr ⟨source, pointer, schema, looks, isExposed, isTarget, same⟩
  | named name named =>
      rw [sought] at found
      cases found
      obtain ⟨stop, isStop, member⟩ := List.mem_flatMap.mp (asks.named_of met sought)
      obtain ⟨held, path⟩ := Held.eq_of_named member sought
      exact .inl ⟨stop, isStop, name, held, path, rfl⟩

end

end Lookup

namespace Linker

open ApiLinker.Graph

variable {graph : Graph} {document : Document}

/-- All reports of a walk by a fresh linker whose registry knows the names of the document. -/
theorem walk_log (linker : Linker) (graph : Graph) (document : Document)
    (unentered : linker.entered = []) (unexpanded : linker.expanded = [])
    (unreported : linker.diagnostics = []) (linked : linker.lookup.Linked)
    (registered : ∀ entry ∈ document.namedObjects.schemas, ∃ schema, linker.lookup.registry.get?
      (Locator.ofPointer linker.lookup.authority (Registry.componentPointer entry.1)) =
        some schema) :
    ∃ asked later, linker.lookup.Asks []
        ((graph.tour linker.index [] document).1.flatMap Stop.queries) asked later ∧
      (linker.walk graph document).1.diagnostics =
        (asked.filterMap linker.diagnostic?).map (Diagnostic.withHost document.location) := by
  have covered : ∀ entry ∈ document.namedObjects.schemas, linker.Covers (fun _ => true)
      (Locator.ofPointer linker.lookup.authority (Registry.componentPointer entry.1)) :=
    fun entry member => .inl (registered entry member)
  obtain ⟨asked, later, asks, logged⟩ := walk_reports_asked linker graph document unentered
    unexpanded linked covered
  simp only [reports, List.filter_true] at logged
  exact ⟨asked, later, asks, by rw [walk_diagnostics, unreported, logged]; rfl⟩

theorem registered_of_distinct (index : Index) (settings : Settings)
    (distinct : document.namedObjects.schemas.names.Nodup) :
    ∀ entry ∈ document.namedObjects.schemas,
      (ofDocument index document settings).lookup.registry.get? (Locator.ofPointer
        (ofDocument index document settings).lookup.authority
        (Registry.componentPointer entry.1)) = some entry.2 :=
  fun _ member => Registry.get?_ofSchemas distinct member

theorem registers_of_distinct (graph : Graph) (index : Index) (settings : Settings)
    (distinct : document.namedObjects.schemas.names.Nodup) :
    (ofDocument index document settings).lookup.Registers
      ((graph.tour index [] document).1.flatMap Stop.queries) := by
  intro query member name schema sought
  obtain ⟨stop, met, member⟩ := List.mem_flatMap.mp member
  exact registered_of_distinct index settings distinct (name, schema)
    (mem_schemas_of_stop met (Held.eq_of_named member sought).1)

/-- All reports of a walk by a fresh linker of the document. -/
theorem walk_log_of_distinct (graph : Graph) (index : Index) (settings : Settings)
    (distinct : document.namedObjects.schemas.names.Nodup) :
    let linker := ofDocument index document settings
    ∃ asked later, linker.lookup.Asks [] ((graph.tour index [] document).1.flatMap Stop.queries)
        asked later ∧
      (linker.walk graph document).1.diagnostics =
        (asked.filterMap linker.diagnostic?).map (Diagnostic.withHost document.location) :=
  walk_log _ graph document rfl rfl rfl linked_ofDocument fun entry member =>
    ⟨entry.2, registered_of_distinct index settings distinct entry member⟩

end Linker

end ApiLinker
