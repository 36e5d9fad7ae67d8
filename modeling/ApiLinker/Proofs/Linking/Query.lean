import ApiLinker.Linking.Walk
import ApiLinker.Proofs.Schema.Unfolding
import Mathlib.Data.List.Perm.Basic

/-!
What a walk asks for.

A walk asks for every placeholder and for every pointer that lies beneath no other pointer.  A
pointer that is replaced opens its locator: what is registered there is looked into at once, at the
place of that pointer, and never again.  A named schema opens the locator of its name.
`Lookup.Asks` lists all that is asked for, in order.
-/

namespace ApiLinker

inductive Sought where
  | component (category : Category) (reference : Reference)
  | tag (reference : Reference)
  | pointer (pointer : String)
  | named (name : String) (schema : Schema)

structure Query where
  path : List String
  sought : Sought

def Sought.pointer? : Sought → Option String
  | .pointer text => some text
  | .component _ _ | .tag _ | .named _ _ => none

/-- Pointers and names are sought among schemas. -/
def Sought.isComponent : Sought → Bool
  | .component _ _ | .tag _ => true
  | .pointer _ | .named _ _ => false

namespace Schema

/-- The exposed pointers of a schema, each with its path. -/
def queries : Schema → (path : List String) → List Query :=
  recurse fun _ body path =>
    match body.reference with
    | some pointer => [{ path, sought := .pointer pointer }]
    | none => body.children.visits.flatMap fun (slot, inner) => inner (path ++ slot.segments)

theorem queries_pointer {id : Nat} {body : SchemaBody Schema} {pointer : String}
    (points : body.reference = some pointer) (path : List String) :
    queries (.node id body) path = [{ path, sought := .pointer pointer }] := by
  simp [queries, recurse_node, points]

theorem queries_plain {id : Nat} {body : SchemaBody Schema} (plain : body.reference = none)
    (path : List String) :
    queries (.node id body) path =
      body.children.visits.flatMap fun (slot, child) => child.queries (path ++ slot.segments) := by
  simp [queries, recurse_node, plain, Subschemas.visits_map, List.flatMap_map]

theorem sought_queries (schema : Schema) (path : List String) :
    (schema.queries path).map Query.sought = schema.exposed.map .pointer := by
  induction schema using induct generalizing path with
  | node id body ih =>
      cases points : body.reference with
      | some pointer => rw [queries_pointer points, exposed_pointer points]; rfl
      | none =>
          rw [queries_plain points, exposed_plain points, List.map_flatMap, List.map_flatMap,
            Subschemas.list, List.flatMap_map]
          refine List.flatMap_congr fun visit member => ?_
          exact ih visit.2 (List.mem_map.mpr ⟨visit, member, rfl⟩) _

theorem exposed_of_mem_queries {schema : Schema} {path : List String} {query : Query}
    (member : query ∈ schema.queries path) :
    ∃ pointer ∈ schema.exposed, query.sought = .pointer pointer := by
  have sought : query.sought ∈ (schema.queries path).map Query.sought :=
    List.mem_map.mpr ⟨query, member, rfl⟩
  rw [sought_queries] at sought
  obtain ⟨pointer, isExposed, same⟩ := List.mem_map.mp sought
  exact ⟨pointer, isExposed, same.symm⟩

theorem query_of_mem_exposed {schema : Schema} {pointer : String}
    (isExposed : pointer ∈ schema.exposed) (path : List String) :
    ∃ query ∈ schema.queries path, query.sought = .pointer pointer := by
  have sought : Sought.pointer pointer ∈ (schema.queries path).map Query.sought := by
    rw [sought_queries]
    exact List.mem_map.mpr ⟨pointer, isExposed, rfl⟩
  obtain ⟨query, member, same⟩ := List.mem_map.mp sought
  exact ⟨query, member, same⟩

theorem filter_component_queries (schema : Schema) (path : List String) :
    (schema.queries path).filter (·.sought.isComponent) = [] := by
  refine List.filter_eq_nil_iff.mpr fun query member => ?_
  obtain ⟨pointer, _, same⟩ := exposed_of_mem_queries member
  rw [same]
  exact Bool.false_ne_true

end Schema

def Held.queries (path : List String) : Held → List Query
  | .edge category (.placeholder reference) => [{ path, sought := .component category reference }]
  | .tag (.placeholder reference) => [{ path, sought := .tag reference }]
  | .edge _ _ | .tag _ => []
  | .schema held => held.queries path
  | .namedSchema name held => [{ path, sought := .named name held }]

namespace Held

variable {held : Held} {path : List String} {query : Query} {name : String} {schema : Schema}

theorem mem_queries_edge {category : Category} {edge : Edge} :
    query ∈ (Held.edge category edge).queries path ↔ ∃ reference, edge = .placeholder reference ∧
      query = { path, sought := .component category reference } := by
  cases edge <;> simp [Held.queries]

theorem mem_queries_tag {edge : Edge} :
    query ∈ (Held.tag edge).queries path ↔ ∃ reference, edge = .placeholder reference ∧
      query = { path, sought := .tag reference } := by
  cases edge <;> simp [Held.queries]

/-- What is asked for where something is held. -/
theorem query_cases (member : query ∈ held.queries path) :
    (query.path = path ∧ query.sought.isComponent = true) ∨
      (∃ schema, held = .schema schema ∧ query ∈ schema.queries path) ∨
      ∃ name schema, held = .namedSchema name schema ∧ query = ⟨path, .named name schema⟩ := by
  cases held with
  | edge category edge =>
      obtain ⟨reference, rfl, rfl⟩ := mem_queries_edge.mp member
      exact .inl ⟨rfl, rfl⟩
  | tag edge =>
      obtain ⟨reference, rfl, rfl⟩ := mem_queries_tag.mp member
      exact .inl ⟨rfl, rfl⟩
  | schema schema => exact .inr (.inl ⟨schema, rfl, member⟩)
  | namedSchema name schema =>
      exact .inr (.inr ⟨name, schema, rfl, List.mem_singleton.mp member⟩)

/-- A name is only sought where a schema is held by that name. -/
theorem eq_of_named (member : query ∈ held.queries path)
    (sought : query.sought = .named name schema) :
    held = .namedSchema name schema ∧ query.path = path := by
  rcases query_cases member with ⟨_, isComponent⟩ | ⟨_, _, within⟩ | ⟨_, _, isNamed, rfl⟩
  · rw [sought] at isComponent
    cases isComponent
  · obtain ⟨_, _, isPointer⟩ := Schema.exposed_of_mem_queries within
    cases isPointer.symm.trans sought
  · cases sought
    exact ⟨isNamed, rfl⟩

/-- A pointer is only sought in a schema. -/
theorem schema_of_pointer (member : query ∈ held.queries path) {pointer : String}
    (sought : query.sought = .pointer pointer) :
    ∃ schema, held = .schema schema ∧ query ∈ schema.queries path := by
  rcases query_cases member with ⟨_, isComponent⟩ | isSchema | ⟨_, _, _, rfl⟩
  · rw [sought] at isComponent
    cases isComponent
  · exact isSchema
  · cases sought

end Held

def Stop.queries (stop : Stop) : List Query :=
  stop.held.queries stop.path

namespace Lookup

variable (lookup : Lookup)

/-- The locator that is opened for what is sought, and the schema that is looked into. -/
def opens? : Sought → Option (String × Schema)
  | .component _ _ | .tag _ => none
  | .pointer pointer =>
      (lookup.target? pointer).map (Locator.ofPointer lookup.authority pointer, ·)
  | .named name schema =>
      some (Locator.ofPointer lookup.authority (Registry.componentPointer name), schema)

/-- What is wrong with a pointer.  Nothing is wrong with one that stays because of a cycle. -/
def problem? (pointer : String) : Option Problem :=
  if Reference.isExternal { pointer } then
    if lookup.strict then some (.externalSchema pointer) else none
  else match lookup.registry.get? (Locator.ofPointer lookup.authority pointer) with
    | some _ => none
    | none => some (.schemaNotFound pointer (Locator.ofPointer lookup.authority pointer))

/-- A walk that has opened the locators `known` and asks for `queries` in order asks for `asked` in
all, and has then opened `later`. -/
inductive Asks : List String → List Query → List Query → List String → Prop where
  | nil (known : List String) : Asks known [] [] known
  | pass {known later : List String} {waiting asked : List Query} (query : Query)
      (shut : ∀ locator schema, lookup.opens? query.sought = some (locator, schema) →
        locator ∈ known)
      (rest : Asks known waiting asked later) :
      Asks known (query :: waiting) (query :: asked) later
  | enter {known middle later : List String} {waiting inner asked : List Query} {query : Query}
      {locator : String} {schema : Schema}
      (found : lookup.opens? query.sought = some (locator, schema)) (closed : locator ∉ known)
      (inside : Asks known (schema.queries query.path) inner middle)
      (rest : Asks (locator :: middle) waiting asked later) :
      Asks known (query :: waiting) (query :: inner ++ asked) later

variable {lookup}

/-- A schema that is looked into for its locator, at the path of what it was opened for. -/
structure Opening where
  locator : String
  path : List String
  schema : Schema

def Opening.queries (opening : Opening) : List Query :=
  opening.schema.queries opening.path

theorem opens?_pointer {pointer locator : String} {schema : Schema}
    (found : lookup.opens? (.pointer pointer) = some (locator, schema)) :
    lookup.target? pointer = some schema ∧
      Locator.ofPointer lookup.authority pointer = locator := by
  simpa [opens?, and_comm] using found

section

/-! What is wrong with pointers. -/

variable {pointer : String}

theorem problem?_registered {schema : Schema} (isLocal : Reference.isExternal { pointer } = false)
    (registered :
      lookup.registry.get? (Locator.ofPointer lookup.authority pointer) = some schema) :
    lookup.problem? pointer = none := by
  simp [problem?, isLocal, registered]

theorem problem?_missing (isLocal : Reference.isExternal { pointer } = false)
    (missing : lookup.registry.get? (Locator.ofPointer lookup.authority pointer) = none) :
    lookup.problem? pointer =
      some (.schemaNotFound pointer (Locator.ofPointer lookup.authority pointer)) := by
  simp [problem?, isLocal, missing]

theorem registered_of_cyclic {locator : String} (cyclic : lookup.Cyclic locator) :
    ∃ schema, lookup.registry.get? locator = some schema := by
  obtain ⟨_, ⟨schema, registered, _⟩, _⟩ := Relation.TransGen.head'_iff.mp cyclic
  exact ⟨schema, registered⟩

end

namespace Asks

variable {known middle later : List String} {queries more asked others : List Query}

theorem append (first : lookup.Asks known queries asked middle)
    (second : lookup.Asks middle more others later) :
    lookup.Asks known (queries ++ more) (asked ++ others) later := by
  induction first with
  | nil => exact second
  | pass query shut _ ih => exact .pass query shut (ih second)
  | enter found closed inside _ _ ih =>
      simpa [List.append_assoc] using Asks.enter found closed inside (ih second)

theorem known_kept (asks : lookup.Asks known queries asked later) :
    ∀ locator ∈ known, locator ∈ later := by
  induction asks with
  | nil => exact fun _ member => member
  | pass _ _ _ ih => exact ih
  | enter _ _ _ _ inside rest =>
      exact fun locator member => rest locator (List.mem_cons_of_mem _ (inside locator member))

theorem queries_asked (asks : lookup.Asks known queries asked later) :
    ∀ query ∈ queries, query ∈ asked := by
  induction asks with
  | nil => exact fun _ member => member
  | pass query _ _ ih =>
      exact List.forall_mem_cons.mpr
        ⟨List.mem_cons_self, fun other waits => List.mem_cons_of_mem _ (ih other waits)⟩
  | enter _ _ _ _ _ ih =>
      exact List.forall_mem_cons.mpr ⟨List.mem_cons_self, fun other waits =>
        List.mem_append_right _ (ih other waits)⟩

/-- What holds of the first queries and goes over to those that are opened holds of all that is
asked for. -/
theorem asked_of {P : Query → Prop} (asks : lookup.Asks known queries asked later)
    (start : ∀ query ∈ queries, P query)
    (step : ∀ query locator schema, P query →
      lookup.opens? query.sought = some (locator, schema) →
      ∀ inner ∈ schema.queries query.path, P inner) :
    ∀ query ∈ asked, P query := by
  induction asks with
  | nil => exact start
  | pass query _ _ ih =>
      obtain ⟨first, rest⟩ := List.forall_mem_cons.mp start
      exact List.forall_mem_cons.mpr ⟨first, ih rest⟩
  | enter found _ _ _ inside ih =>
      obtain ⟨first, rest⟩ := List.forall_mem_cons.mp start
      refine List.forall_mem_append.mpr ⟨List.forall_mem_cons.mpr ⟨first, ?_⟩, ih rest⟩
      exact inside (step _ _ _ first found)

/-- Whatever can be opened for something that is asked for has been opened. -/
theorem opened (asks : lookup.Asks known queries asked later) {query : Query} {locator : String}
    {schema : Schema} (met : query ∈ asked)
    (found : lookup.opens? query.sought = some (locator, schema)) : locator ∈ later := by
  induction asks with
  | nil => cases met
  | pass first shut rest ih =>
      rcases List.mem_cons.mp met with rfl | met
      · exact rest.known_kept _ (shut locator schema found)
      · exact ih met
  | enter named _ inside rest ihInside ih =>
      rcases List.mem_append.mp met with met | met
      · rcases List.mem_cons.mp met with rfl | met
        · rw [found] at named
          cases named
          exact rest.known_kept _ List.mem_cons_self
        · exact rest.known_kept _ (List.mem_cons_of_mem _ (ihInside met))
      · exact ih met

/-- Names are asked for at the start only. -/
theorem named_of (asks : lookup.Asks known queries asked later) {query : Query}
    (met : query ∈ asked) {name : String} {schema : Schema} (sought : query.sought = .named name schema) :
    query ∈ queries := by
  refine asks.asked_of (P := fun query => ∀ name schema, query.sought = .named name schema →
    query ∈ queries) (fun _ member _ _ _ => member) ?_ query met name schema sought
  intro _ _ _ _ _ inner member name schema sought
  obtain ⟨pointer, _, isPointer⟩ := Schema.exposed_of_mem_queries member
  cases isPointer.symm.trans sought

/-- A locator is only opened for something that is asked for, and then all that is exposed in its
schema is asked for. -/
theorem opened_by (asks : lookup.Asks known queries asked later) {locator : String}
    (isOpen : locator ∈ later) :
    locator ∈ known ∨ ∃ query ∈ asked, ∃ schema,
      lookup.opens? query.sought = some (locator, schema) ∧
        ∀ inner ∈ schema.queries query.path, inner ∈ asked := by
  induction asks with
  | nil => exact .inl isOpen
  | pass first _ _ ih =>
      refine (ih isOpen).imp_right fun opened => ?_
      obtain ⟨query, met, schema, found, within⟩ := opened
      exact ⟨query, List.mem_cons_of_mem _ met, schema, found, fun inner member =>
        List.mem_cons_of_mem _ (within inner member)⟩
  | @enter known middle later waiting inner asked first locator schema found _ inside rest ihInside
      ih =>
      rcases ih isOpen with before | ⟨query, met, schema, found, within⟩
      · rcases List.mem_cons.mp before with rfl | before
        · exact .inr ⟨first, by simp, schema, found, fun other member =>
            List.mem_append_left _ (List.mem_cons_of_mem _ (inside.queries_asked other member))⟩
        · refine (ihInside before).imp_right fun opened => ?_
          obtain ⟨query, met, schema, found, within⟩ := opened
          exact ⟨query, List.mem_append_left _ (List.mem_cons_of_mem _ met), schema, found,
            fun other member =>
              List.mem_append_left _ (List.mem_cons_of_mem _ (within other member))⟩
      · exact .inr ⟨query, List.mem_append_right _ met, schema, found, fun other member =>
          List.mem_append_right _ (within other member)⟩

/-- Besides the first queries, what is exposed in the schema of each opening is asked for, and
nothing else. -/
theorem perm_openings (asks : lookup.Asks known queries asked later) :
    ∃ openings : List Opening, asked.Perm (queries ++ openings.flatMap Opening.queries) ∧
      (openings.map Opening.locator ++ known).Perm later ∧
      ∀ opening ∈ openings, ∃ query ∈ asked,
        lookup.opens? query.sought = some (opening.locator, opening.schema) := by
  induction asks with
  | nil known => exact ⟨[], .refl _, .refl _, fun _ never => by cases never⟩
  | pass query _ _ ih =>
      obtain ⟨openings, all, locators, opened⟩ := ih
      refine ⟨openings, all.cons query, locators, fun opening member => ?_⟩
      obtain ⟨other, met, found⟩ := opened opening member
      exact ⟨other, List.mem_cons_of_mem _ met, found⟩
  | @enter known middle later waiting inner asked query locator schema found _ _ _ ihInside ih =>
      obtain ⟨within, allWithin, locatorsWithin, openedWithin⟩ := ihInside
      obtain ⟨others, all, locators, opened⟩ := ih
      refine ⟨{ locator, path := query.path, schema } :: (within ++ others), ?_, ?_, ?_⟩
      · rw [List.cons_append, List.cons_append, List.flatMap_cons, List.flatMap_append,
          ← List.append_assoc (Opening.queries _)]
        exact ((allWithin.append all).trans (List.perm_append_comm_assoc _ _ _)).cons query
      · rw [List.map_cons, List.map_append, List.cons_append, List.append_assoc]
        refine List.Perm.trans ?_ locators
        refine .trans ?_ (List.perm_middle.symm.trans
          (.append_left _ (locatorsWithin.cons locator)))
        exact (List.perm_append_comm_assoc _ _ _).cons locator
      · refine List.forall_mem_cons.mpr ⟨⟨query, by simp, found⟩, fun opening member => ?_⟩
        rcases List.mem_append.mp member with member | member
        · obtain ⟨other, met, found⟩ := openedWithin opening member
          exact ⟨other, List.mem_append_left _ (List.mem_cons_of_mem _ met), found⟩
        · obtain ⟨other, met, found⟩ := opened opening member
          exact ⟨other, List.mem_append_right _ met, found⟩

/-- Only schemas are looked into, so no query but the first ones is for a component. -/
theorem filter_component (asks : lookup.Asks known queries asked later) :
    asked.filter (·.sought.isComponent) = queries.filter (·.sought.isComponent) := by
  induction asks with
  | nil => rfl
  | pass _ _ _ ih => simp only [List.filter_cons, ih]
  | enter _ _ _ _ ihInside ih =>
      simp only [List.filter_append, List.filter_cons, ihInside, Schema.filter_component_queries,
        ih]
      split <;> rfl

end Asks

end Lookup

end ApiLinker
