import ApiLinker.Proofs.Format.Document
import ApiLinker.Proofs.Format.Standing
import ApiLinker.Proofs.Linking.Repeated
import ApiLinker.Proofs.Schema.Written

/-!
Where reports stand.

The path of a report leads to what holds the reference that failed, through the written form of the
document and, on the way, through references that the walk followed (`Document.link_located`).  A
path that meets none of these leads there in the document alone.
-/

namespace ApiLinker

open Place

namespace Json

/-- Where a path leads if it may go on, at any value, in another value that `follows` names. -/
inductive Leads (follows : Json → Json → Prop) : Json → List String → Json → Prop where
  | here (json : Json) : Leads follows json [] json
  | child {json child target : Json} {segment : String} {path : List String}
      (found : json.child? segment = some child) (rest : Leads follows child path target) :
      Leads follows json (segment :: path) target
  | follow {json other target : Json} {path : List String} (followed : follows json other)
      (rest : Leads follows other path target) : Leads follows json path target

variable {follows : Json → Json → Prop} {json middle target : Json} {front path : List String}

theorem Leads.trans (first : Leads follows json front middle)
    (second : Leads follows middle path target) : Leads follows json (front ++ path) target := by
  induction first with
  | here => exact second
  | child found _ ih => exact .child found (ih second)
  | follow followed _ ih => exact .follow followed (ih second)

theorem leads_of_at? (found : json.at? path = some target) : Leads follows json path target := by
  induction path generalizing json with
  | nil =>
      cases found
      exact .here _
  | cons segment path ih =>
      obtain ⟨child, isChild, found⟩ := Option.bind_eq_some_iff.mp found
      exact .child isChild (ih found)

/-- A path that meets nothing to follow is a path in the value itself. -/
theorem Leads.at? (leads : Leads follows json path target)
    (unmet : ∀ front, front <+: path → ∀ met, json.at? front = some met →
      ∀ other, ¬ follows met other) :
    json.at? path = some target := by
  induction leads with
  | here => rfl
  | child found _ ih =>
      rw [Json.at?, found, Option.bind_some]
      refine ih fun front isFront met isMet => ?_
      refine unmet (_ :: front) (List.cons_prefix_cons.mpr ⟨rfl, isFront⟩) met ?_
      rw [Json.at?, found, Option.bind_some, isMet]
  | follow followed _ _ => exact absurd followed (unmet [] List.nil_prefix _ rfl _)

end Json

namespace Schema

/-- Every query of a schema stands at an object with its pointer. -/
theorem at?_of_mem_queries {schema : Schema} (distinct : schema.Distinct) {path : List String}
    {query : Query} (member : query ∈ schema.queries path) :
    ∃ inner members pointer, query = ⟨path ++ inner, .pointer pointer⟩ ∧
      schema.json.at? inner = some (.object members) ∧
      Table.find? "$ref" members = some (.string pointer) := by
  induction schema using induct generalizing path with
  | node id body ih =>
      cases distinct with
      | node properties _ children =>
          cases points : body.reference with
          | some pointer =>
              rw [queries_pointer points, List.mem_singleton] at member
              refine ⟨[], body.members json, pointer, ?_, ?_, find?_reference points⟩
              · rw [member, List.append_nil]
              · rw [json_node, Json.at?_nil]
          | none =>
              rw [queries_plain points, List.mem_flatMap] at member
              obtain ⟨⟨slot, child⟩, visited, member⟩ := member
              have isChild : child ∈ body.children.list := List.mem_map_of_mem visited
              obtain ⟨inner, members, pointer, rfl, found, points⟩ :=
                ih child isChild (children child isChild) member
              refine ⟨slot.segments ++ inner, members, pointer, ?_, ?_, points⟩
              · rw [List.append_assoc]
              · rw [Json.at?_append, at?_slot properties visited, Option.bind_some, found]

end Schema

/-- A place at which a security scheme is held by a reference ends in the scheme's name. -/
def Place.Signed (place : Place) : Prop :=
  ∀ edge reference, place.held = .edge .securitySchemes edge → edge.reference? = some reference →
    ∃ front, place.path = front ++ [reference.identifier]

namespace Place

def AllSigned (places : List Place) : Prop :=
  ∀ place ∈ places, place.Signed

variable {places others : List Place}

theorem AllSigned.append (first : AllSigned places) (second : AllSigned others) :
    AllSigned (places ++ others) :=
  List.forall_mem_append.mpr ⟨first, second⟩

theorem AllSigned.flatMap {items : List α} {f : α → List Place}
    (each : ∀ item ∈ items, AllSigned (f item)) : AllSigned (items.flatMap f) := fun place member =>
  have ⟨item, isItem, inside⟩ := List.mem_flatMap.mp member
  each item isItem place inside

theorem AllSigned.within (signed : AllSigned places) (segment : String) :
    AllSigned (within segment places) := by
  intro place member edge reference held refers
  obtain ⟨origin, isOrigin, rfl⟩ := List.mem_map.mp member
  obtain ⟨front, same⟩ := signed origin isOrigin edge reference held refers
  exact ⟨segment :: front, by simp [under, same]⟩

/-- Where no security scheme is held there is nothing to sign. -/
theorem allSigned_of_helds (unheld : ∀ edge, .edge .securitySchemes edge ∉ helds places) :
    AllSigned places :=
  fun _ member edge _ held => absurd (held ▸ List.mem_map_of_mem member) (unheld edge)

theorem allSigned_security (requirements : List SecurityRequirement) :
    AllSigned (securityPlaces requirements) := by
  refine .flatMap fun entry _ => .within ?_ _
  intro place member edge reference held refers
  obtain ⟨⟨scheme, scopes⟩, _, rfl⟩ := List.mem_map.mp member
  obtain rfl : scheme = edge := by simpa using held
  exact ⟨[], by simp [refers]⟩

theorem allSigned_operation (operation : Operation) : AllSigned operation.places := by
  refine AllSigned.append (allSigned_of_helds fun edge held => ?_) ((allSigned_security _).within _)
  simp only [helds_append, helds_within, helds_ofList, helds_ofTags, helds_ofTable, List.mem_append,
    List.mem_map] at held
  rcases held with (((requested | ⟨_, _, never⟩) | ⟨_, _, never⟩) | ⟨_, _, never⟩) | ⟨_, _, never⟩
  · obtain ⟨place, isPlace, never⟩ := List.mem_map.mp requested
    obtain ⟨_, _, rfl⟩ := List.mem_map.mp isPlace
    cases never
  all_goals cases never

theorem allSigned_entity (entity : Entity) : AllSigned entity.places := by
  have unheld (never : ∀ edge, ¬ entity.Holds (.edge .securitySchemes edge)) :
      AllSigned entity.places :=
    allSigned_of_helds fun edge held => never edge (Entity.holds_iff.mpr held)
  cases entity with
  | pathItem value =>
      refine AllSigned.append (allSigned_of_helds ?_) (.flatMap fun entry _ =>
        (allSigned_operation entry.2).within _)
      simp
  | tag | «example» | link | securityScheme => exact nofun
  | parameter | requestBody | response =>
      refine unheld fun edge holds => ?_
      cases holds with
      | content _ inside => cases inside
  | header | callback => exact unheld fun edge holds => nomatch holds

end Place

section

/-! The places are those that are written. -/

variable {place : Place}

theorem Operation.mem_writtenPlaces {operation : Operation} :
    place ∈ operation.writtenPlaces ↔ place ∈ operation.places := by
  simp only [writtenPlaces, places, List.mem_append]
  tauto

theorem Entity.mem_writtenPlaces {entity : Entity} :
    place ∈ entity.writtenPlaces ↔ place ∈ entity.places := by
  cases entity with
  | pathItem item =>
      simp only [writtenPlaces, PathItem.writtenPlaces, places, PathItem.places, List.mem_append,
        List.mem_flatMap, within, List.mem_map, Operation.mem_writtenPlaces]
      exact or_comm
  | _ => rfl

theorem Components.mem_writtenPlaces {components : Components} :
    place ∈ components.writtenPlaces ↔ place ∈ components.places := by
  simp only [writtenPlaces, places, List.mem_append]
  tauto

end

theorem EdgeFormat.write_nested (left right : Graph) (depth : Nat) (category : Category)
    (edge : Edge) :
    ((nested left right (depth + 1)).edge category).write edge =
      edge.write (nested left right depth) left := rfl

/-- What a walk goes on with at an object that refers to something: the component or the schema that
is found, as it is written. -/
inductive Linker.Follows (linker : Linker) (graph : Graph) : Json → Json → Prop where
  | component {members : Table Json} {reference : Reference} {category : Category}
      {target : EntityId} {entity : Entity} {json : Json}
      (points : Table.find? "$ref" members = some (.string reference.pointer))
      (isLocal : reference.isExternal = false)
      (resolved : linker.index.resolve category reference = .ok target)
      (found : graph.entity? target = some entity)
      (written : Format.writeEntity (.writing graph) entity = .ok json) :
      Follows linker graph (.object members) json
  | schema {members : Table Json} {pointer : String} {target : Schema}
      (points : Table.find? "$ref" members = some (.string pointer))
      (found : linker.lookup.target? pointer = some target) :
      Follows linker graph (.object members) target.json

/-- What stands where something is sought. -/
inductive Query.HeldBy (query : Query) : Json → Prop where
  | component {category : Category} {reference : Reference}
      (seeks : query.sought = .component category reference) : HeldBy query reference.json
  | tag {reference : Reference} (seeks : query.sought = .tag reference) : HeldBy query reference.json
  | scopes {reference : Reference} (seeks : query.sought = .component .securitySchemes reference)
      (named : query.path.getLast? = some reference.identifier) (scopes : List String) :
      HeldBy query (.array (scopes.map .string))
  | tagName {reference : Reference} (seeks : query.sought = .tag reference) :
      HeldBy query (.string reference.identifier)
  | pointer {pointer : String} {members : Table Json} (seeks : query.sought = .pointer pointer)
      (points : Table.find? "$ref" members = some (.string pointer)) :
      HeldBy query (.object members)
  | schema {name : String} {schema : Schema} (seeks : query.sought = .named name schema)
      (distinct : schema.Distinct) : HeldBy query schema.json

theorem Components.holds_of_mem_edgesOf {components : Components} {category : Category}
    {name : String} {edge : Edge} (member : (name, edge) ∈ components.edgesOf category) :
    components.Holds (.edge category edge) := by
  cases category with
  | tags | schemas => cases member
  | parameters => exact .parameter member
  | requestBodies => exact .requestBody member
  | responses => exact .response member
  | examples => exact .example member
  | headers => exact .header member
  | links => exact .link member
  | callbacks => exact .callback member
  | pathItems => exact .pathItem member
  | securitySchemes => exact .securityScheme member

namespace Graph

variable {graph : Graph} {document : Document} {index : Index}

/-- What is registered under a category is of that category. -/
theorem Orderly.category_of_entity? (orderly : graph.Orderly (Held.AsRead graph) document)
    {category : Category} (different : category ≠ .tags) {name : String} {target : EntityId}
    (known : (Index.ofDocument graph document).entity? category name = some target) :
    ∃ entity, graph.entity? target = some entity ∧ entity.category = category := by
  refine Index.ofDocument_least different (K := fun _ target =>
    ∃ entity, graph.entity? target = some entity ∧ entity.category = category)
    (fun name edge target member leads => ?_) (fun _ _ _ _ _ _ known => known) name target known
  have asRead : Held.AsRead graph graph.size (.edge category edge) := by
    cases components : document.components with
    | none =>
        rw [Document.namedObjects, components] at member
        cases category <;> cases member
    | some held =>
        rw [Document.namedObjects, components] at member
        exact orderly.root.fits_of_holds
          (.component components (Components.holds_of_mem_edgesOf member))
  cases asRead.fits with
  | placeholder => cases leads
  | linked => exact absurd rfl (asRead.unlinked _ _)
  | inline below found filed =>
      cases leads
      exact ⟨_, found, filed⟩

/-- An edge leads to something of its category. -/
theorem Orderly.category_of_link (orderly : graph.Orderly (Held.AsRead graph) document)
    {category : Category} (different : category ≠ .tags) {edge : Edge} {bound : Nat}
    (asRead : Held.AsRead graph bound (.edge category edge)) {id : EntityId}
    (leads : ((Index.ofDocument graph document).link category edge).target? = some id) :
    ∃ entity, graph.entity? id = some entity ∧ entity.category = category := by
  cases asRead.fits with
  | linked => exact absurd rfl (asRead.unlinked _ _)
  | inline below found filed =>
      cases leads
      exact ⟨_, found, filed⟩
  | placeholder _ pointer =>
      have links := (Index.ofDocument graph document).links_link category (.placeholder { pointer })
      generalize (Index.ofDocument graph document).link category (.placeholder { pointer }) = after
        at links leads
      cases links with
      | external | missing => cases leads
      | found _ resolved =>
          cases leads
          exact orderly.category_of_entity? different (Index.resolve_eq_ok_iff.mp resolved).2

end Graph

namespace Linker

open ApiLinker.Graph

/-- A stop is found: its path leads to what is held there, written by the format of a level that is
deep enough for it. -/
structure Finds (linker : Linker) (graph : Graph) (root : Json) (stop : Stop) (whole : Bool)
    (bound level : Nat) (value : Json) : Prop where
  enough : bound ≤ level
  leads : root.Leads (linker.Follows graph) stop.path value
  writes : (EdgeFormat.nested graph graph (level + 1)).Writes whole stop.held value
  asRead : stop.held.AsRead graph bound
  signed : whole = false → ∀ edge reference, stop.held = .edge .securitySchemes edge →
    edge.reference? = some reference → stop.path.getLast? = some reference.identifier

variable {linker : Linker} {graph : Graph} {document : Document} {root : Json}

theorem getLast?_of_signed {place : Place} (signed : place.Signed) (path : List String)
    {edge : Edge} {reference : Reference} (held : place.held = .edge .securitySchemes edge)
    (refers : edge.reference? = some reference) :
    (path ++ place.path).getLast? = some reference.identifier := by
  obtain ⟨front, same⟩ := signed edge reference held refers
  rw [same, ← List.append_assoc, List.getLast?_concat]

section

variable (orderly : graph.Orderly (Held.AsRead graph) document)
include orderly

/-- The places of an entity are found where its written form is. -/
theorem finds_places {holder : Holder} {path : List String} {value : Json} {id : EntityId}
    {entity : Entity} (found : graph.entity? id = some entity) {level : Nat} (enough : id ≤ level)
    (leads : root.Leads (linker.Follows graph) path value)
    (written : Format.writeEntity (.nested graph graph (level + 1)) entity = .ok value)
    {stop : Stop} (member : stop ∈ holder.stops path entity.places) :
    ∃ inner, linker.Finds graph root stop false id level inner := by
  obtain ⟨place, isPlace, rfl⟩ := List.mem_map.mp member
  have fitting : graph.Orderly (Held.Fits graph) document := orderly.imp fun _ _ asRead => asRead.fits
  obtain ⟨json, isJson, stands⟩ := fitting.stands_entity found enough
  obtain rfl : json = value := Except.ok.inj (isJson.symm.trans written)
  obtain ⟨inner, isInner, writes⟩ := stands place (Entity.mem_writtenPlaces.mpr isPlace)
  exact ⟨inner, {
    enough
    leads := leads.trans (Json.leads_of_at? isInner)
    writes
    asRead := (orderly.entity id entity found).fits_of_holds
      (Entity.holds_iff.mpr (List.mem_map_of_mem isPlace))
    signed := fun _ edge reference =>
      getLast?_of_signed (Place.allSigned_entity entity place isPlace) path }⟩

/-- From an edge as it is written a path leads on to the written form of what the edge leads to: where
this is held there, it is the value itself, by a format of one level less. -/
theorem leads_entity {path : List String} {category : Category} {edge : Edge} {bound level : Nat}
    (enough : bound ≤ level) (asRead : Held.AsRead graph bound (.edge category edge)) {value : Json}
    (isThere : root.Leads (linker.Follows graph) path value)
    (written : ((EdgeFormat.nested graph graph (level + 1)).edge category).write edge = .ok value)
    {id : EntityId} {entity : Entity} (known : graph.entity? id = some entity)
    (leads : (linker.index.link category edge).target? = some id) :
    ∃ level json, id ≤ level ∧ root.Leads (linker.Follows graph) path json ∧
      Format.writeEntity (.nested graph graph (level + 1)) entity = .ok json := by
  cases asRead.fits with
  | linked => exact absurd rfl (asRead.unlinked _ _)
  | inline below =>
      cases leads
      have deeper : id < level := Nat.lt_of_lt_of_le below enough
      obtain ⟨level, rfl⟩ := Nat.exists_eq_succ_of_ne_zero (Nat.ne_zero_of_lt deeper)
      rw [EdgeFormat.write_nested, Edge.write_of_inline known] at written
      exact ⟨level, value, Nat.le_of_lt_succ deeper, isThere, written⟩
  | placeholder _ pointer =>
      rw [EdgeFormat.write_nested, Edge.write_of_reference rfl] at written
      cases written
      have links := linker.index.links_link category (.placeholder { pointer })
      generalize linker.index.link category (.placeholder { pointer }) = after at links leads
      cases links with
      | external | missing => cases leads
      | found isLocal resolved =>
          cases leads
          have below : id ≤ graph.size := (Graph.lt_size_of_entity? known).le
          obtain ⟨json, isJson, _⟩ :=
            (orderly.imp fun _ _ asRead => asRead.fits).stands_entity known below
          have followed : linker.Follows graph (Reference.json { pointer }) json :=
            .component rfl isLocal resolved known isJson
          have entered := isThere.trans (.follow followed (.here json))
          rw [List.append_nil] at entered
          exact ⟨graph.size, json, below, entered, isJson⟩

/-- The places that are entered at a stop are found when the stop is. -/
theorem Finds.enter {stop : Stop} {whole : Bool} {bound level : Nat} {value : Json}
    (finds : linker.Finds graph root stop whole bound level value)
    (indexed : linker.index = .ofDocument graph document) {id : EntityId}
    (leads : stop.leadsTo? linker.index = some id) {inner : Stop}
    (member : inner ∈ (Holder.entity id).stops stop.path (graph.placesOf id)) :
    ∃ level value, linker.Finds graph root inner false id level value := by
  obtain ⟨holder, path, held⟩ := stop
  obtain ⟨enough, isThere, writes, asRead, _⟩ := finds
  cases known : graph.entity? id with
  | none => simp [placesOf, known, Holder.stops] at member
  | some entity =>
      have places : graph.placesOf id = entity.places := by simp [placesOf, known]
      rw [places] at member
      cases writes with
      | tagName | tag | schema | namedSchema => cases leads
      | edge other written =>
          obtain ⟨level, json, within, entered, isJson⟩ :=
            leads_entity orderly enough asRead isThere written known leads
          exact ⟨level, finds_places orderly known within entered isJson member⟩
      | scopes =>
          -- What security schemes hold is nothing, so nothing is entered there.
          obtain ⟨scheme, found, filed⟩ :=
            orderly.category_of_link (by decide) asRead (indexed ▸ leads)
          cases known.symm.trans found
          cases entity with
          | securityScheme => simp [Holder.stops, Entity.places] at member
          | _ => cases filed

/-- The places of the document are found in its written form. -/
theorem finds_document :
    ∃ json, document.write graph = .ok json ∧
      ∀ stop ∈ Holder.document.stops [] document.places, ∃ whole value,
        linker.Finds graph json stop whole graph.size graph.size value := by
  obtain ⟨json, written, outer, inside⟩ :=
    (orderly.imp fun _ _ asRead => asRead.fits).stands_document
  refine ⟨json, written, fun stop member => ?_⟩
  obtain ⟨place, isPlace, rfl⟩ := List.mem_map.mp member
  have asRead : place.held.AsRead graph graph.size :=
    orderly.root.fits_of_holds (Document.holds_iff.mpr (List.mem_map_of_mem isPlace))
  have found {whole : Bool} {places : List Place}
      (stands : json.Stands (.writing graph) whole places) (among : place ∈ places)
      (signed : whole = false → place.Signed) :
      ∃ whole value, linker.Finds graph json (Stop.mk .document ([] ++ place.path) place.held) whole
        graph.size graph.size value := by
    obtain ⟨value, isThere, writes⟩ := stands place among
    exact ⟨whole, value, Nat.le_refl _, Json.leads_of_at? isThere, writes, asRead,
      fun here _ _ => getLast?_of_signed (signed here) []⟩
  simp only [Document.places, List.mem_append] at isPlace
  rcases isPlace with (((tag | component) | path) | webhook) | security
  · exact found outer (List.mem_append_left _ tag) Bool.noConfusion
  · refine found outer (List.mem_append_right _ ?_) Bool.noConfusion
    simpa only [List.mem_flatMap, within, List.mem_map, Components.mem_writtenPlaces] using component
  · refine found inside (List.mem_append_left _ (List.mem_append_left _ path)) fun _ => ?_
    exact (Place.allSigned_of_helds (by simp)).within _ place path
  · refine found inside (List.mem_append_left _ (List.mem_append_right _ webhook)) fun _ => ?_
    exact (Place.allSigned_of_helds (by simp)).within _ place webhook
  · exact found inside (List.mem_append_right _ security) fun _ =>
      (Place.allSigned_security _).within _ place security

/-- Every stop of a tour is found. -/
theorem finds_of_tour (indexed : linker.index = .ofDocument graph document)
    (start : ∀ stop ∈ Holder.document.stops [] document.places, ∃ whole value,
      linker.Finds graph root stop whole graph.size graph.size value) :
    ∀ stop ∈ (graph.tour linker.index [] document).1, ∃ whole bound level value,
      linker.Finds graph root stop whole bound level value := by
  refine (runs_tour graph linker.index [] document).visited_of
    (fun stop member => ?_) fun stop id found leads _ _ inner member => ?_
  · obtain ⟨whole, value, finds⟩ := start stop member
    exact ⟨whole, _, _, value, finds⟩
  · obtain ⟨whole, bound, level, value, finds⟩ := found
    obtain ⟨level, value, finds⟩ := finds.enter orderly indexed leads member
    exact ⟨false, id, level, value, finds⟩

end

/-- What a query asks for is found: its path leads to what holds it. -/
def FindsQuery (linker : Linker) (graph : Graph) (root : Json) (query : Query) : Prop :=
  ∃ value, root.Leads (linker.Follows graph) query.path value ∧ query.HeldBy value

theorem findsQuery_of_schema {schema : Schema} {path : List String}
    (leads : root.Leads (linker.Follows graph) path schema.json) (distinct : schema.Distinct)
    {query : Query} (member : query ∈ schema.queries path) :
    linker.FindsQuery graph root query := by
  obtain ⟨inner, members, pointer, rfl, found, points⟩ := Schema.at?_of_mem_queries distinct member
  exact ⟨.object members, leads.trans (Json.leads_of_at? found), .pointer rfl points⟩

theorem Finds.query {stop : Stop} {whole : Bool} {bound level : Nat} {value : Json}
    (finds : linker.Finds graph root stop whole bound level value) {query : Query}
    (member : query ∈ stop.queries) : linker.FindsQuery graph root query := by
  obtain ⟨holder, path, held⟩ := stop
  obtain ⟨_, isThere, writes, asRead, signed⟩ := finds
  cases writes with
  | edge other written =>
      obtain ⟨reference, rfl, rfl⟩ := Held.mem_queries_edge.mp member
      rw [EdgeFormat.write_nested, Edge.write_of_reference rfl] at written
      cases written
      exact ⟨_, isThere, .component rfl⟩
  | scopes inside scopes refers =>
      obtain ⟨reference, rfl, rfl⟩ := Held.mem_queries_edge.mp member
      exact ⟨_, isThere, .scopes rfl (signed inside _ _ rfl rfl) scopes⟩
  | tagName inside written =>
      obtain ⟨reference, rfl, rfl⟩ := Held.mem_queries_tag.mp member
      cases written
      exact ⟨_, isThere, .tagName rfl⟩
  | tag outside written =>
      obtain ⟨reference, rfl, rfl⟩ := Held.mem_queries_tag.mp member
      rw [EdgeFormat.write_nested, Edge.write_of_reference rfl] at written
      cases written
      exact ⟨_, isThere, .tag rfl⟩
  | schema schema =>
      cases asRead.fits with
      | schema distinct => exact findsQuery_of_schema isThere distinct member
  | namedSchema name schema =>
      obtain rfl := List.mem_singleton.mp member
      cases asRead.fits with
      | namedSchema distinct => exact ⟨_, isThere, .schema rfl distinct⟩

/-- What is asked inside an opened schema is found when the schema is. -/
theorem FindsQuery.opens {query : Query} (found : linker.FindsQuery graph root query)
    (distinct : ∀ pointer target, linker.lookup.target? pointer = some target → target.Distinct)
    {locator : String} {schema : Schema}
    (opens : linker.lookup.opens? query.sought = some (locator, schema)) :
    ∀ inner ∈ schema.queries query.path, linker.FindsQuery graph root inner := by
  intro inner member
  obtain ⟨path, sought⟩ := query
  obtain ⟨value, leads, heldBy⟩ := found
  cases sought with
  | component | tag => cases opens
  | named name held =>
      cases opens
      cases heldBy with
      | schema seeks isDistinct =>
          cases seeks
          exact findsQuery_of_schema leads isDistinct member
      | component seeks | tag seeks | scopes seeks | tagName seeks | pointer seeks => cases seeks
  | pointer pointer =>
      obtain ⟨isTarget, _⟩ := Lookup.opens?_pointer opens
      cases heldBy with
      | pointer seeks points =>
          cases seeks
          have entered := leads.trans (.follow (.schema points isTarget) (.here _))
          rw [List.append_nil] at entered
          exact findsQuery_of_schema entered (distinct pointer schema isTarget) member
      | component seeks | tag seeks | scopes seeks | tagName seeks | schema seeks => cases seeks

end Linker

/-- The category in which nothing was found. -/
def Problem.expected? : Problem → Option Category
  | .notFound category _ | .categoryMismatch category _ => some category
  | .externalReference _ | .schemaNotFound _ _ | .externalSchema _ => none

/-- What holds a reference that failed: an object that has its text for `$ref`, or else the name of
a tag, or the scopes under the name of a security scheme. -/
inductive Diagnostic.HeldBy (diagnostic : Diagnostic) : Json → Prop where
  | object {members : Table Json}
      (points : Table.find? "$ref" members = some (.string diagnostic.problem.pointer)) :
      HeldBy diagnostic (.object members)
  | tagName {reference : Reference} {name : String}
      (refers : diagnostic.problem.reference? = some reference)
      (expects : ∀ category ∈ diagnostic.problem.expected?, category = .tags)
      (named : reference.identifier = name) : HeldBy diagnostic (.string name)
  | scopes {reference : Reference} (refers : diagnostic.problem.reference? = some reference)
      (expects : ∀ category ∈ diagnostic.problem.expected?, category = .securitySchemes)
      (named : diagnostic.path.getLast? = some reference.identifier) (scopes : List String) :
      HeldBy diagnostic (.array (scopes.map .string))

section

variable {host : Option String} {problem : Problem}

theorem Problem.pointer_of_reference? {reference : Reference}
    (about : problem.reference? = some reference) : problem.pointer = reference.pointer := by
  cases problem <;> cases about <;> rfl

theorem Problem.pointer_withHost : (problem.withHost host).pointer = problem.pointer := by
  cases host <;> cases problem <;> rfl

theorem Problem.expected?_withHost : (problem.withHost host).expected? = problem.expected? := by
  cases host <;> cases problem <;> rfl

theorem Index.Misses.expected? {index : Index} {strict : Bool} {category : Category}
    {reference : Reference} (misses : index.Misses strict category reference problem) :
    ∀ expected ∈ problem.expected?, expected = category := by
  intro expected isExpected
  cases misses with
  | external => cases isExpected
  | unresolved _ failed =>
      rcases Index.eq_of_resolve_error failed with rfl | rfl <;> cases isExpected <;> rfl

end

namespace Linker

open ApiLinker.Graph

variable {linker : Linker} {graph : Graph} {document : Document} {root : Json}

theorem pointer_of_problem? {lookup : Lookup} {pointer : String} {problem : Problem}
    (wrong : lookup.problem? pointer = some problem) : problem.pointer = pointer := by
  rw [Lookup.problem?] at wrong
  split at wrong
  · split at wrong
    · cases wrong
      rfl
    · cases wrong
  · split at wrong
    · cases wrong
    · cases wrong
      rfl

/-- What holds what is sought holds what is reported of it. -/
theorem heldBy_diagnostic {query : Query} {value : Json} {problem : Problem} {host : Option String}
    (heldBy : query.HeldBy value) (wrong : linker.problem? query.sought = some problem) :
    (Diagnostic.withHost host ⟨query.path, problem⟩).HeldBy value := by
  obtain ⟨path, sought⟩ := query
  have ofReference {reference : Reference} (about : problem.reference? = some reference) :
      (Diagnostic.withHost host ⟨path, problem⟩).HeldBy reference.json := by
    refine .object (congrArg (some ∘ Json.string) ?_)
    rw [Diagnostic.withHost, Problem.pointer_withHost, Problem.pointer_of_reference? about]
  cases heldBy with
  | component seeks =>
      cases seeks
      exact ofReference (Index.problem?_eq_some_iff.mp wrong).reference?
  | @tag reference seeks =>
      cases seeks
      obtain ⟨_, _, same, misses⟩ := misses_of_problem?
        (rfl : (Held.tag (.placeholder reference)).sought? = some (.tag reference)) wrong
      cases same
      exact ofReference misses.reference?
  | scopes seeks named scopes =>
      cases seeks
      have misses := Index.problem?_eq_some_iff.mp wrong
      refine .scopes (Problem.reference?_withHost misses.reference?) ?_ named scopes
      rw [Diagnostic.withHost, Problem.expected?_withHost]
      exact misses.expected?
  | @tagName reference seeks =>
      cases seeks
      obtain ⟨_, _, same, misses⟩ := misses_of_problem?
        (rfl : (Held.tag (.placeholder reference)).sought? = some (.tag reference)) wrong
      cases same
      refine .tagName (Problem.reference?_withHost misses.reference?) ?_ rfl
      rw [Diagnostic.withHost, Problem.expected?_withHost]
      exact misses.expected?
  | pointer seeks points =>
      cases seeks
      refine .object (points.trans (congrArg (some ∘ Json.string) ?_))
      rw [Diagnostic.withHost, Problem.pointer_withHost]
      exact (pointer_of_problem? wrong).symm
  | schema seeks =>
      cases seeks
      cases wrong

end Linker

namespace Document

open Linker

/-- The schemas that pointers lead to are as distinct as those of the document. -/
theorem distinct_of_target? {graph : Graph} {document : Document} {settings : Settings}
    (orderly : graph.Orderly (Held.AsRead graph) document) {index : Index} {pointer : String}
    {target : Schema}
    (found : (Linker.ofDocument index document settings).lookup.target? pointer = some target) :
    target.Distinct := by
  obtain ⟨_, _, registered⟩ := Lookup.target?_eq_some linked_ofDocument found
  obtain ⟨⟨name, schema⟩, member, inside⟩ := Registry.mem_nodes_of_get?_ofSchemas registered
  cases (orderly.root.fits_of_holds (holds_of_mem_schemas member)).fits with
  | namedSchema distinct => exact distinct.of_mem_nodes inside

/-- Every report stands where its path leads from the document as it is written: through members and
elements, and from a reference that was found to what it names.  Where no such reference is met, the
path leads to the holder of the failed reference in the document itself. -/
theorem link_located {text : String} {location : Option String} {graph : Graph}
    {document : Document} (parsed : parse text location {} = .ok (document, graph))
    (settings : Settings) :
    let linker := Linker.ofDocument (.ofDocument graph document) document settings
    ∃ json, document.write graph = .ok json ∧
      ∀ diagnostic ∈ (document.link graph settings).1, ∃ holder,
        diagnostic.HeldBy holder ∧
        json.Leads (linker.Follows graph) diagnostic.segments holder ∧
        ((∀ front, front <+: diagnostic.segments → ∀ met, json.at? front = some met →
          ∀ other, ¬ linker.Follows graph met other) →
            json.at? diagnostic.segments = some holder) := by
  intro linker
  have orderly := orderly_of_parse parsed
  have distinct := (wellFormed_of_parse parsed).names
  obtain ⟨json, written, start⟩ := @finds_document linker graph document orderly
  obtain ⟨asked, later, asks, logged⟩ :=
    walk_log_of_distinct graph (.ofDocument graph document) settings distinct
  have found : ∀ query ∈ asked, linker.FindsQuery graph json query := by
    refine asks.asked_of (fun query member => ?_) fun query locator schema found opens =>
      found.opens (fun pointer target => distinct_of_target? orderly) opens
    obtain ⟨stop, met, member⟩ := List.mem_flatMap.mp member
    obtain ⟨_, _, _, _, finds⟩ := finds_of_tour orderly rfl start stop met
    exact finds.query member
  refine ⟨json, written, fun diagnostic reported => ?_⟩
  obtain ⟨query, met, problem, wrong, rfl⟩ := (mem_reports_iff logged).mp reported
  obtain ⟨holder, leads, heldBy⟩ := found query met
  rw [Diagnostic.segments_eq]
  exact ⟨holder, heldBy_diagnostic heldBy wrong, leads, leads.at?⟩

section

/-! A report whose path goes through a pointer. -/

/-- `A` points to `B`, and the items of `B` to nothing. -/
def detoured : Document where
  openapi := currentOpenapi
  components := some { schemas := [
    ("A", .node 0 (.pointer "#/components/schemas/B")),
    ("B", .node 2 { items := some (.node 1 (.pointer "#/components/schemas/M")) })] }

def detouredJson : Json :=
  .object [("openapi", .string currentOpenapi),
    ("info", .object [("title", .string ""), ("version", .string "")]),
    ("components", .object [("schemas", .object [
      ("A", .object [("$ref", .string "#/components/schemas/B")]),
      ("B", .object [("items", .object [("$ref", .string "#/components/schemas/M")])])])])]

theorem parse_detoured :
    parse detouredJson.compact none {} = .ok (detoured, { schemaCount := 3 }) := by
  have legible : detouredJson.Legible Json.nestingLimit := by
    simp [detouredJson, Json.nestingLimit]
  exact parse_compact legible none rfl

/-- The path of the only report goes on from `A` to the items of `B`. -/
theorem link_located_detoured :
    let linker := Linker.ofDocument (.ofDocument { schemaCount := 3 } detoured) detoured {}
    (detoured.link { schemaCount := 3 } {}).1.map Diagnostic.location =
        ["#/components/schemas/A/items"] ∧
      ∃ json, detoured.write { schemaCount := 3 } = .ok json ∧
        ∀ diagnostic ∈ (detoured.link { schemaCount := 3 } {}).1, ∃ holder,
          diagnostic.HeldBy holder ∧
          json.Leads (linker.Follows { schemaCount := 3 }) diagnostic.segments holder ∧
          ((∀ front, front <+: diagnostic.segments → ∀ met, json.at? front = some met →
            ∀ other, ¬ linker.Follows { schemaCount := 3 } met other) →
              json.at? diagnostic.segments = some holder) :=
  ⟨by decide +kernel, link_located parse_detoured {}⟩

/-- In the document itself it leads nowhere. -/
theorem link_detoured_astray :
    parse detouredJson.compact none {} = .ok (detoured, { schemaCount := 3 }) ∧
      detoured.write { schemaCount := 3 } = .ok detouredJson ∧
      ¬ ∀ diagnostic ∈ (detoured.link { schemaCount := 3 } {}).1, ∃ holder,
        diagnostic.HeldBy holder ∧ detouredJson.at? diagnostic.segments = some holder := by
  refine ⟨parse_detoured, rfl, fun reached => ?_⟩
  have isPath : (detoured.link { schemaCount := 3 } {}).1.map Diagnostic.path =
      [["components", "schemas", "A", "items"]] := by
    decide +kernel
  obtain ⟨diagnostic, reported, here⟩ := List.mem_map.mp (isPath ▸ List.mem_singleton_self _)
  obtain ⟨holder, _, found⟩ := reached diagnostic reported
  rw [Diagnostic.segments_eq, here] at found
  cases found

end

end Document

end ApiLinker
