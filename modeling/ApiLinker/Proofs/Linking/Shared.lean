import ApiLinker.Proofs.Linking.Site
import ApiLinker.Proofs.Linking.WellFormed
import ApiLinker.Proofs.Schema.Shared
import ApiLinker.Proofs.Table

/-!
Which nodes a walk shares.

All pointers to one locator that a walk replaces give way to one node.  Where the locator is that of
a named schema, it is the node that the document has under the name afterwards.  A schema in which
no pointer is replaced stays the node it was.
-/

namespace ApiLinker

open ApiLinker.Graph

/-- A schema that is expanded for its locator is found under it afterwards. -/
theorem Schema.find?_expandNamedWith (follow : List String → String → Expanding (Option Schema))
    (locator : String) (schema : Schema) (path : List String) (state : Expansion) :
    Table.find? locator (schema.expandNamedWith follow locator path state).2.expanded =
      some (schema.expandNamedWith follow locator path state).1 := by
  rw [expandNamedWith_eq]
  cases found : Table.find? locator state.expanded with
  | some known => exact found
  | none => exact Table.find?_insert_self _ _ _

theorem Graph.holdsSchema_of_held? {graph : Graph} {document : Document} {site : Site}
    {held : Held} {schema : Schema} (found : site.held? graph document = some held)
    (isSchema : held.schema? = some schema) : graph.HoldsSchema document schema := by
  rcases holds_of_held? found with ⟨_, holds⟩ | ⟨id, entity, _, isEntity, holds⟩
  · exact ⟨held, .root holds, isSchema⟩
  · exact ⟨held, .inside isEntity holds, isSchema⟩

/-- Where nothing can be reached afterwards, all is as it was. -/
theorem Linker.Toured.held?_of_not_includes {linker : Linker} {R : Schema → Schema → Prop}
    {graph laterGraph : Graph} {document later : Document}
    (toured : linker.Toured (linker.change laterGraph R) graph document laterGraph later)
    {site : Site} {held : Held} (found : site.held? graph document = some held)
    (apart : ¬ laterGraph.Includes later site.holder) :
    site.held? laterGraph later = some held := by
  rcases holds_of_held? found with ⟨isDocument, _⟩ | ⟨id, entity, isEntity, stands, _⟩
  · rw [isDocument] at apart
    exact absurd trivial apart
  · rw [isEntity] at apart
    have notEntered : id ∉ (graph.tour linker.index [] document).2 := fun entered =>
      apart (toured.reaches_of_entered entered)
    have kept := toured.kept id entity notEntered stands
    rw [← found, Site.held?, Site.held?, isEntity]
    simp only [Holder.heldAt, stands, kept]

/-- The schemas that a document holds itself are the named ones. -/
theorem Document.schema?_of_holds {document : Document} {held : Held}
    (holds : document.Holds held) : held.schema? = held.entry?.map Prod.snd := by
  cases holds with
  | path | webhook | tag => rfl
  | security _ inside =>
      cases inside with
      | scheme => rfl
  | component _ inside =>
      cases inside with
      | schema | response | parameter | «example» | requestBody | header | securityScheme | link
      | callback | pathItem => rfl

namespace Linker

section

variable (linker : Linker) (graph : Graph) (document : Document)

/-- The walk comes to the first schema, where one is held or where a pointer to it is replaced, and
puts the second in that place. -/
inductive Turns : Schema → Schema → Prop where
  | held {site : Site} {before after : Held} {schema result : Schema}
      (includes : (linker.walk graph document).2.1.Includes (linker.walk graph document).2.2
        site.holder)
      (first : site.held? graph document = some before)
      (second : site.held? (linker.walk graph document).2.1 (linker.walk graph document).2.2 =
        some after)
      (isBefore : before.schema? = some schema) (isAfter : after.schema? = some result) :
      Turns schema result
  | followed {schema result inner new target : Schema} {slots : List Slot} {pointer : String}
      (turns : Turns schema result) (aligned : schema.Aligned result slots inner new)
      (points : inner.body.reference = some pointer) (different : new.id ≠ inner.id)
      (registered : linker.lookup.registry.get?
        (Locator.ofPointer linker.lookup.authority pointer) = some target) :
      Turns target new

/-- The walk examines a node with the pointer and puts another node in its place. -/
def Exchanges (pointer : String) (new : Schema) : Prop :=
  ∃ schema result slots inner, linker.Turns graph document schema result ∧
    schema.Aligned result slots inner new ∧ inner.body.reference = some pointer ∧
    new.id ≠ inner.id

/-- A stop at a named schema is answered with the node that is kept for the locator of the name. -/
def AnswersKept (kept : Keeping) (stop : Stop) (result : Option Schema) : Prop :=
  ∀ entry, stop.held.entry? = some entry → ∃ new, result = some new ∧
    kept (Locator.ofPointer linker.lookup.authority (Registry.componentPointer entry.1)) = some new

/-- What a walk keeps: the nodes that there are after it, with those that are kept for locators.
The document holds its named schemas as they are kept. -/
structure KeepsNodes (world : NodeTable × Keeping) : Prop where
  keeps : ∃ state, linker.lookup.Keeps [] world state
  held : ∀ schema, graph.HoldsSchema document schema → schema.IsIn world.1
  toured : linker.Toured (linker.change (linker.walk graph document).2.1
      (linker.lookup.MadeOf world)) graph document (linker.walk graph document).2.1
    (linker.walk graph document).2.2
  named : List.Forall₂ (fun before after => before.1 = after.1 ∧ world.2
      (Locator.ofPointer linker.lookup.authority (Registry.componentPointer before.1)) =
        some after.2)
    document.namedObjects.schemas (linker.walk graph document).2.2.namedObjects.schemas

end

variable {linker : Linker} {graph : Graph} {document : Document}
variable {settings : Settings} {index : Index}

theorem schemas_relink (edges : EdgeMap) (schemas : List Schema) :
    (document.relink edges schemas).namedObjects.schemas =
      supplyTable document.namedObjects.schemas schemas := by
  cases components : document.components <;>
    simp [Document.relink, Document.namedObjects, components, Components.relink, supplyTable]

/-- The answer to a stop at a named schema is stored for the locator of the name. -/
theorem find?_visit {stop : Stop} {entry : String × Schema}
    (held : stop.held.entry? = some entry) (progress : Progress) :
    ∃ new, (linker.visit stop progress).1 = some new ∧
      Table.find? (Locator.ofPointer linker.lookup.authority
        (Registry.componentPointer entry.1)) (linker.visit stop progress).2.expanded =
          some new := by
  cases isNamed : stop.held with
  | edge | tag | schema => rw [isNamed] at held; cases held
  | namedSchema name schema =>
      rw [isNamed] at held
      cases held
      rw [visit]
      simp only [isNamed]
      exact ⟨_, rfl, schema.find?_expandNamedWith _ _ _ _⟩

/-- All schemas of a well-formed document can be expanded under the rules for nodes that are
kept. -/
theorem expandable_keeping {nodes : NodeTable}
    (distinct : document.namedObjects.schemas.names.Nodup)
    (isIn : ∀ schema, graph.HoldsSchema document schema → schema.IsIn nodes) :
    (ofDocument index document settings).Expandable
      ((ofDocument index document settings).lookup.keepingRules [])
      (ofDocument index document settings).lookup.MadeOf (nodes, fun _ => none)
      (graph.tour index [] document).1 where
  blind _ _ _ _ keeps := { keeps with }
  stable := Lookup.stable_madeOf []
  slot stop met schema held later state grows keeps := by
    have inGraph := isIn schema (holdsSchema_of_stop met (by rw [held]; rfl))
    exact Lookup.Keeps.expand linked_ofDocument keeps (inGraph.mono grows.1) stop.path
  named stop met name schema held later state grows keeps :=
    Lookup.Keeps.expandNamed linked_ofDocument keeps
      (Registry.get?_ofSchemas distinct (mem_schemas_of_stop met held)) stop.path

theorem keeps_first {nodes : NodeTable} (bounded : nodes.Bounded graph.schemaCount)
    (isIn : ∀ schema, graph.HoldsSchema document schema → schema.IsIn nodes) :
    (ofDocument index document settings).lookup.Keeps [] (nodes, fun _ => none)
      ((ofDocument index document settings).firstExpansion graph) where
  bounded := bounded
  registered := (sound_first bounded isIn).registered
  known _ := rfl
  origin _ _ isKept := by cases isKept
  unkept := nofun

/-- Every stop is answered under these rules, and the answers to those at named schemas are kept. -/
theorem yields_answersKept {nodes : NodeTable} (unmade : linker.synthesized = [])
    (expandable : linker.Expandable (linker.lookup.keepingRules []) linker.lookup.MadeOf
      (nodes, fun _ => none) (graph.tour linker.index [] document).1)
    (keeps : linker.lookup.Keeps [] (nodes, fun _ => none) (linker.firstExpansion graph)) :
    (linker.visiting graph (linker.lookup.keepingRules [])).Yields
      ((graph.tour linker.index [] document).1.mapM linker.visit)
      (fun world => List.Forall₂
        (fun stop result => linker.Answers linker.lookup.MadeOf world stop result ∧
          linker.AnswersKept world.2.2 stop result)
        (graph.tour linker.index [] document).1)
      (fun _ => none, nodes, fun _ => none) (linker.firstProgress graph) := by
  refine Rules.yields_mapM ?stable ?each ?begun
  case stable =>
    intro stop world later result grows answers
    refine ⟨stable_answers (Lookup.stable_madeOf []) stop grows answers.1, fun entry held => ?_⟩
    obtain ⟨new, same, isKept⟩ := answers.2 entry held
    exact ⟨new, same, grows.2.2 _ _ isKept⟩
  case each =>
    intro stop met world progress grows described
    obtain ⟨later, growsOn, describes, answers⟩ := yields_visit expandable met grows.2 described
    refine ⟨later, growsOn, describes, answers, fun entry held => ?_⟩
    obtain ⟨new, same, stored⟩ := find?_visit held progress
    exact ⟨new, same, (describes.2.known _).symm.trans stored⟩
  case begun => exact ⟨linker.describes_firstProgress graph unmade, keeps⟩

/-- A document holds no schemas but named ones, so its stops answer for these. -/
theorem forall₂_schemasFor_document {kept : Keeping} {results : List (Option Schema)}
    (answered : List.Forall₂ (fun stop result =>
        Option.Rel (fun _ _ => True) stop.held.schema? result ∧ linker.AnswersKept kept stop result)
      (graph.tour linker.index [] document).1 results) :
    List.Forall₂ (fun entry new => kept (Locator.ofPointer linker.lookup.authority
        (Registry.componentPointer entry.1)) = some new)
      document.namedObjects.schemas
      (schemasFor .document ((graph.tour linker.index [] document).1.zip results)) := by
  have supplied := forall₂_schemasFor_of .document Held.entry?
    (S := fun entry new => kept (Locator.ofPointer linker.lookup.authority
      (Registry.componentPointer entry.1)) = some new)
    (ListRel.imp_of_mem answered fun stop met result answer owned => ?_)
  · rwa [stopsOf_document, Holder.map_held_stops, Document.entries_places] at supplied
  · have holds : document.Holds stop.held := by
      have member : stop ∈ stopsOf .document (graph.tour linker.index [] document).1 :=
        List.mem_filter.mpr ⟨met, decide_eq_true owned⟩
      rw [stopsOf_document] at member
      exact Document.holds_iff.mpr (Holder.held_of_mem_stops member)
    have schema := answer.1
    rw [Document.schema?_of_holds holds] at schema
    cases held : stop.held.entry? with
    | none =>
        rw [held] at schema
        cases schema
        exact .none
    | some entry =>
        obtain ⟨new, rfl, isKept⟩ := answer.2 entry held
        exact .some isKept

theorem keepsNodes_of_wellFormed (index : Index) (settings : Settings)
    (wellFormed : graph.WellFormed document) :
    ∃ world, (ofDocument index document settings).KeepsNodes graph document world := by
  obtain ⟨nodes, bounded, isIn⟩ := wellFormed.nodes
  let linker := ofDocument index document settings
  obtain ⟨world, grows, describes, answered⟩ := @yields_answersKept linker graph document nodes rfl
    (expandable_keeping wellFormed.names isIn) (keeps_first bounded isIn)
  rw [← visits_eq rfl] at describes answered
  refine ⟨world.2, ⟨_, describes.2⟩, fun schema holds => (isIn schema holds).mono grows.2.1,
    toured_walk rfl describes.1 (answered.imp fun _ _ => And.left), ?_⟩
  rw [walk_document, schemas_relink]
  exact forall₂_supplyTable (forall₂_schemasFor_document (answered.imp fun _ _ answer =>
    ⟨OptionRel.imp_of_mem answer.1.schema fun _ _ _ _ => trivial, answer.2⟩))

namespace KeepsNodes

variable {world : NodeTable × Keeping} {schema result inner new : Schema} {slots : List Slot}
variable {pointer : String}
variable (keeps : linker.KeepsNodes graph document world)
include keeps

/-- Whatever the walk comes to is made of known nodes, and so is what it makes of it. -/
theorem madeOf (turns : linker.Turns graph document schema result) :
    schema.IsIn world.1 ∧ linker.lookup.MadeOf world schema result := by
  obtain ⟨state, isKept⟩ := keeps.keeps
  induction turns with
  | held includes first second isBefore isAfter =>
      have member := keeps.toured.holder_of_includes includes first
      obtain ⟨after, found, allowed⟩ := keeps.toured.held_after keepsNames_change member first
      cases second.symm.trans found
      obtain ⟨other, isOther, made⟩ := allowed.schema_after isBefore
      cases isAfter.symm.trans isOther
      exact ⟨keeps.held _ (holdsSchema_of_held? first isBefore), made⟩
  | followed turns aligned points different registered ih =>
      have found := ih.2.becomes.kept_of_different aligned points different
      obtain ⟨original, isOriginal, isIn, becomes⟩ := isKept.origin _ _ found
      cases registered.symm.trans isOriginal
      exact ⟨isKept.registered _ _ registered, isIn, becomes⟩

theorem kept_of_exchanges (exchanges : linker.Exchanges graph document pointer new) :
    world.2 (Locator.ofPointer linker.lookup.authority pointer) = some new := by
  obtain ⟨schema, result, slots, inner, turns, aligned, points, different⟩ := exchanges
  exact (keeps.madeOf turns).2.becomes.kept_of_different aligned points different

theorem eq_of_id_eq (turns : linker.Turns graph document schema result)
    (aligned : schema.Aligned result slots inner new) (same : new.id = inner.id) : new = inner := by
  obtain ⟨before, after⟩ := keeps.madeOf turns
  obtain ⟨isInner, isNew⟩ := aligned.mem_nodes
  exact (after.isIn.of_mem_nodes isNew).eq_of_id_eq (before.of_mem_nodes isInner) same

/-- A pointer is replaced unless it is one that stays. -/
theorem different_iff (linked : linker.lookup.Linked)
    (turns : linker.Turns graph document schema result)
    (aligned : schema.Aligned result slots inner new)
    (points : inner.body.reference = some pointer) :
    new.id ≠ inner.id ↔ ¬ linker.lookup.Stays pointer := by
  obtain ⟨state, isKept⟩ := keeps.keeps
  have replaces := (keeps.madeOf turns).2.becomes.replaced _ _ _ _ aligned points
  rw [← Lookup.target?_eq_none_iff linked, not_iff_not]
  rw [Lookup.Replaces] at replaces
  constructor
  · intro same
    have unmoved := keeps.eq_of_id_eq turns aligned same
    split at replaces
    · assumption
    · -- A node that is kept has no pointer at its root but one that stays.
      obtain ⟨original, _, _, becomes⟩ := isKept.origin _ _ replaces
      exact isKept.stays_of_becomes linked becomes (unmoved ▸ points)
  · intro stays
    rw [stays] at replaces
    rw [replaces]

end KeepsNodes

section

variable (linker graph document)

/-- What is shared after a walk, and what is not exchanged in it. -/
structure SharesNodes : Prop where
  /-- Something stands for every node that is examined. -/
  examined : ∀ schema result slots inner, linker.Turns graph document schema result →
    schema.Examines slots inner → ∃ new, schema.Aligned result slots inner new
  exchanged : ∀ schema result slots inner new pointer, linker.Turns graph document schema result →
    schema.Aligned result slots inner new → inner.body.reference = some pointer →
    (new.id ≠ inner.id ↔ ¬ linker.lookup.Stays pointer)
  /-- Pointers to one locator, in any spelling, give way to one node. -/
  shared : ∀ pointer other first second, linker.Exchanges graph document pointer first →
    linker.Exchanges graph document other second →
    Locator.ofPointer linker.lookup.authority pointer =
      Locator.ofPointer linker.lookup.authority other → first = second
  /-- For a named schema that is the node which the document has under the name. -/
  named : ∀ pointer name new, linker.Exchanges graph document pointer new →
    Locator.ofPointer linker.lookup.authority pointer =
      Locator.ofPointer linker.lookup.authority (Registry.componentPointer name) →
    Table.find? name (linker.walk graph document).2.2.namedObjects.schemas = some new
  /-- A schema in which every pointer stays the node it was stays the node it was. -/
  unchanged : ∀ schema result slots inner new, linker.Turns graph document schema result →
    schema.Aligned result slots inner new →
    (∀ more pointed other pointer, inner.Aligned new more pointed other →
      pointed.body.reference = some pointer → other.id = pointed.id) → new = inner
  /-- Where the walk does not come to, all schemas are what they were. -/
  untouched : ∀ (site : Site) held, site.held? graph document = some held →
    ¬ (linker.walk graph document).2.1.Includes (linker.walk graph document).2.2 site.holder →
    site.held? (linker.walk graph document).2.1 (linker.walk graph document).2.2 = some held

end

/-- In a walk through a well-formed document all that is exchanged is shared by its locator. -/
theorem sharesNodes_of_wellFormed (index : Index) (settings : Settings)
    (wellFormed : graph.WellFormed document) :
    (ofDocument index document settings).SharesNodes graph document := by
  obtain ⟨world, keeps⟩ := keepsNodes_of_wellFormed index settings wellFormed
  have linked : (ofDocument index document settings).lookup.Linked := linked_ofDocument
  refine ⟨fun schema result slots inner turns => (keeps.madeOf turns).2.becomes.aligned slots inner,
    fun schema result slots inner new pointer turns => keeps.different_iff linked turns,
    fun pointer other first second isFirst isSecond same => ?_,
    fun pointer name new exchanges same => ?_,
    fun schema result slots inner new turns aligned unmoved => ?_,
    fun site held => keeps.toured.held?_of_not_includes⟩
  · have kept := keeps.kept_of_exchanges isFirst
    rw [same, keeps.kept_of_exchanges isSecond] at kept
    exact (Option.some.inj kept).symm
  · have kept := keeps.kept_of_exchanges exchanges
    rw [same] at kept
    obtain ⟨state, isKept⟩ := keeps.keeps
    obtain ⟨original, registered, _⟩ := isKept.origin _ _ kept
    obtain ⟨⟨_, held⟩, member, rfl, heldKept⟩ := ListRel.exists_of_mem_left keeps.named
      (Registry.mem_of_get?_componentPointer registered)
    cases kept.symm.trans heldKept
    refine Table.find?_of_mem ?_ member
    rw [keeps.toured.root.schemas.names_eq]
    exact wellFormed.names
  · obtain ⟨before, after⟩ := keeps.madeOf turns
    obtain ⟨isInner, isNew⟩ := aligned.mem_nodes
    refine after.becomes.unchanged slots inner new aligned
      fun more pointed other pointer inside points => ?_
    obtain ⟨isPointed, isOther⟩ := inside.mem_nodes
    exact ((after.isIn.of_mem_nodes isNew).of_mem_nodes isOther).eq_of_id_eq
      ((before.of_mem_nodes isInner).of_mem_nodes isPointed)
      (unmoved more pointed other pointer inside points)

/-- The pointer is exchanged for the node that it names. -/
theorem sharesNodes_aliased :
    let linker := ofDocument (.ofDocument { schemaCount := 2 } .aliased) .aliased {}
    Graph.WellFormed { schemaCount := 2 } .aliased ∧
      linker.SharesNodes { schemaCount := 2 } .aliased ∧
      ∃ new, linker.Exchanges { schemaCount := 2 } .aliased "#/components/schemas/B" new ∧
        new.id = 1 := by
  intro linker
  have evaluated : ((Site.held? (linker.walk { schemaCount := 2 } .aliased).2.1
      (linker.walk { schemaCount := 2 } .aliased).2.2
        { holder := .document, path := ["components", "schemas", "A"] }).bind
          Held.schema?).map Schema.id = some 1 := by
    decide +kernel
  obtain ⟨new, found, number⟩ := Option.map_eq_some_iff.mp evaluated
  obtain ⟨after, isAfter, isSchema⟩ := Option.bind_eq_some_iff.mp found
  have held : Site.held? { schemaCount := 2 } .aliased
      { holder := .document, path := ["components", "schemas", "A"] } =
        some (.namedSchema "A" (.node 0 (.pointer "#/components/schemas/B"))) := rfl
  have turns : linker.Turns { schemaCount := 2 } .aliased
      (.node 0 (.pointer "#/components/schemas/B")) new := by
    refine .held ?_ held isAfter rfl isSchema
    exact trivial
  refine ⟨Document.wellFormed_aliased, sharesNodes_of_wellFormed _ _ Document.wellFormed_aliased,
    new, ⟨_, new, [], _, turns, .here _ _, rfl, ?_⟩, number⟩
  rw [number]
  decide

end Linker

end ApiLinker
