import ApiLinker.Proofs.Format.Restored
import ApiLinker.Proofs.Linking.Located
import ApiLinker.Proofs.Linking.Rewritten

/-!
Linked documents, written and read again.

A walk leaves a document that was read orderly, so it has a written form, which is read as the
document without its links (`Document.parse_write`).
-/

namespace ApiLinker

namespace Schema

variable {id number : Nat} {body : SchemaBody Schema} {f : Schema → Schema}

theorem names_map_properties : Table.names (body.map f).properties = Table.names body.properties := by
  simp [SchemaBody.map, Table.names, Function.comp_def]

/-- A node is as distinct as one with sub-schemas in place of its own that are. -/
theorem distinct_map_iff :
    (Schema.node number (body.map f)).Distinct ↔
      (Table.names body.properties).Nodup ∧ (body.keywords.names.Nodup ∧
        ∀ entry ∈ body.keywords, entry.1 ∉ SchemaBody.structural ∧ entry.2.Distinct) ∧
      ∀ child ∈ body.children.list, (f child).Distinct := by
  have list : (body.map f).children.list = body.children.list.map f := by
    rw [SchemaBody.children_map, Subschemas.list_map]
  constructor
  · intro distinct
    cases distinct with
    | node properties keywords children =>
        rw [names_map_properties] at properties
        rw [list] at children
        exact ⟨properties, keywords, fun child member => children _ (List.mem_map_of_mem member)⟩
  · rintro ⟨properties, keywords, children⟩
    refine .node (by rwa [names_map_properties]) keywords ?_
    rw [list]
    exact List.forall_mem_map.mpr children

theorem distinct_of_contents {schema : Schema} (distinct : schema.contents.Distinct) :
    schema.Distinct := by
  induction schema using induct with
  | node id body ih =>
      rw [contents_node, distinct_map_iff] at distinct
      obtain ⟨properties, keywords, children⟩ := distinct
      exact .node properties keywords fun child member => ih child member (children child member)

theorem Distinct.contents {schema : Schema} (distinct : schema.Distinct) :
    schema.contents.Distinct := by
  induction distinct with
  | node properties keywords _ ih =>
      rw [contents_node, distinct_map_iff]
      exact ⟨properties, keywords, ih⟩

end Schema

/-- Expansion puts distinct schemas together. -/
theorem Lookup.distinct_expansion {lookup : Lookup} (linked : lookup.Linked)
    (targets : ∀ pointer target, lookup.target? pointer = some target → target.Distinct)
    {schema : Schema} (distinct : schema.Distinct) : (lookup.expansion schema).Distinct := by
  induction schema using induct_expansion linked with
  | stays id body pointer points stays =>
      rw [expansion_stays points stays]
      exact distinct.contents
  | followed id body pointer target points found ih =>
      rw [expansion_followed linked points found]
      exact ih (targets pointer target found)
  | inside id body plain ih =>
      rw [expansion_plain plain, Schema.distinct_map_iff]
      cases distinct with
      | node properties keywords children =>
          exact ⟨properties, keywords, fun child member => ih child member (children child member)⟩

namespace Held

variable {index : Index} {linker : Linker} {graph : Graph} {bound : Nat} {before after : Edge}

theorem Fits.links {category : Category} (fits : Held.Fits graph bound (.edge category before))
    (links : index.Links category before after) : Held.Fits graph bound (.edge category after) := by
  cases links with
  | linked | inline | external | missing => exact fits
  | found =>
      cases fits with
      | placeholder _ pointer => exact .linked _ pointer _

/-- A made-up tag fits as well as one that was found. -/
theorem Fits.linksTag (fits : Held.Fits graph bound (.tag before))
    (links : linker.LinksTag graph before after) : Held.Fits graph bound (.tag after) := by
  cases links with
  | madeUp _ bare => exact .heldTag bare
  | lookedUp _ links =>
      cases links with
      | linked | inline | external | missing => exact fits
      | found =>
          cases fits with
          | openTag pointer => exact .linkedTag pointer _

end Held

namespace Linker

variable {linker : Linker} {graph laterGraph : Graph} {document later : Document}
variable {R : Schema → Schema → Prop}

section

variable (toured : linker.Toured (linker.change laterGraph R) graph document laterGraph later)
include toured

/-- What fits still fits, as entities are filed where they were. -/
theorem Toured.fits {bound above : Nat} (le : bound ≤ above) {held : Held}
    (fits : held.Fits graph bound) : held.Fits laterGraph above := by
  cases fits with
  | placeholder category pointer => exact .placeholder category pointer
  | linked category pointer target => exact .linked category pointer target
  | inline below found filed =>
      obtain ⟨entity, isThere, changes⟩ := toured.entity found
      exact .inline (Nat.lt_of_lt_of_le below le) isThere (changes.category.trans filed)
  | openTag pointer => exact .openTag pointer
  | linkedTag pointer target => exact .linkedTag pointer target
  | heldTag found => exact .heldTag (toured.tag found)
  | schema distinct => exact .schema distinct
  | namedSchema distinct => exact .namedSchema distinct

variable (distinct : ∀ before after, R before after → before.Distinct → after.Distinct)
include distinct

theorem Toured.keeps (bound above : Nat) (le : bound ≤ above) :
    (linker.change laterGraph R).orSame.Keeps (Held.Fits graph bound)
      (Held.Fits laterGraph above) where
  names _ _ changes := (orSame_links changes).1
  fits {before after} allowed fitsBefore := by
    have fits := toured.fits le fitsBefore
    cases allowed with
    | edge changes =>
        rcases changes with rfl | links
        · exact fits
        · exact fits.links links
    | tag changes =>
        rcases changes with rfl | links
        · exact fits
        · exact fits.linksTag links
    | schema changes =>
        rcases changes with rfl | changes
        · exact fits
        · cases fits with
          | schema isDistinct => exact .schema (distinct _ _ changes isDistinct)
    | namedSchema changes =>
        rcases changes with rfl | changes
        · exact fits
        · cases fits with
          | namedSchema isDistinct => exact .namedSchema (distinct _ _ changes isDistinct)

omit distinct in
theorem Toured.size_le : graph.size ≤ laterGraph.size :=
  Graph.size_le_of_present fun _ _ found => (toured.entity found).imp fun _ both => both.1

theorem Toured.orderly_root (orderly : graph.Orderly (Held.Fits graph) document) {bound : Nat}
    (enough : graph.size ≤ bound) : later.Orderly (Held.Fits laterGraph bound) :=
  orderly.root.after (toured.keeps distinct graph.size bound enough)
    (toured.root.imp fun _ _ => Change.implies_orSame)

/-- A walk through an orderly document leaves it orderly. -/
theorem Toured.orderly (orderly : graph.Orderly (Held.Fits graph) document) :
    laterGraph.Orderly (Held.Fits laterGraph) later where
  root := toured.orderly_root distinct orderly toured.size_le
  entity id entity found := by
    cases old : graph.entity? id with
    | none =>
        obtain ⟨_, tag, rfl⟩ := toured.added id entity old found
        trivial
    | some before =>
        obtain ⟨after, isAfter, changes⟩ := toured.entity old
        cases found.symm.trans isAfter
        exact (orderly.entity id before old).after (toured.keeps distinct id id (Nat.le_refl id))
          changes

end

end Linker

namespace Document

variable {text : String} {location : Option String} {graph : Graph} {document : Document}

theorem distinct_of_expands (parsed : parse text location {} = .ok (document, graph))
    {index : Index} {settings : Settings} {nodes : NodeTable} (before after : Schema)
    (expands : (Linker.ofDocument index document settings).lookup.Expands nodes before after)
    (isDistinct : before.Distinct) : after.Distinct := by
  refine Schema.distinct_of_contents ?_
  rw [expands.2]
  exact Lookup.distinct_expansion Linker.linked_ofDocument
    (fun _ _ => distinct_of_target? (orderly_of_parse parsed)) isDistinct

theorem orderly_link (parsed : parse text location {} = .ok (document, graph)) (settings : Settings) :
    (document.link graph settings).2.1.Orderly (Held.Fits (document.link graph settings).2.1)
      (document.link graph settings).2.2 := by
  obtain ⟨_, _, _, _, _, toured⟩ := Linker.toured_of_wellFormed (.ofDocument graph document) settings
    (wellFormed_of_parse parsed)
  exact toured.orderly (distinct_of_expands parsed)
    ((orderly_of_parse parsed).imp fun _ _ asRead => asRead.fits)

theorem location_of_parse (parsed : parse text location {} = .ok (document, graph)) :
    document.location = location := by
  rw [parse] at parsed
  obtain ⟨_, _, same⟩ := Outcome.bind_eq_ok parsed
  cases same
  rfl

/-- A document that was read has a written form, and so has what a walk makes of it.  Where this is
nested no deeper than can be read and holds no numbers but integers, it is read again: as the document
itself, entity by entity, or after a walk as the document without its links.  What was read is
written as before. -/
theorem parse_write (parsed : parse text location {} = .ok (document, graph)) (settings : Settings) :
    let laterGraph := (document.link graph settings).2.1
    let later := (document.link graph settings).2.2
    (∃ json, document.write graph = .ok json ∧ (json.Legible Json.nestingLimit →
      ∃ again againGraph, parse json.compact location {} = .ok (again, againGraph) ∧
        document.Copied graph .restates againGraph again ∧ again.write againGraph = .ok json)) ∧
    ∃ json, later.write laterGraph = .ok json ∧ (json.Legible Json.nestingLimit →
      ∃ again againGraph, parse json.compact location {} = .ok (again, againGraph) ∧
        later.Copied laterGraph laterGraph.unlinks againGraph again ∧
        again.write againGraph = .ok json) := by
  intro laterGraph later
  have here := location_of_parse parsed
  have there : later.location = location := by
    obtain ⟨_, _, _, toured⟩ := Linker.toured_of_expandable
      (.new (.ofDocument graph document) (document.registry settings.schemaAuthority) settings)
      graph document rfl rfl (Linker.expandable_trivial _ _) trivial
    rw [show later = _ from toured.root.rest]
    exact here
  constructor
  · obtain ⟨json, written, reads⟩ :=
      ((orderly_of_parse parsed).imp fun _ _ asRead => asRead.fits).restored
    refine ⟨json, written, fun legible => ?_⟩
    obtain ⟨again, againGraph, read, copied, same⟩ := reads legible
    exact ⟨again, againGraph, here ▸ read, copied.restates parsed, same⟩
  · obtain ⟨json, written, reads⟩ := (orderly_link parsed settings).restored
    refine ⟨json, written, fun legible => ?_⟩
    obtain ⟨again, againGraph, read, copied, same⟩ := reads legible
    exact ⟨again, againGraph, there ▸ read, copied, same⟩

section

/-! Tables and a tag, linked. -/

/-- Two headers, one of them under a second name, a schema that points to another, and a tag that is
only named. -/
def headed : Document where
  openapi := currentOpenapi
  components := some {
    schemas := [("A", .node 0 (.pointer "#/components/schemas/B")), ("B", .node 1 (.typed "string"))]
    headers := [("old", .inline 0), ("new", .inline 1),
      ("now", .placeholder { pointer := "#/components/headers/new" })] }
  tags := [.placeholder { pointer := "#/tags/pets" }]

def headedGraph : Graph where
  entities := #[.header { description := some "Old." }, .header { description := some "New." }]
  schemaCount := 2

def tabledJson (tag : Json) (schemas headers : List (String × Json)) : Json :=
  .object [("openapi", .string currentOpenapi),
    ("info", .object [("title", .string ""), ("version", .string "")]),
    ("components", .object [("schemas", .object schemas), ("headers", .object headers)]),
    ("tags", .array [tag])]

def headedJson : Json :=
  tabledJson (.object [("$ref", .string "#/tags/pets")])
    [("A", .object [("$ref", .string "#/components/schemas/B")]),
      ("B", .object [("type", .string "string")])]
    [("old", .object [("description", .string "Old.")]),
      ("new", .object [("description", .string "New.")]),
      ("now", .object [("$ref", .string "#/components/headers/new")])]

/-- The written form of `headed` after a walk. -/
def headedLinkedJson : Json :=
  tabledJson (.object [("name", .string "pets")])
    [("A", .object [("type", .string "string")]), ("B", .object [("type", .string "string")])]
    [("old", .object [("description", .string "Old.")]),
      ("new", .object [("description", .string "New.")]),
      ("now", .object [("$ref", .string "#/components/headers/new")])]

theorem parse_headed : parse headedJson.compact none {} = .ok (headed, headedGraph) := by
  have legible : headedJson.Legible Json.nestingLimit := by
    simp [headedJson, tabledJson, Json.nestingLimit]
  exact parse_compact legible none rfl

/-- Before the walk `headed` is read again as it is, after it without the links of `now` and of the
tag. -/
theorem parse_write_headed :
    let laterGraph := (headed.link headedGraph {}).2.1
    let later := (headed.link headedGraph {}).2.2
    (∃ again againGraph, parse headedJson.compact none {} = .ok (again, againGraph) ∧
      headed.Copied headedGraph .restates againGraph again ∧
      again.write againGraph = .ok headedJson) ∧
    later.namedObjects.headers = [("old", .inline 0), ("new", .inline 1),
      ("now", .linked { pointer := "#/components/headers/new" } 1)] ∧
    later.tags = [.inline 2] ∧
    ∃ again againGraph, parse headedLinkedJson.compact none {} = .ok (again, againGraph) ∧
      later.Copied laterGraph laterGraph.unlinks againGraph again ∧
      again.write againGraph = .ok headedLinkedJson := by
  intro laterGraph later
  obtain ⟨⟨json, written, reads⟩, linkedJson, linkedWritten, readsLinked⟩ :=
    parse_write parse_headed {}
  have isWritten : headed.write headedGraph = .ok headedJson := rfl
  have isLinkedWritten : later.write laterGraph = .ok headedLinkedJson := by
    with_unfolding_all rfl
  obtain rfl : headedJson = json := Except.ok.inj (isWritten.symm.trans written)
  obtain rfl : headedLinkedJson = linkedJson :=
    Except.ok.inj (isLinkedWritten.symm.trans linkedWritten)
  refine ⟨reads ?_, by decide +kernel, by decide +kernel, readsLinked ?_⟩
  · simp [headedJson, tabledJson, Json.nestingLimit]
  · simp [headedLinkedJson, tabledJson, Json.nestingLimit]

end

end Document

end ApiLinker
