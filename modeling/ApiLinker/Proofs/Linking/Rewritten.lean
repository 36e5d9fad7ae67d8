import ApiLinker.Proofs.Format.Nested
import ApiLinker.Proofs.Linking.Complete

/-!
What a walk does to the written form of a document.

Edges are written as references whether they are linked or not, so a walk shows only in the schemas
and in the tags that it makes up for those of the document (`Document.link_write`).
-/

namespace ApiLinker

open Json Place

namespace Change

/-- Whatever changes by `change`, or stays. -/
def orSame (change : Change) : Change where
  edge category before after := before = after ∨ change.edge category before after
  tag before after := before = after ∨ change.tag before after
  schema before after := before = after ∨ change.schema before after

theorem reflexive_orSame (change : Change) : change.orSame.Reflexive where
  edge _ _ := .inl rfl
  tag _ := .inl rfl
  schema _ := .inl rfl

theorem implies_orSame {change : Change} {held : Held} : change.Implies change.orSame held := by
  intro after allowed
  cases allowed with
  | edge changes => exact .edge (.inr changes)
  | tag changes => exact .tag (.inr changes)
  | schema changes => exact .schema (.inr changes)
  | namedSchema changes => exact .namedSchema (.inr changes)

/-- The tags of the document itself do not just stay. -/
theorem Allows.tagged {change : Change} {before after : Held} (allowed : change.Allows before after) :
    Allows { change.orSame with tag := change.tag } before after := by
  cases allowed with
  | edge changes => exact .edge (.inr changes)
  | tag changes => exact .tag changes
  | schema changes => exact .schema (.inr changes)
  | namedSchema changes => exact .namedSchema (.inr changes)

end Change

namespace Linker

variable {linker : Linker} {graph laterGraph : Graph} {document later : Document}
variable {R : Schema → Schema → Prop}

theorem orSame_links {category : Category} {before after : Edge}
    (changes : (linker.change laterGraph R).orSame.edge category before after) :
    after.reference? = before.reference? ∧
      ∀ id, before = .inline id → after = .inline id := by
  rcases changes with rfl | links
  · exact ⟨rfl, fun _ => id⟩
  · cases links <;> exact ⟨rfl, by simp⟩

/-- Every entity is still there after a walk, and if it was entered its edges may be linked. -/
theorem Toured.entity (toured : linker.Toured (linker.change laterGraph R) graph document laterGraph later)
    {id : EntityId} {entity : Entity} (found : graph.entity? id = some entity) :
    ∃ after, laterGraph.entity? id = some after ∧
      entity.Changes (linker.change laterGraph R).orSame after := by
  obtain ⟨after, isAfter, changes | rfl⟩ := toured.entity_after found
  · exact ⟨after, isAfter, changes.imp fun _ _ => Change.implies_orSame⟩
  · exact ⟨after, isAfter, after.changes_refl (Change.reflexive_orSame _)⟩

end Linker

/-- An object with nothing but a name. -/
def Tag.nameJson (name : String) : Json :=
  .object [("name", .string name)]

namespace Linker

variable {linker : Linker} {graph laterGraph : Graph} {document later : Document}
variable {R : Schema → Schema → Prop}

/-- A schema stands where one is held. -/
def schemaMarks : Held → List Mark
  | .schema schema | .namedSchema _ schema =>
      [{ path := [], shows := fun left _ => left = schema.json }]
  | .edge _ _ | .tag _ => []

/-- In place of a reference to a tag stands the tag, if it is made up. -/
def tagMarks (linker : Linker) : Held → List Mark
  | .tag (.placeholder reference) => [{
      path := []
      shows := fun left right => left = reference.json ∧
        (linker.MakesUp reference → right = Tag.nameJson reference.identifier) ∧
        (¬ linker.MakesUp reference → right = left) }]
  | held => schemaMarks held

theorem orSame_tag {before after : Edge}
    (changes : (linker.change laterGraph R).orSame.tag before after) :
    (after.reference? = before.reference? ∧ ∀ id, before = .inline id → after = .inline id) ∨
      ∃ reference target, before = .placeholder reference ∧ after = .inline target ∧
        linker.MakesUp reference ∧
        laterGraph.entity? target = some (.tag { name := reference.identifier }) := by
  rcases changes with rfl | links
  · exact .inl ⟨rfl, fun _ => id⟩
  · cases links with
    | lookedUp known links => cases links <;> exact .inl ⟨rfl, by simp⟩
    | madeUp missing bare => exact .inr ⟨_, _, rfl, rfl, missing, bare⟩

theorem writeEntity_nameOnly {inner : EdgeFormat} (name : String) :
    Format.writeEntity inner (.tag { name }) = .ok (Tag.nameJson name) := rfl

theorem lays_schema {before after : Schema} :
    Lays (schemaMarks (.schema before)) before.json after.json :=
  lays_mark rfl rfl

namespace Toured

variable (toured : linker.Toured (linker.change laterGraph R) graph document laterGraph later)
include toured

theorem namesAlike : graph.NamesAlike laterGraph schemaMarks
    (linker.change laterGraph R).orSame.tag := by
  intro bound before after fits changes
  suffices same : ∃ name, before.writeTagName graph = .ok (.string name) ∧
      after.writeTagName laterGraph = .ok (.string name) by
    obtain ⟨name, isLeft, isRight⟩ := same
    exact ⟨name, isLeft, isRight, lays_same _⟩
  rcases orSame_tag changes with ⟨sameReference, sameTarget⟩ | ⟨reference, target, rfl, rfl, _, bare⟩
  · cases refers : before.reference? with
    | some reference =>
        exact ⟨reference.identifier, Edge.writeTagName_of_reference refers,
          Edge.writeTagName_of_reference (sameReference.trans refers)⟩
    | none =>
        obtain ⟨id, rfl⟩ := Edge.eq_inline_of_reference? refers
        obtain rfl := sameTarget id rfl
        cases fits with
        | @heldTag _ tag found =>
            exact ⟨tag.name, by simp only [Edge.writeTagName, found],
              by simp only [Edge.writeTagName, toured.tag found]⟩
  · exact ⟨reference.identifier, rfl, by simp only [Edge.writeTagName, bare]⟩

theorem rootTag {left right : EdgeFormat} {bound : Nat} {before after : Edge}
    (fits : Held.Fits graph bound (.tag before)) (links : linker.LinksTag laterGraph before after) :
    ∃ leftJson rightJson, before.write left graph = .ok leftJson ∧
      after.write right laterGraph = .ok rightJson ∧
      Lays (linker.tagMarks (.tag before)) leftJson rightJson := by
  cases links with
  | lookedUp known links =>
      cases fits with
      | openTag pointer =>
          have unmade : ¬ linker.MakesUp { pointer } := known _ rfl
          have lays : Lays (linker.tagMarks (.tag (.placeholder { pointer })))
              (Reference.json { pointer }) (Reference.json { pointer }) :=
            lays_mark rfl ⟨rfl, fun missing => absurd missing unmade, fun _ => rfl⟩
          cases links <;> exact ⟨_, _, rfl, rfl, lays⟩
      | linkedTag pointer target =>
          cases links
          exact ⟨_, _, rfl, rfl, lays_same _⟩
      | @heldTag id tag found =>
          cases links
          obtain ⟨json, written⟩ := Format.total_tag tag
          exact ⟨json, json, by rw [Edge.write_of_inline found]; exact written,
            by rw [Edge.write_of_inline (toured.tag found)]; exact written, lays_same json⟩
  | @madeUp reference target missing bare =>
      refine ⟨reference.json, Tag.nameJson reference.identifier, rfl, ?_,
        lays_mark rfl ⟨rfl, fun _ => rfl, fun unmade => absurd missing unmade⟩⟩
      rw [Edge.write_of_inline bare, writeEntity_nameOnly]

theorem passes : graph.PassesAtRoot laterGraph (fun _ => (linker.change laterGraph R).orSame)
    (linker.LinksTag laterGraph) schemaMarks linker.tagMarks where
  reference changes refers := (orSame_links changes).1.trans refers
  inline changes found := by
    obtain ⟨after, isAfter, changed⟩ := toured.entity found
    exact ⟨_, after, (orSame_links changes).2 _ rfl, isAfter, changed⟩
  tagName _ := toured.namesAlike
  shown _ _ := lays_same _
  silent := rfl
  scheme _ _ := lays_same _
  schema _ := lays_schema
  rootTagName fits links := toured.namesAlike fits (.inr links)
  rootTag fits links := toured.rootTag fits links
  rootShown _ := lays_same _
  rootSilent := rfl
  namedSchema _ := lays_mark rfl rfl
  unnamed _ _ := rfl

end Toured

end Linker

/-- A tag of the document that was only named, and is one of that name and nothing else now. -/
structure Document.TagMadeUp (document later : Document) (laterGraph : Graph) (number : Nat)
    (reference : Reference) : Prop where
  named : document.tags[number]? = some (.placeholder reference)
  isLocal : reference.isExternal = false
  made : ∃ target, later.tags[number]? = some (.inline target) ∧
    laterGraph.entity? target = some (.tag { name := reference.identifier })

/-- Where a document is written otherwise after a walk: a schema that it holds, or a tag that was made
up. -/
inductive Document.Rewritten (graph : Graph) (document : Document) (laterGraph : Graph)
    (later : Document) : Spots where
  | schema {place : Place} {schema : Schema} {right : Json}
      (member : place ∈ graph.places document) (held : place.held.schema? = some schema) :
      Rewritten graph document laterGraph later place.path schema.json right
  | tag {number : Nat} {reference : Reference}
      (madeUp : document.TagMadeUp later laterGraph number reference) :
      Rewritten graph document laterGraph later ["tags", toString number] reference.json
        (Tag.nameJson reference.identifier)

section

variable {linker : Linker} {graph laterGraph : Graph} {document later : Document}
variable {R : Schema → Schema → Prop}
variable (toured : linker.Toured (linker.change laterGraph R) graph document laterGraph later)

/-- The places of a document that stand for its tags. -/
theorem Place.mem_ofTags {edges : List Edge} {place : Place} :
    place ∈ ofTags edges ↔ ∃ (number : Nat) (edge : Edge), edges[number]? = some edge ∧
      place = { path := [toString number], held := .tag edge } := by
  simp only [ofTags, List.mem_map, Prod.exists, List.mem_zipIdx_iff_getElem?]
  constructor
  · rintro ⟨edge, number, found, rfl⟩
    exact ⟨number, edge, found, rfl⟩
  · rintro ⟨number, edge, found, rfl⟩
    exact ⟨edge, number, found, rfl⟩

theorem Components.not_tag {components : Components} {place : Place} {edge : Edge}
    (member : place ∈ components.writtenPlaces) : place.held ≠ .tag edge := by
  intro held
  have listed : Held.tag edge ∈ helds components.writtenPlaces :=
    List.mem_map.mpr ⟨place, member, held⟩
  simp only [Components.writtenPlaces, helds_append, helds_within, helds_ofTable] at listed
  simp [helds] at listed

include toured in
/-- After a walk the made-up tags are those that it had to make up. -/
theorem Document.tagMadeUp_iff {number : Nat} {reference : Reference}
    (named : document.tags[number]? = some (.placeholder reference)) :
    document.TagMadeUp later laterGraph number reference ↔ linker.MakesUp reference := by
  obtain ⟨after, isAfter, links⟩ := ListRel.exists_getElem? toured.root.tags named
  constructor
  · intro madeUp
    obtain ⟨target, isTarget, _⟩ := madeUp.made
    obtain rfl := Option.some.inj (isAfter.symm.trans isTarget)
    cases links with
    | lookedUp _ links => cases links
    | madeUp missing _ => exact missing
  · intro missing
    cases links with
    | lookedUp known => exact absurd missing (known reference rfl)
    | @madeUp _ target _ bare => exact ⟨named, missing.2.1, target, isAfter, bare⟩

end

section

variable {linker : Linker} {graph laterGraph : Graph} {document later : Document}
variable {R : Schema → Schema → Prop}

theorem Document.rewritten_of_schemaMark {place : Place} {mark : Mark} {left right : Json}
    (listed : place ∈ graph.places document) (isMark : mark ∈ Linker.schemaMarks place.held)
    (shows : mark.shows left right) :
    document.Rewritten graph laterGraph later (mark.under place.path).path left right := by
  cases held : place.held with
  | edge | tag => rw [held] at isMark; cases isMark
  | schema schema | namedSchema _ schema =>
      rw [held] at isMark
      cases List.mem_singleton.mp isMark
      obtain rfl : left = schema.json := shows
      rw [Mark.under, List.append_nil]
      exact .schema listed (by rw [held]; rfl)

theorem Linker.Toured.rewritten_of_tagMark
    (toured : linker.Toured (linker.change laterGraph R) graph document laterGraph later)
    {number : Nat} {edge : Edge} (found : document.tags[number]? = some edge) {mark : Mark}
    (isMark : mark ∈ linker.tagMarks (.tag edge)) {left right : Json} (differs : left ≠ right)
    (shows : mark.shows left right) :
    document.Rewritten graph laterGraph later (mark.under ["tags", toString number]).path left
      right := by
  cases edge with
  | linked | inline => cases isMark
  | placeholder reference =>
      cases List.mem_singleton.mp isMark
      obtain ⟨rfl, made, unmade⟩ := shows
      by_cases missing : linker.MakesUp reference
      · rw [made missing]
        exact .tag ((document.tagMadeUp_iff toured found).mpr missing)
      · exact absurd (unmade missing).symm differs

/-- Where values differ that stand at a mark, the document is written otherwise. -/
theorem Linker.Toured.rewritten
    (toured : linker.Toured (linker.change laterGraph R) graph document laterGraph later)
    {mark : Mark} {left right : Json}
    (member : mark ∈ document.marks (graph.marks Linker.schemaMarks Linker.schemaMarks graph.size)
      (graph.marks linker.tagMarks Linker.schemaMarks graph.size))
    (differs : left ≠ right) (shows : mark.shows left right) :
    document.Rewritten graph laterGraph later mark.path left right := by
  rcases Graph.mem_documentMarks member with
    ⟨place, isPlace, first, isFirst, rfl⟩ | ⟨place, listed, first, isFirst, rfl⟩
  · rcases List.mem_append.mp isPlace with isTag | isComponent
    · obtain ⟨_, isInner, rfl⟩ := List.mem_map.mp isTag
      obtain ⟨number, edge, found, rfl⟩ := mem_ofTags.mp isInner
      exact toured.rewritten_of_tagMark found isFirst differs shows
    · obtain ⟨components, isSome, within⟩ := List.mem_flatMap.mp isComponent
      have isSchemaMark : first ∈ Linker.schemaMarks place.held := by
        obtain ⟨inner, isInner, rfl⟩ := List.mem_map.mp within
        change first ∈ linker.tagMarks inner.held at isFirst
        change first ∈ schemaMarks inner.held
        cases held : inner.held with
        | tag edge => exact absurd held (Components.not_tag isInner)
        | edge | schema | namedSchema => rwa [held] at isFirst
      refine Document.rewritten_of_schemaMark (Graph.subset_listing _ ?_) isSchemaMark shows
      simp only [Document.writtenPlaces, List.mem_append]
      tauto
  · exact Document.rewritten_of_schemaMark listed isFirst shows

/-- The reference to a tag that is made up is marked. -/
theorem Linker.mem_marks_of_makesUp {number : Nat} {reference : Reference}
    (named : document.tags[number]? = some (.placeholder reference)) :
    ∃ mark ∈ document.marks (graph.marks schemaMarks schemaMarks graph.size)
      (graph.marks linker.tagMarks schemaMarks graph.size),
      mark.path = ["tags", toString number] ∧ ∀ left right, mark.shows left right →
        left = reference.json ∧
          (linker.MakesUp reference → right = Tag.nameJson reference.identifier) := by
  have isPlace : (⟨["tags", toString number], .tag (.placeholder reference)⟩ : Place) ∈
      within "tags" (ofTags document.tags) ++ document.components.toList.flatMap fun components =>
        within "components" components.writtenPlaces :=
    List.mem_append_left _ (List.mem_map.mpr ⟨_, mem_ofTags.mpr ⟨number, _, named, rfl⟩, rfl⟩)
  refine ⟨_, List.mem_append_left _ (List.mem_flatMap.mpr ⟨_, isPlace,
    List.mem_map_of_mem (Graph.mem_marks List.mem_cons_self)⟩), rfl, ?_⟩
  exact fun left right shows => ⟨shows.1, shows.2.1⟩

end

/-- A walk through a document that was read changes nothing in its written form but schemas and
made-up tags.  Every made-up tag is written with its name alone. -/
theorem Document.link_write {text : String} {location : Option String} {graph : Graph}
    {document : Document} (parsed : parse text location {} = .ok (document, graph))
    (settings : Settings) :
    let laterGraph := (document.link graph settings).2.1
    let later := (document.link graph settings).2.2
    ∃ before after, document.write graph = .ok before ∧ later.write laterGraph = .ok after ∧
      SameBut (document.Rewritten graph laterGraph later) before after ∧
      SameText (document.Rewritten graph laterGraph later) before.compactChars
        after.compactChars ∧
      ∀ number reference, document.TagMadeUp later laterGraph number reference →
        before.at? ["tags", toString number] = some reference.json ∧
        after.at? ["tags", toString number] = some (Tag.nameJson reference.identifier) := by
  intro laterGraph later
  obtain ⟨_, _, _, toured⟩ := Linker.toured_of_expandable
    (.new (.ofDocument graph document) (document.registry settings.schemaAuthority) settings)
    graph document rfl rfl (Linker.expandable_trivial _ _) trivial
  obtain ⟨before, after, isBefore, isAfter, lays⟩ :=
    alike_write ((orderly_of_parse parsed).imp fun _ _ asRead => asRead.fits) toured.passes
      (Graph.size_le_of_present fun _ _ found => (toured.entity found).imp fun _ both => both.1)
      (toured.root.imp fun _ _ _ allowed => allowed.tagged)
  have same : SameBut (document.Rewritten graph laterGraph later) before after :=
    lays.same.differing.imp fun path left right ⟨differs, mark, member, here, shows⟩ =>
      here ▸ toured.rewritten member differs shows
  refine ⟨before, after, isBefore, isAfter, same, same.text, fun number reference madeUp => ?_⟩
  have missing := (document.tagMadeUp_iff toured madeUp.named).mp madeUp
  obtain ⟨mark, member, here, shows⟩ := Linker.mem_marks_of_makesUp madeUp.named
  obtain ⟨value, other, isValue, isOther, shown⟩ := lays.found mark member
  obtain ⟨rfl, made⟩ := shows value other shown
  rw [here] at isValue isOther
  exact ⟨isValue, by rw [isOther, made missing]⟩

/-- A tag that is only named, and a schema that points to another. -/
def Document.tagged : Document where
  openapi := currentOpenapi
  components := some { schemas := [("A", .node 0 (.pointer "#/components/schemas/B")),
    ("B", .node 1 (.typed "string"))] }
  tags := [.placeholder { pointer := "#/tags/pets" }]

def Document.taggedJson : Json :=
  .object [("openapi", .string currentOpenapi),
    ("info", .object [("title", .string ""), ("version", .string "")]),
    ("components", .object [("schemas", .object [
      ("A", .object [("$ref", .string "#/components/schemas/B")]),
      ("B", .object [("type", .string "string")])])]),
    ("tags", .array [.object [("$ref", .string "#/tags/pets")]])]

theorem Document.parse_tagged :
    parse taggedJson.compact none {} = .ok (tagged, { schemaCount := 2 }) := by
  have legible : taggedJson.Legible Json.nestingLimit := by simp [taggedJson, Json.nestingLimit]
  exact parse_compact legible none rfl

theorem Document.link_write_tagged :
    let laterGraph := (tagged.link { schemaCount := 2 } {}).2.1
    let later := (tagged.link { schemaCount := 2 } {}).2.2
    ∃ before after, tagged.write { schemaCount := 2 } = .ok before ∧
      later.write laterGraph = .ok after ∧
      SameBut (tagged.Rewritten { schemaCount := 2 } laterGraph later) before after ∧
      SameText (tagged.Rewritten { schemaCount := 2 } laterGraph later) before.compactChars
        after.compactChars ∧
      ∀ number reference, tagged.TagMadeUp later laterGraph number reference →
        before.at? ["tags", toString number] = some reference.json ∧
        after.at? ["tags", toString number] = some (Tag.nameJson reference.identifier) :=
  link_write parse_tagged {}

end ApiLinker
