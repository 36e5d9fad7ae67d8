import ApiLinker.Proofs.Format.Layout
import ApiLinker.Proofs.Format.Reading

/-!
Documents before and after a change, written.

An inline edge is written as its entity, and this with edges that are written one level further in.
By induction on the level, two graphs are written alike if a change relates what their entities hold
(`Graph.Passes`), and a document and what becomes of it are too (`Document.alike_write`).
-/

namespace ApiLinker

open Codec Json

def Reference.json (reference : Reference) : Json :=
  .object [("$ref", .string reference.pointer)]

namespace Graph

/-- The marks in the entity that is held inline, if one is. -/
def inside (graph : Graph) (inner : Held → List Mark) (held : Held) : List Mark :=
  match held.inline?.bind graph.entity? with
  | some entity => spread inner entity.writtenPlaces
  | none => []

/-- The marks of something held, and of all that is held in it.  Inside entities they are given by
`mark`. -/
def marks (graph : Graph) (own mark : Held → List Mark) : (depth : Nat) → Held → List Mark
  | 0, held => own held
  | depth + 1, held => own held ++ graph.inside (graph.marks mark mark depth) held

variable {graph later : Graph} {own mark : Held → List Mark} {depth : Nat} {held : Held}

theorem mem_marks {first : Mark} (member : first ∈ own held) :
    first ∈ graph.marks own mark depth held := by
  cases depth with
  | zero => exact member
  | succ depth => exact List.mem_append_left _ member

theorem spread_map_under (mark : Held → List Mark) (path : List String) (places : List Place) :
    spread mark (places.map (Place.under path)) = (spread mark places).map (Mark.under path) := by
  simp [spread, List.flatMap_map, List.map_flatMap, Place.under, Function.comp_def,
    Mark.under_under]

/-- Places and all that is listed with them, marked. -/
theorem spread_marks (graph : Graph) (mark : Held → List Mark) (depth : Nat) (places : List Place) :
    spread (graph.marks mark mark depth) places = spread mark (graph.listing depth places) := by
  induction depth generalizing places with
  | zero => rfl
  | succ depth ih =>
      rw [listing, spread_flatMap, spread]
      refine List.flatMap_congr fun place _ => ?_
      rw [marks, inside, List.map_append, spread, List.flatMap_cons]
      congr 1
      cases place.held.inline?.bind graph.entity? with
      | none => rfl
      | some entity => exact (ih entity.writtenPlaces ▸ spread_map_under mark place.path _).symm

theorem listing_subset {places others : List Place} (among : places ⊆ others) :
    graph.listing depth places ⊆ graph.listing depth others := by
  cases depth with
  | zero => exact among
  | succ depth =>
      intro place member
      obtain ⟨holder, isHolder, member⟩ := List.mem_flatMap.mp member
      exact List.mem_flatMap.mpr ⟨holder, among isHolder, member⟩

theorem subset_listing (places : List Place) : places ⊆ graph.listing depth places := by
  cases depth with
  | zero => exact List.Subset.refl places
  | succ depth =>
      exact fun place member => List.mem_flatMap.mpr ⟨place, member, List.mem_cons_self⟩

/-- A mark at places is there for one of them, or for one that is held in one of them. -/
theorem mem_spread_marks {places : List Place} {origin : Mark}
    (member : origin ∈ spread (graph.marks own mark depth) places) :
    (∃ place ∈ places, ∃ first ∈ own place.held, origin = first.under place.path) ∨
      ∃ place ∈ graph.listing depth places, ∃ first ∈ mark place.held,
        origin = first.under place.path := by
  obtain ⟨place, isPlace, first, isFirst, rfl⟩ : ∃ place ∈ places, ∃ first ∈
      graph.marks own mark depth place.held, first.under place.path = origin := by
    simpa [spread] using member
  cases depth with
  | zero => exact .inl ⟨place, isPlace, first, isFirst, rfl⟩
  | succ depth =>
      rcases List.mem_append.mp isFirst with isOwn | isInside
      · exact .inl ⟨place, isPlace, first, isOwn, rfl⟩
      · -- The inside of a place is marked as places are that are all of one kind.
        have whole : first.under place.path ∈
            spread (graph.marks mark mark (depth + 1)) [place] := by
          simp only [spread, List.flatMap_singleton]
          exact List.mem_map_of_mem (List.mem_append_right _ isInside)
        rw [spread_marks] at whole
        obtain ⟨inner, isInner, second, isSecond, same⟩ : ∃ inner ∈
            graph.listing (depth + 1) [place], ∃ second ∈ mark inner.held,
            second.under inner.path = first.under place.path := by
          simpa [spread] using whole
        refine .inr ⟨inner, ?_, second, isSecond, same.symm⟩
        simp only [listing, List.flatMap_singleton] at isInner
        exact List.mem_flatMap.mpr ⟨place, isPlace, isInner⟩

theorem marks_of_not_inline (outside : held.inline? = none) :
    graph.marks own mark depth held = own held := by
  cases depth with
  | zero => rfl
  | succ depth => rw [marks, inside, outside, Option.bind_none, List.append_nil]

theorem marks_schema (schema : Schema) :
    graph.marks own mark depth (.schema schema) = own (.schema schema) :=
  marks_of_not_inline rfl

theorem marks_namedSchema (name : String) (schema : Schema) :
    graph.marks own mark depth (.namedSchema name schema) = own (.namedSchema name schema) :=
  marks_of_not_inline rfl

theorem marks_of_reference {category : Category} {edge : Edge} {reference : Reference}
    (refers : edge.reference? = some reference) :
    graph.marks own mark depth (.edge category edge) = own (.edge category edge) := by
  cases edge with
  | placeholder | linked => exact marks_of_not_inline rfl
  | inline => cases refers

/-- There is nothing to mark in a tag. -/
theorem marks_of_tag {bound : Nat} {edge : Edge} (fits : Held.Fits graph bound (.tag edge)) :
    graph.marks own mark depth (.tag edge) = own (.tag edge) := by
  cases fits with
  | openTag | linkedTag => exact marks_of_not_inline rfl
  | heldTag found =>
      cases depth with
      | zero => rfl
      | succ depth =>
          simp [marks, inside, Held.inline?, Held.edge?, found, Entity.writtenPlaces, Entity.places]

open Place in
/-- A mark in a document is there for something it holds itself, as a tag or a component, or for a
place that is listed. -/
theorem mem_documentMarks {document : Document} {outer : Held → List Mark} {origin : Mark}
    (member : origin ∈ document.marks (graph.marks mark mark graph.size)
      (graph.marks outer mark graph.size)) :
    (∃ place ∈ within "tags" (ofTags document.tags) ++
        document.components.toList.flatMap fun components =>
          within "components" components.writtenPlaces,
      ∃ first ∈ outer place.held, origin = first.under place.path) ∨
      ∃ place ∈ graph.places document, ∃ first ∈ mark place.held,
        origin = first.under place.path := by
  have listed {places : List Place} (among : places ⊆ document.writtenPlaces) :
      graph.listing graph.size places ⊆ graph.places document := listing_subset among
  rcases List.mem_append.mp member with isOuter | isInner
  · rcases mem_spread_marks isOuter with own | ⟨place, isPlace, rest⟩
    · exact .inl own
    · refine .inr ⟨place, listed (fun place member => ?_) isPlace, rest⟩
      simp only [Document.writtenPlaces, List.append_assoc] at member ⊢
      simp only [List.mem_append] at member ⊢
      tauto
  · rw [spread_marks] at isInner
    obtain ⟨place, isPlace, isMark⟩ := List.mem_flatMap.mp isInner
    obtain ⟨first, isFirst, rfl⟩ := List.mem_map.mp isMark
    refine .inr ⟨place, listed (fun place member => ?_) isPlace, first, isFirst, rfl⟩
    simp only [Document.writtenPlaces, List.mem_append] at member ⊢
    tauto

end Graph

/-- Tags keep the names under which operations are filed. -/
def Graph.NamesAlike (graph later : Graph) (mark : Held → List Mark)
    (change : Edge → Edge → Prop) : Prop :=
  ∀ {bound : Nat} {before after : Edge}, Held.Fits graph bound (.tag before) →
    change before after → ∃ name, Edge.writeTagName graph before = .ok (.string name) ∧
      Edge.writeTagName later after = .ok (.string name) ∧
      Lays (mark (.tag before)) (.string name) (.string name)

/-- What a family of changes, one for each level, does to what is held: references stay the same, and
an inline edge leads to what has become of its entity one level further in. -/
structure Graph.Passes (graph later : Graph) (change : Nat → Change) (mark : Held → List Mark) :
    Prop where
  reference : ∀ {depth : Nat} {category : Category} {before after : Edge} {reference : Reference},
    (change depth).edge category before after → before.reference? = some reference →
    after.reference? = some reference
  inline : ∀ {depth : Nat} {category : Category} {id : EntityId} {after : Edge} {entity : Entity},
    (change (depth + 1)).edge category (.inline id) after → graph.entity? id = some entity →
    ∃ target other, after = .inline target ∧ later.entity? target = some other ∧
      entity.Changes (change depth) other
  tagName : ∀ depth, graph.NamesAlike later mark (change depth).tag
  shown : ∀ {category : Category} {edge : Edge} {reference : Reference}, category ≠ .securitySchemes →
    edge.reference? = some reference →
    Lays (mark (.edge category edge)) reference.json reference.json
  silent : ∀ {category : Category} {id : EntityId}, mark (.edge category (.inline id)) = []
  scheme : ∀ {edge : Edge} {reference : Reference} (scopes : List String),
    edge.reference? = some reference → Lays (mark (.edge .securitySchemes edge))
      (.array (scopes.map .string)) (.array (scopes.map .string))
  schema : ∀ {depth : Nat} {before after : Schema}, (change depth).schema before after →
    Lays (mark (.schema before)) before.json after.json

/-- What happens to the things that a document holds itself: `tag` says it of its tags, which are
written as objects. -/
structure Graph.PassesAtRoot (graph later : Graph) (change : Nat → Change)
    (tag : Edge → Edge → Prop) (mark outer : Held → List Mark) : Prop
    extends graph.Passes later change mark where
  rootTagName : graph.NamesAlike later mark tag
  rootTag : ∀ {left right : EdgeFormat} {bound : Nat} {before after : Edge},
    Held.Fits graph bound (.tag before) → tag before after →
    ∃ leftJson rightJson, before.write left graph = .ok leftJson ∧
      after.write right later = .ok rightJson ∧ Lays (outer (.tag before)) leftJson rightJson
  rootShown : ∀ {category : Category} {edge : Edge} {reference : Reference},
    edge.reference? = some reference →
    Lays (outer (.edge category edge)) reference.json reference.json
  rootSilent : ∀ {category : Category} {id : EntityId}, outer (.edge category (.inline id)) = []
  namedSchema : ∀ {depth : Nat} {name : String} {before after : Schema},
    (change depth).schema before after → Lays (outer (.namedSchema name before)) before.json after.json
  unnamed : ∀ (name : String) (schema : Schema),
    outer (.namedSchema name schema) = outer (.namedSchema "" schema)

section

variable {graph later : Graph} {change : Nat → Change} {mark : Held → List Mark}

theorem Edge.write_of_reference {inner : EdgeFormat} {edge : Edge} {reference : Reference}
    (refers : edge.reference? = some reference) :
    edge.write inner graph = .ok reference.json := by
  cases edge with
  | placeholder | linked =>
      cases refers
      rfl
  | inline => cases refers

theorem Edge.writeTagName_of_reference {edge : Edge} {reference : Reference}
    (refers : edge.reference? = some reference) :
    edge.writeTagName graph = .ok (.string reference.identifier) := by
  cases edge with
  | placeholder | linked =>
      cases refers
      rfl
  | inline => cases refers

theorem Edge.write_of_inline {inner : EdgeFormat} {id : EntityId} {entity : Entity}
    (found : graph.entity? id = some entity) :
    (Edge.inline id).write inner graph = Format.writeEntity inner entity := by
  simp only [write, found]

theorem Edge.eq_inline_of_reference? {edge : Edge} (unnamed : edge.reference? = none) :
    ∃ id, edge = .inline id := by
  cases edge with
  | placeholder | linked => cases unnamed
  | inline id => exact ⟨id, rfl⟩

theorem Held.Fits.mono_bound {bound above : Nat} {held : Held} (le : bound ≤ above)
    (fits : held.Fits graph bound) : held.Fits graph above :=
  fits.mono (.refl graph) le

theorem Entity.Orderly.mono_bound {bound above : Nat} {entity : Entity} (le : bound ≤ above)
    (orderly : entity.Orderly (Held.Fits graph bound)) : entity.Orderly (Held.Fits graph above) :=
  orderly.after (Change.keeps_none fun _ => .mono_bound le)
    (entity.changes_refl Change.reflexive_none)

namespace Graph.Passes

variable (passes : graph.Passes later change mark)
  (orderly : ∀ id entity, graph.entity? id = some entity → entity.Orderly (Held.Fits graph id))
include passes orderly

/-- An edge is written as what has become of it, whatever is marked where it stands itself. -/
theorem alike_edge {own : Held → List Mark} {depth : Nat} {left right : EdgeFormat}
    {category : Category} {before after : Edge}
    (shown : ∀ reference, before.reference? = some reference →
      Lays (own (.edge category before)) reference.json reference.json)
    (silent : ∀ id, own (.edge category (.inline id)) = [])
    (agrees : ∀ inner, depth = inner + 1 → left.Agrees right (change inner)
      (Held.Fits graph inner) (graph.marks mark mark inner))
    (fits : Held.Fits graph depth (.edge category before))
    (changes : (change depth).edge category before after) :
    ∃ leftJson rightJson, before.write left graph = .ok leftJson ∧
      after.write right later = .ok rightJson ∧
      Lays (graph.marks own mark depth (.edge category before)) leftJson rightJson := by
  cases refers : before.reference? with
  | some reference =>
      refine ⟨reference.json, reference.json, Edge.write_of_reference refers,
        Edge.write_of_reference (passes.reference changes refers), ?_⟩
      rw [Graph.marks_of_reference refers]
      exact shown reference refers
  | none =>
      obtain ⟨id, rfl⟩ := Edge.eq_inline_of_reference? refers
      cases fits with
      | @inline _ _ entity below found filed =>
          cases depth with
          | zero => exact absurd below (Nat.not_lt_zero id)
          | succ depth =>
              obtain ⟨target, other, rfl, isOther, changes⟩ := passes.inline changes found
              have fits := (orderly id entity found).mono_bound (Nat.le_of_lt_succ below)
              obtain ⟨leftJson, rightJson, isLeft, isRight, lays⟩ :=
                Format.alike_entity (agrees depth rfl) fits changes
              refine ⟨leftJson, rightJson, ?_, ?_, ?_⟩
              · rw [Edge.write_of_inline found, isLeft]
              · rw [Edge.write_of_inline isOther, isRight]
              · rw [Graph.marks, silent, List.nil_append, Graph.inside]
                simpa [Held.inline?, Held.edge?, found] using lays

/-- What a level needs of the level below. -/
theorem agrees_of_inner {depth : Nat} {left right : Nat} {tag : Edge → Edge → Prop}
    (names : graph.NamesAlike later mark tag)
    (agrees : ∀ inner, depth = inner + 1 → (EdgeFormat.nested graph graph left).Agrees
      (.nested later later right) (change inner) (Held.Fits graph inner)
      (graph.marks mark mark inner)) :
    (EdgeFormat.nested graph graph (left + 1)).Agrees (.nested later later (right + 1))
      { change depth with tag } (Held.Fits graph depth) (graph.marks mark mark depth) where
  edge other fits changes :=
    alike_edge passes orderly (fun _ => passes.shown other) (fun _ => passes.silent) agrees fits
      changes
  tagName fits changes := by
    obtain ⟨name, isLeft, isRight, lays⟩ := names fits changes
    exact ⟨_, _, isLeft, isRight, (Graph.marks_of_tag fits).symm ▸ lays⟩
  scheme scopes refers changes :=
    ⟨passes.reference changes refers, (Graph.marks_of_reference refers).symm ▸ passes.scheme scopes refers⟩
  schema changes := by
    rw [Graph.marks_schema]
    exact passes.schema changes

/-- At no level more is written inline than there is room for. -/
theorem agrees_nested {depth left right : Nat} (leftEnough : depth ≤ left)
    (rightEnough : depth ≤ right) :
    (EdgeFormat.nested graph graph (left + 1)).Agrees (.nested later later (right + 1))
      (change depth) (Held.Fits graph depth) (graph.marks mark mark depth) := by
  induction depth generalizing left right with
  | zero => exact agrees_of_inner passes orderly (passes.tagName 0) nofun
  | succ depth ih =>
      cases left with
      | zero => cases leftEnough
      | succ left =>
          cases right with
          | zero => cases rightEnough
          | succ right =>
              refine agrees_of_inner passes orderly (passes.tagName (depth + 1)) ?_
              rintro _ ⟨⟩
              exact ih (Nat.le_of_succ_le_succ leftEnough) (Nat.le_of_succ_le_succ rightEnough)

end Graph.Passes

theorem Graph.PassesAtRoot.agreesAtRoot {tag : Edge → Edge → Prop} {outer : Held → List Mark}
    (passes : graph.PassesAtRoot later change tag mark outer)
    (orderly : ∀ id entity, graph.entity? id = some entity → entity.Orderly (Held.Fits graph id))
    {depth left right : Nat} (leftEnough : depth ≤ left) (rightEnough : depth ≤ right) :
    (EdgeFormat.nested graph graph (left + 1)).AgreesAtRoot (.nested later later (right + 1))
      { change depth with tag } (Held.Fits graph depth) (graph.marks mark mark depth)
      (graph.marks outer mark depth) := by
  have agrees : ∀ inner, depth = inner + 1 → (EdgeFormat.nested graph graph left).Agrees
      (.nested later later right) (change inner) (Held.Fits graph inner)
      (graph.marks mark mark inner) := by
    rintro inner rfl
    cases left with
    | zero => cases leftEnough
    | succ left =>
        cases right with
        | zero => cases rightEnough
        | succ right =>
            exact passes.agrees_nested orderly (Nat.le_of_succ_le_succ leftEnough)
              (Nat.le_of_succ_le_succ rightEnough)
  exact {
    toAgrees := passes.agrees_of_inner orderly passes.rootTagName agrees
    component := fun fits changes =>
      passes.alike_edge orderly (fun _ => passes.rootShown) (fun _ => passes.rootSilent) agrees fits
        changes
    tag := fun fits changes => by
      obtain ⟨leftJson, rightJson, isLeft, isRight, lays⟩ := passes.rootTag fits changes
      exact ⟨leftJson, rightJson, isLeft, isRight, (Graph.marks_of_tag fits).symm ▸ lays⟩
    namedSchema := fun changes => by
      rw [Graph.marks_namedSchema]
      exact passes.namedSchema changes
    unnamed := fun name schema => by
      rw [Graph.marks_namedSchema, Graph.marks_namedSchema, passes.unnamed] }

/-- An orderly document has a written form, and what becomes of it is written alike. -/
theorem Document.alike_write {document after : Document} {tag : Edge → Edge → Prop}
    {outer : Held → List Mark} (orderly : graph.Orderly (Held.Fits graph) document)
    (passes : graph.PassesAtRoot later change tag mark outer) (enough : graph.size ≤ later.size)
    (changes : document.Changes { change graph.size with tag } after) :
    ∃ leftJson rightJson, document.write graph = .ok leftJson ∧ after.write later = .ok rightJson ∧
      Lays (document.marks (graph.marks mark mark graph.size) (graph.marks outer mark graph.size))
        leftJson rightJson :=
  Format.alike_document
    (passes.agreesAtRoot orderly.entity (Nat.le_refl _) enough) orderly.root changes

end

end ApiLinker
