import ApiLinker.Proofs.Format.Nested

/-!
What stands at the places of a written object.

At the path of each of its places, the written form of an entity or a document holds what the place
holds, written (`Graph.Orderly.stands_entity`, `Graph.Orderly.stands_document`).
-/

namespace ApiLinker

open Codec Json Place

/-- How something held is written.  Tags and security schemes are written by their names inside
operations and requirements, but in full (`whole`) among the tags and the components of a document. -/
inductive EdgeFormat.Writes (edges : EdgeFormat) (whole : Bool) : Held → Json → Prop where
  | edge {category : Category} {edge : Edge} {json : Json}
      (other : whole = false → category ≠ .securitySchemes)
      (written : (edges.edge category).write edge = .ok json) :
      Writes edges whole (.edge category edge) json
  | scopes {edge : Edge} {reference : Reference} (inside : whole = false) (scopes : List String)
      (refers : edge.reference? = some reference) :
      Writes edges whole (.edge .securitySchemes edge) (.array (scopes.map .string))
  | tagName {edge : Edge} {json : Json} (inside : whole = false)
      (written : edges.tagName.write edge = .ok json) : Writes edges whole (.tag edge) json
  | tag {edge : Edge} {json : Json} (outside : whole = true)
      (written : (edges.edge .tags).write edge = .ok json) : Writes edges whole (.tag edge) json
  | schema (schema : Schema) : Writes edges whole (.schema schema) schema.json
  | namedSchema (name : String) (schema : Schema) :
      Writes edges whole (.namedSchema name schema) schema.json

namespace EdgeFormat

variable {edges : EdgeFormat} {fits : Held → Prop}

/-- Marks that show how something held is written. -/
def showing (edges : EdgeFormat) (whole : Bool) : Held → List Mark
  | .namedSchema _ schema => [{ path := [], shows := fun json _ => json = schema.json }]
  | held => [{ path := [], shows := fun json _ => edges.Writes whole held json }]

/-- Marks nothing. -/
abbrev unmarked : Held → List Mark := fun _ => []

theorem eq_of_lays_unmarked {left right : Json} (lays : Lays [] left right) : left = right :=
  lays.same.eq fun _ _ _ ⟨_, never, _⟩ => by cases never

theorem Agrees.showing (agrees : edges.Agrees edges .none fits unmarked) :
    edges.Agrees edges .none fits (edges.showing false) where
  edge other held changes := by
    obtain ⟨json, _, written, _, _⟩ := agrees.edge other held changes
    cases changes
    exact ⟨json, json, written, written, lays_mark rfl (.edge (fun _ => other) written)⟩
  tagName held changes := by
    obtain ⟨json, _, written, _, _⟩ := agrees.tagName held changes
    cases changes
    exact ⟨json, json, written, written, lays_mark rfl (.tagName rfl written)⟩
  scheme scopes refers changes :=
    ⟨(agrees.scheme scopes refers changes).1, lays_mark rfl (.scopes rfl scopes refers)⟩
  schema changes := by
    cases changes
    exact lays_mark rfl (.schema _)

theorem AgreesAtRoot.showing (agrees : edges.AgreesAtRoot edges .none fits unmarked unmarked) :
    edges.AgreesAtRoot edges .none fits (edges.showing false) (edges.showing true) where
  toAgrees := agrees.toAgrees.showing
  component held changes := by
    obtain ⟨json, _, written, _, _⟩ := agrees.component held changes
    cases changes
    exact ⟨json, json, written, written, lays_mark rfl (.edge nofun written)⟩
  tag held changes := by
    obtain ⟨json, _, written, _, _⟩ := agrees.tag held changes
    cases changes
    exact ⟨json, json, written, written, lays_mark rfl (.tag rfl written)⟩
  namedSchema changes := by
    cases changes
    exact lays_mark rfl rfl
  unnamed _ _ := rfl

end EdgeFormat

open EdgeFormat

/-- What stands at the places of a value, each written by `edges`. -/
def Json.Stands (json : Json) (edges : EdgeFormat) (whole : Bool) (places : List Place) : Prop :=
  ∀ place ∈ places, ∃ value, json.at? place.path = some value ∧ edges.Writes whole place.held value

theorem Json.Lays.stands {edges : EdgeFormat} {whole : Bool} {places : List Place}
    {marks : List Mark} {left right : Json} (lays : Lays marks left right)
    (among : ∀ mark ∈ spread (edges.showing whole) places, mark ∈ marks) :
    left.Stands edges whole places := by
  intro place member
  obtain ⟨mark, isMark, here, shows⟩ : ∃ mark ∈ edges.showing whole place.held, mark.path = [] ∧
      ∀ value other, mark.shows value other → edges.Writes whole place.held value := by
    cases held : place.held with
    | namedSchema name schema =>
        refine ⟨_, List.mem_singleton_self _, rfl, fun value _ isJson => ?_⟩
        obtain rfl : value = schema.json := isJson
        exact .namedSchema name schema
    | _ => exact ⟨_, List.mem_singleton_self _, rfl, fun _ _ => id⟩
  obtain ⟨value, other, found, _, shown⟩ := lays.found (mark.under place.path)
    (among _ (List.mem_flatMap.mpr ⟨place, member, List.mem_map_of_mem isMark⟩))
  refine ⟨value, ?_, shows value other shown⟩
  simpa [Mark.under, here] using found

namespace Graph

variable {graph : Graph}

theorem marks_unmarked (depth : Nat) : graph.marks unmarked unmarked depth = unmarked := by
  induction depth with
  | zero => rfl
  | succ depth ih =>
      funext held
      rw [marks, inside, ih]
      cases held.inline?.bind graph.entity? <;> simp [spread]

theorem namesAlike_none : graph.NamesAlike graph unmarked Eq := by
  rintro bound before _ fits rfl
  suffices named : ∃ name, before.writeTagName graph = .ok (.string name) by
    obtain ⟨name, written⟩ := named
    exact ⟨name, written, written, lays_same _⟩
  cases fits with
  | openTag pointer => exact ⟨_, rfl⟩
  | linkedTag pointer target => exact ⟨_, rfl⟩
  | @heldTag id tag found => exact ⟨tag.name, by simp only [Edge.writeTagName, found]⟩

theorem passes_none : graph.PassesAtRoot graph (fun _ => .none) Eq unmarked unmarked where
  reference same refers := by cases same; exact refers
  inline same found := by
    cases same
    exact ⟨_, _, rfl, found, Entity.changes_refl Change.reflexive_none _⟩
  tagName _ := namesAlike_none
  shown _ _ := lays_same _
  silent := rfl
  scheme _ _ := lays_same _
  schema same := by cases same; exact lays_same _
  rootTagName := namesAlike_none
  rootTag {left right _ before _} fits same := by
    cases same
    cases fits with
    | openTag pointer => exact ⟨_, _, rfl, rfl, lays_same _⟩
    | linkedTag pointer target => exact ⟨_, _, rfl, rfl, lays_same _⟩
    | @heldTag id tag found =>
        obtain ⟨json, written⟩ := Format.total_tag tag
        exact ⟨json, json, by rw [Edge.write_of_inline found]; exact written,
          by rw [Edge.write_of_inline found]; exact written, lays_same json⟩
  rootShown _ := lays_same _
  rootSilent := rfl
  namedSchema same := by cases same; exact lays_same _
  unnamed _ _ := rfl

namespace Orderly

variable {document : Document} (orderly : graph.Orderly (Held.Fits graph) document)
include orderly

/-- An entity has a written form at every level that is deep enough for it. -/
theorem stands_entity {id : EntityId} {entity : Entity} (found : graph.entity? id = some entity)
    {depth : Nat} (enough : id ≤ depth) :
    ∃ json, Format.writeEntity (.nested graph graph (depth + 1)) entity = .ok json ∧
      json.Stands (.nested graph graph (depth + 1)) false entity.writtenPlaces := by
  have agrees := passes_none.toPasses.agrees_nested orderly.entity enough enough
  rw [marks_unmarked] at agrees
  obtain ⟨json, other, written, _, lays⟩ := Format.alike_entity agrees.showing
    (orderly.entity id entity found) (entity.changes_refl Change.reflexive_none)
  exact ⟨json, written, lays.stands fun _ member => member⟩

theorem stands_document :
    ∃ json, document.write graph = .ok json ∧
      json.Stands (.writing graph) true (within "tags" (ofTags document.tags) ++
        document.components.toList.flatMap fun components =>
          within "components" components.writtenPlaces) ∧
      json.Stands (.writing graph) false (within "paths" (ofTable .pathItems document.paths) ++
        within "webhooks" (ofTable .pathItems document.webhooks) ++
        within "security" (securityPlaces document.security)) := by
  have agrees := passes_none.agreesAtRoot orderly.entity (Nat.le_refl graph.size)
    (Nat.le_refl graph.size)
  rw [marks_unmarked] at agrees
  obtain ⟨json, other, written, _, lays⟩ := Format.alike_document agrees.showing orderly.root
    (document.changes_refl Change.reflexive_none)
  exact ⟨json, written, lays.stands fun _ member => List.mem_append_left _ member,
    lays.stands fun _ member => List.mem_append_right _ member⟩

end Orderly

end Graph

end ApiLinker
