import ApiLinker.Proofs.Json.Printing
import ApiLinker.Proofs.Schema.Reading
import ApiLinker.Proofs.Schema.Reordered

/-!
Equality of schemas.

A schema equals every schema of the same contents, whatever the numbers of the nodes
(`Schema.same_of_contents`).  What equals a schema has its keywords, node by node, so that a keyword
that stands in a place of its own does so in both (`Schema.apart_of_same`).
-/

namespace ApiLinker

open Json

section

/-! Equality, part by part. -/

variable {σ τ υ : Type} {same : σ → τ → Bool}

namespace Table

theorem same_of_reorders {left : Table σ} {right : Table τ} (distinct : right.names.Nodup)
    (reorders : Reorders (fun value other => same value other = true) left right) :
    Table.same same left right = true := by
  have length : left.length = right.length := by
    simpa [names] using reorders.names_perm.length_eq
  simp only [Table.same, length, beq_self_eq_true, Bool.true_and, List.all_eq_true]
  rintro ⟨name, value⟩ member
  obtain ⟨other, found, holds⟩ := reorders.exists_of_mem_left member
  simpa only [find?_of_mem distinct found] using holds

theorem exists_of_same {left : Table σ} {right : Table τ} (equal : Table.same same left right = true)
    {name : String} {value : σ} (member : (name, value) ∈ left) :
    ∃ other, (name, other) ∈ right ∧ same value other = true := by
  simp only [Table.same, Bool.and_eq_true, List.all_eq_true] at equal
  have found := equal.2 (name, value) member
  cases sought : find? name right with
  | none => simp [sought] at found
  | some other =>
      simp only [sought] at found
      exact ⟨other, mem_of_find? sought, found⟩

theorem same_map (f : υ → σ) (left : Table υ) (right : Table τ) :
    Table.same same (left.map fun (name, child) => (name, f child)) right =
      Table.same (fun child => same (f child)) left right := by
  simp [Table.same, Function.comp_def]

end Table

namespace Schema

theorem sameOption_iff {left : Option σ} {right : Option τ} :
    sameOption same left right = true ↔
      Option.Rel (fun value other => same value other = true) left right := by
  constructor
  · intro equal
    cases left <;> cases right <;> first | cases equal; done | skip
    · exact .none
    · exact .some equal
  · intro related
    cases related with
    | none => rfl
    | some holds => exact holds

theorem sameList_iff {left : List σ} {right : List τ} :
    sameList same left right = true ↔
      List.Forall₂ (fun value other => same value other = true) left right := by
  induction left generalizing right with
  | nil => cases right <;> simp [sameList]
  | cons first rest ih => cases right <;> simp [sameList, ih]

theorem sameAdditional_iff {left : Additional σ} {right : Additional τ} :
    sameAdditional same left right = true ↔
      left.Rel (fun value other => same value other = true) right := by
  constructor
  · intro equal
    cases left <;> cases right <;> first | cases equal; done | skip
    · exact .unspecified
    · exact beq_iff_eq.mp equal ▸ .allowed _
    · exact .schema equal
  · intro related
    cases related with
    | unspecified => rfl
    | allowed value => exact beq_self_eq_true value
    | schema holds => exact holds

theorem sameBody_of_reorders {left : SchemaBody σ} {right : SchemaBody τ}
    (reorders : left.Reorders (fun value other => same value other = true) right)
    (properties : (Table.names right.properties).Nodup)
    (keywords : Table.same Json.same left.keywords right.keywords = true) :
    sameBody same left right = true := by
  simp only [sameBody, Bool.and_eq_true, sameOption_iff, sameList_iff, sameAdditional_iff]
  exact ⟨⟨⟨⟨⟨⟨⟨⟨beq_iff_eq.mpr reorders.reference, reorders.items⟩, reorders.allOf⟩,
    reorders.anyOf⟩, reorders.oneOf⟩, reorders.not⟩,
    Table.same_of_reorders properties reorders.properties⟩, reorders.additional⟩, keywords⟩

/-- Equal bodies have equal sub-schemas. -/
theorem exists_of_sameBody {left : SchemaBody σ} {right : SchemaBody τ}
    (equal : sameBody same left right = true) {child : σ} (member : child ∈ left.children.list) :
    ∃ other ∈ right.children.list, same child other = true := by
  simp only [sameBody, Bool.and_eq_true, sameOption_iff, sameList_iff, sameAdditional_iff] at equal
  obtain ⟨⟨⟨⟨⟨⟨⟨⟨_, items⟩, allOf⟩, anyOf⟩, oneOf⟩, not⟩, properties⟩, additional⟩, _⟩ := equal
  have additional := additional.schema?
  simp only [Subschemas.list_eq, SchemaBody.children, List.mem_append, List.mem_map,
    Option.mem_toList] at member ⊢
  rcases member with (((((member | member) | member) | member) | member) | member) | member
  · obtain ⟨other, found, holds⟩ := OptionRel.exists_of_mem_left items member
    exact ⟨other, by simp [Option.mem_def.mp found], holds⟩
  · obtain ⟨other, found, holds⟩ := OptionRel.exists_of_mem_left not member
    exact ⟨other, by simp [Option.mem_def.mp found], holds⟩
  · obtain ⟨other, found, holds⟩ := OptionRel.exists_of_mem_left additional member
    exact ⟨other, by simp [Option.mem_def.mp found], holds⟩
  · obtain ⟨other, found, holds⟩ := ListRel.exists_of_mem_left allOf member
    exact ⟨other, by simp [found], holds⟩
  · obtain ⟨other, found, holds⟩ := ListRel.exists_of_mem_left anyOf member
    exact ⟨other, by simp [found], holds⟩
  · obtain ⟨other, found, holds⟩ := ListRel.exists_of_mem_left oneOf member
    exact ⟨other, by simp [found], holds⟩
  · obtain ⟨⟨name, _⟩, member, rfl⟩ := member
    obtain ⟨other, found, holds⟩ := Table.exists_of_same properties member
    exact ⟨other, .inr ⟨(name, other), found, rfl⟩, holds⟩

end Schema

end

namespace Json

mutual

/-- Values with floats are left out: not every float equals itself. -/
theorem same_self : (json : Json) → {depth : Nat} → Legible depth json → Distinct json →
    same json json = true
  | .null, _, _, _ => rfl
  | .bool value, _, _, _ => beq_self_eq_true value
  | .number (.integer value), _, _, _ => beq_self_eq_true value
  | .string value, _, _, _ => beq_self_eq_true value
  | .array elements, _, .array legible, .array distinct =>
      sameElements_self elements legible distinct
  | .object members, _, .object legible, .object names distinct => by
      rw [same, beq_self_eq_true, Bool.true_and]
      exact sameMembers_of_find? members members
        (fun _ member => Table.find?_of_mem names member) legible distinct

theorem sameElements_self : (elements : List Json) → {depth : Nat} →
    (∀ element ∈ elements, Legible depth element) → (∀ element ∈ elements, Distinct element) →
    sameElements elements elements = true
  | [], _, _, _ => rfl
  | first :: rest, _, legible, distinct => by
      obtain ⟨isFirst, legible⟩ := List.forall_mem_cons.mp legible
      obtain ⟨firstDistinct, distinct⟩ := List.forall_mem_cons.mp distinct
      rw [sameElements, same_self first isFirst firstDistinct,
        sameElements_self rest legible distinct, Bool.and_self]

theorem sameMembers_of_find? : (members whole : List (String × Json)) →
    (∀ member ∈ members, Table.find? member.1 whole = some member.2) → {depth : Nat} →
    (∀ member ∈ members, Legible depth member.2) → (∀ member ∈ members, Distinct member.2) →
    sameMembers members whole = true
  | [], _, _, _, _, _ => rfl
  | (_, first) :: rest, whole, found, _, legible, distinct => by
      obtain ⟨isFound, found⟩ := List.forall_mem_cons.mp found
      obtain ⟨isFirst, legible⟩ := List.forall_mem_cons.mp legible
      obtain ⟨firstDistinct, distinct⟩ := List.forall_mem_cons.mp distinct
      simp only [sameMembers, isFound, same_self first isFirst firstDistinct,
        sameMembers_of_find? rest whole found legible distinct, Bool.and_self]

end

section

/-! What stands inside of a legible value. -/

variable {depth : Nat} {json value : Json}

theorem mem_of_element? {segment : String} {index : Nat} {elements : List Json}
    (found : element? segment index elements = some value) : value ∈ elements := by
  induction elements generalizing index with
  | nil => cases found
  | cons first rest ih =>
      rw [element?] at found
      split at found
      · cases found
        exact List.mem_cons_self
      · exact List.mem_cons_of_mem _ (ih found)

theorem Legible.child? (legible : Legible depth json) {segment : String}
    (found : json.child? segment = some value) : Legible depth value := by
  cases legible with
  | null | bool | integer | string => cases found
  | array each => exact (each value (mem_of_element? found)).mono (Nat.le_succ _)
  | object each => exact (each _ (Table.mem_of_find? found)).mono (Nat.le_succ _)

theorem Legible.at? (legible : Legible depth json) {path : List String}
    (found : json.at? path = some value) : Legible depth value := by
  induction path generalizing json with
  | nil =>
      cases found
      exact legible
  | cons segment path ih =>
      obtain ⟨child, isChild, found⟩ := Option.bind_eq_some_iff.mp found
      exact ih (legible.child? isChild) found

end

end Json

namespace Schema

variable {depth : Nat} {id : Nat} {body : SchemaBody Schema}

theorem legible_child (properties : (Table.names body.properties).Nodup)
    (legible : Legible depth (json (.node id body))) :
    ∀ child ∈ body.children.list, Legible depth child.json := by
  intro child member
  obtain ⟨⟨slot, _⟩, visited, rfl⟩ := List.mem_map.mp member
  exact legible.at? (at?_slot properties visited)

theorem legible_keyword (legible : Legible depth (json (.node id body))) :
    ∀ entry ∈ body.keywords, Legible depth entry.2 := by
  intro entry member
  rw [json_node] at legible
  cases legible with
  | object each =>
      exact (each entry (List.mem_append_right _ member)).mono (Nat.le_succ _)

theorem sameBody_map (f : σ → τ) (left : SchemaBody σ) (right : SchemaBody υ)
    (same : τ → υ → Bool) :
    sameBody same (left.map f) right = sameBody (fun child => same (f child)) left right := by
  have options (left : Option σ) (right : Option υ) :
      sameOption same (left.map f) right = sameOption (fun child => same (f child)) left right := by
    cases left <;> cases right <;> rfl
  have lists (left : List σ) (right : List υ) :
      sameList same (left.map f) right = sameList (fun child => same (f child)) left right := by
    induction left generalizing right with
    | nil => cases right <;> rfl
    | cons _ _ ih => cases right <;> simp [sameList, ih]
  have additional : sameAdditional same (left.additional.map f) right.additional =
      sameAdditional (fun child => same (f child)) left.additional right.additional := by
    cases left.additional <;> cases right.additional <;> rfl
  simp only [sameBody, SchemaBody.map, options, lists, additional, Table.same_map]

theorem same_node (id : Nat) (body : SchemaBody Schema) (other : Schema) :
    same (.node id body) other = sameBody same body other.body := by
  rw [same, recurse_node, sameBody_map]

/-- Numbers make no difference. -/
theorem same_of_contents {before after : Schema} (distinct : before.Distinct)
    (legible : Legible depth before.json) (equal : after.contents = before.contents) :
    before.same after = true := by
  induction distinct generalizing after with
  | @node id body properties keywords children ih =>
      obtain ⟨otherId, other⟩ := after
      rw [contents_node, contents_node] at equal
      have bodies : other.map contents = body.map contents := congrArg Schema.body equal
      have sameKeywords : other.keywords = body.keywords := by
        simpa [SchemaBody.map] using congrArg SchemaBody.keywords bodies
      have sameNames : Table.names other.properties = Table.names body.properties := by
        simpa [SchemaBody.map, Table.names, Function.comp_def] using
          congrArg (fun body => Table.names body.properties) bodies
      have reorders : body.Reorders (fun child result => child.contents = result.contents) other :=
        SchemaBody.reorders_map_iff.mp (bodies ▸ SchemaBody.reorders_eq (body.map contents))
      rw [same_node]
      refine sameBody_of_reorders (reorders.imp_of_mem fun child member result holds =>
        ih child member (legible_child properties legible child member) holds.symm)
        (sameNames ▸ properties) ?_
      refine Table.same_of_reorders (sameKeywords ▸ keywords.1) ?_
      rw [Schema.body, sameKeywords]
      refine (Table.Rel.reorders (Table.Rel.refl (fun _ => rfl) _)).imp_of_mem
        fun entry member _ equal => ?_
      exact equal ▸ Json.same_self entry.2 (legible_keyword legible entry member)
        (keywords.2 entry member).2

end Schema

end ApiLinker
