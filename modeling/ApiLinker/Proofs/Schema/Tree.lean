import ApiLinker.Proofs.Relation
import ApiLinker.Schema.Basic

/-!
Schemas as trees.

One induction principle and one equation for `Schema.recurse` stand for all the recursions over
schemas.  `Schema.contents` is a schema without the numbers of its nodes, so that schemas with equal
contents have the same structure.
-/

namespace ApiLinker

def Additional.map (f : σ → τ) : Additional σ → Additional τ
  | .unspecified => .unspecified
  | .allowed value => .allowed value
  | .schema value => .schema (f value)

namespace Subschemas

def map (f : σ → τ) (children : Subschemas σ) : Subschemas τ where
  items := children.items.map f
  allOf := children.allOf.map f
  anyOf := children.anyOf.map f
  oneOf := children.oneOf.map f
  not := children.not.map f
  properties := children.properties.map fun (name, child) => (name, f child)
  additional := children.additional.map f

def list (children : Subschemas σ) : List σ :=
  children.visits.map Prod.snd

theorem visits_map (f : σ → τ) (children : Subschemas σ) :
    (children.map f).visits = children.visits.map fun (slot, child) => (slot, f child) := by
  simp [visits, map, numbered, Option.toList_map, List.zipIdx_map, Function.comp_def]

@[simp] theorem list_map (f : σ → τ) (children : Subschemas σ) :
    (children.map f).list = children.list.map f := by
  simp [list, visits_map]

theorem list_eq (children : Subschemas σ) :
    children.list = children.items.toList ++ children.not.toList ++ children.additional.toList ++
      children.allOf ++ children.anyOf ++ children.oneOf ++ children.properties.map Prod.snd := by
  simp [list, visits, numbered, Function.comp_def]

/-- Sub-schemas in the same slots, in the relation `R` slot by slot. -/
structure Rel (R : σ → τ → Prop) (before : Subschemas σ) (after : Subschemas τ) : Prop where
  items : Option.Rel R before.items after.items
  allOf : List.Forall₂ R before.allOf after.allOf
  anyOf : List.Forall₂ R before.anyOf after.anyOf
  oneOf : List.Forall₂ R before.oneOf after.oneOf
  not : Option.Rel R before.not after.not
  properties : Table.Rel R before.properties after.properties
  additional : Option.Rel R before.additional after.additional

end Subschemas

namespace SchemaBody

def map (f : σ → τ) (body : SchemaBody σ) : SchemaBody τ where
  reference := body.reference
  items := body.items.map f
  allOf := body.allOf.map f
  anyOf := body.anyOf.map f
  oneOf := body.oneOf.map f
  not := body.not.map f
  properties := body.properties.map fun (name, child) => (name, f child)
  additional := body.additional.map f
  keywords := body.keywords

@[simp] theorem reference_map (f : σ → τ) (body : SchemaBody σ) :
    (body.map f).reference = body.reference := rfl

@[simp] theorem children_map (f : σ → τ) (body : SchemaBody σ) :
    (body.map f).children = body.children.map f := by
  cases body with
  | mk _ _ _ _ _ _ _ additional _ => cases additional <;> rfl

theorem map_map (f : σ → τ) (g : τ → υ) (body : SchemaBody σ) :
    (body.map f).map g = body.map (g ∘ f) := by
  cases body with
  | mk _ _ _ _ _ _ _ additional _ =>
      cases additional <;> simp [map, Additional.map, Function.comp_def]

theorem map_congr {f g : σ → τ} {body : SchemaBody σ}
    (same : ∀ child ∈ body.children.list, f child = g child) : body.map f = body.map g := by
  simp only [Subschemas.list_eq, children, List.mem_append, List.mem_map, Option.mem_toList] at same
  cases body with
  | mk _ items allOf anyOf oneOf not properties additional _ =>
      simp only [map, SchemaBody.mk.injEq, true_and, and_true]
      refine ⟨?_, ?_, ?_, ?_, ?_, ?_, ?_⟩
      · cases items <;> simp_all
      · exact List.map_congr_left fun child member => same child (by simp [member])
      · exact List.map_congr_left fun child member => same child (by simp [member])
      · exact List.map_congr_left fun child member => same child (by simp [member])
      · cases not <;> simp_all
      · refine List.map_congr_left fun entry member => ?_
        rw [same entry.2 (.inr ⟨entry, member, rfl⟩)]
      · cases additional <;> simp_all [Additional.map, Additional.schema?]

theorem children_rebuild {body : SchemaBody σ} {children : Subschemas σ}
    (fits : children.additional.isSome = body.children.additional.isSome) :
    (body.rebuild children).children = children := by
  cases body with
  | mk _ _ _ _ _ _ _ additional _ =>
      cases children with
      | mk _ _ _ _ _ _ replacement =>
          cases additional <;> cases replacement <;>
            simp_all [SchemaBody.rebuild, SchemaBody.children, Additional.schema?]

end SchemaBody

namespace Schema

theorem recurseOption_eq (step : Schema → SchemaBody α → α) (schema : Option Schema) :
    recurseOption step schema = schema.map (recurse step) := by
  cases schema <;> rfl

theorem recurseList_eq (step : Schema → SchemaBody α → α) (schemas : List Schema) :
    recurseList step schemas = schemas.map (recurse step) := by
  induction schemas with
  | nil => rfl
  | cons schema rest ih => simp [recurseList, ih]

theorem recurseTable_eq (step : Schema → SchemaBody α → α) (schemas : Table Schema) :
    recurseTable step schemas = schemas.map fun (name, schema) => (name, recurse step schema) := by
  induction schemas with
  | nil => rfl
  | cons entry rest ih => simp [recurseTable, ih]

theorem recurseAdditional_eq (step : Schema → SchemaBody α → α) (schema : Additional Schema) :
    recurseAdditional step schema = schema.map (recurse step) := by
  cases schema <;> rfl

theorem recurse_node (step : Schema → SchemaBody α → α) (id : Nat) (body : SchemaBody Schema) :
    recurse step (.node id body) = step (.node id body) (body.map (recurse step)) := by
  simp only [recurse, SchemaBody.map, recurseOption_eq, recurseList_eq, recurseTable_eq,
    recurseAdditional_eq]

/-- Induction over a schema, with the hypothesis for every sub-schema. -/
theorem induct {P : Schema → Prop}
    (node : ∀ id (body : SchemaBody Schema), (∀ child ∈ body.children.list, P child) →
      P (.node id body)) :
    ∀ schema, P schema :=
  @Schema.rec P (fun body => ∀ child ∈ body.children.list, P child)
    (fun option => ∀ child ∈ option, P child) (fun list => ∀ child ∈ list, P child)
    (fun table => ∀ entry ∈ table, P entry.2)
    (fun additional => ∀ child ∈ additional.schema?, P child)
    (fun entry => P entry.2)
    (fun id body inside => node id body inside)
    (fun reference items allOf anyOf oneOf not properties additional keywords
        inItems inAllOf inAnyOf inOneOf inNot inProperties inAdditional child member => by
      simp only [Subschemas.list_eq, SchemaBody.children, List.mem_append, List.mem_map,
        Option.mem_toList] at member
      rcases member with (((((member | member) | member) | member) | member) | member) | member
      · exact inItems child member
      · exact inNot child member
      · exact inAdditional child member
      · exact inAllOf child member
      · exact inAnyOf child member
      · exact inOneOf child member
      · obtain ⟨entry, member, rfl⟩ := member
        exact inProperties entry member)
    (by simp) (fun schema holds child member => by simp_all)
    (by simp) (fun schema rest holds inRest child member => by
      rcases List.mem_cons.mp member with rfl | later
      · exact holds
      · exact inRest child later)
    (by simp) (fun entry rest holds inRest other member => by
      rcases List.mem_cons.mp member with rfl | later
      · exact holds
      · exact inRest other later)
    (by simp [Additional.schema?]) (by simp [Additional.schema?])
    (fun schema holds child member => by simp_all [Additional.schema?])
    (fun name schema holds => holds)

@[simp] theorem node_id_body (schema : Schema) : Schema.node schema.id schema.body = schema := by
  cases schema; rfl

/-- A schema with all its nodes numbered alike. -/
def contents : Schema → Schema :=
  recurse fun _ body => .node 0 body

theorem contents_node (id : Nat) (body : SchemaBody Schema) :
    contents (.node id body) = .node 0 (body.map contents) := by
  rw [contents, recurse_node]

/-- The nodes of a schema, itself first. -/
def nodes : Schema → List Schema :=
  recurse fun schema body => schema :: body.children.list.flatten

theorem mem_nodes_node {inner : Schema} {id : Nat} {body : SchemaBody Schema} :
    inner ∈ nodes (.node id body) ↔
      inner = .node id body ∨ ∃ child ∈ body.children.list, inner ∈ child.nodes := by
  simp [nodes, recurse_node]

theorem self_mem_nodes (schema : Schema) : schema ∈ schema.nodes := by
  cases schema with
  | node id body => exact mem_nodes_node.mpr (.inl rfl)

theorem pointers_node (id : Nat) (body : SchemaBody Schema) :
    pointers (.node id body) = body.reference.toList ++ body.children.list.flatMap pointers := by
  rw [pointers, recurse_node]
  simp [Subschemas.visits_map, Subschemas.list, List.flatMap_map]

theorem mem_pointers_node {pointer : String} {id : Nat} {body : SchemaBody Schema} :
    pointer ∈ pointers (.node id body) ↔
      body.reference = some pointer ∨ ∃ child ∈ body.children.list, pointer ∈ child.pointers := by
  simp [pointers_node, Option.mem_toList]

theorem pointers_of_mem_nodes {schema inner : Schema} {pointer : String}
    (isNode : inner ∈ schema.nodes) (member : pointer ∈ inner.pointers) :
    pointer ∈ schema.pointers := by
  induction schema using induct with
  | node id body ih =>
      rcases mem_nodes_node.mp isNode with rfl | ⟨child, isChild, within⟩
      · exact member
      · exact mem_pointers_node.mpr (.inr ⟨child, isChild, ih child isChild within⟩)

/-- The pointers in a schema that do not lie beneath another pointer. -/
def exposed : Schema → List String :=
  recurse fun _ body =>
    match body.reference with
    | some pointer => [pointer]
    | none => body.children.list.flatten

theorem exposed_pointer {pointer : String} {id : Nat} {body : SchemaBody Schema}
    (points : body.reference = some pointer) : exposed (.node id body) = [pointer] := by
  simp [exposed, recurse_node, points]

theorem exposed_plain {id : Nat} {body : SchemaBody Schema} (plain : body.reference = none) :
    exposed (.node id body) = body.children.list.flatMap exposed := by
  simp [exposed, recurse_node, plain, List.flatMap_def]

theorem mem_exposed_of_none {pointer : String} {id : Nat} {body : SchemaBody Schema}
    (plain : body.reference = none) :
    pointer ∈ exposed (.node id body) ↔ ∃ child ∈ body.children.list, pointer ∈ child.exposed := by
  simp [exposed, recurse_node, plain]

theorem exposed_contents (schema : Schema) : schema.contents.exposed = schema.exposed := by
  induction schema using induct with
  | node id body ih =>
      rw [contents_node]
      cases points : body.reference with
      | some pointer =>
          rw [exposed_pointer points, exposed_pointer (by rw [SchemaBody.reference_map, points])]
      | none =>
          simp only [exposed, recurse_node, SchemaBody.reference_map, points,
            SchemaBody.children_map, Subschemas.list_map, List.map_map] at ih ⊢
          exact congrArg List.flatten (List.map_congr_left ih)

theorem pointers_contents (schema : Schema) : schema.contents.pointers = schema.pointers := by
  induction schema using induct with
  | node id body ih =>
      rw [contents_node, pointers_node, pointers_node, SchemaBody.reference_map,
        SchemaBody.children_map, Subschemas.list_map, List.flatMap_map]
      exact congrArg _ (List.flatMap_congr ih)

theorem pointers_of_exposed {pointer : String} (schema : Schema)
    (isExposed : pointer ∈ schema.exposed) : pointer ∈ schema.pointers := by
  induction schema using induct with
  | node id body ih =>
      rw [mem_pointers_node]
      cases points : body.reference with
      | some target =>
          rw [exposed_pointer points, List.mem_singleton] at isExposed
          exact .inl (by rw [isExposed])
      | none =>
          obtain ⟨child, member, within⟩ := (mem_exposed_of_none points).mp isExposed
          exact .inr ⟨child, member, ih child member within⟩

end Schema

end ApiLinker
