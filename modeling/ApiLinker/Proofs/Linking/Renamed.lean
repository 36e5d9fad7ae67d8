import ApiLinker.Proofs.Format.Orderly
import ApiLinker.Proofs.Linking.Alias
import ApiLinker.Proofs.Linking.Logging
import ApiLinker.Proofs.Linking.Reordered
import ApiLinker.Proofs.Schema.Reordered

/-!
Documents in another order.

`Graph.Reorders` relates two documents that are the same but for the order of tables, in the
document itself and in each of its entities.  Entities get their numbers in the order in which they
are read, so in such documents the same entities have different numbers.  The indexes of such
documents have the same names for the same entities.
-/

namespace ApiLinker

open ListRel Relation

variable {f : EntityId → EntityId}

namespace Edge

/-- The edge, where entities have other numbers. -/
def rename (f : EntityId → EntityId) : Edge → Edge
  | .placeholder reference => .placeholder reference
  | .linked reference target => .linked reference (f target)
  | .inline target => .inline (f target)

@[simp] theorem reference?_rename (edge : Edge) : (edge.rename f).reference? = edge.reference? := by
  cases edge <;> rfl

@[simp] theorem target?_rename (edge : Edge) : (edge.rename f).target? = edge.target?.map f := by
  cases edge <;> rfl

theorem rename_eq_placeholder_iff {edge : Edge} {reference : Reference} :
    edge.rename f = .placeholder reference ↔ edge = .placeholder reference := by
  cases edge <;> simp [rename]

end Edge

/-- Edges lead to the same entities, by their other numbers, and schemas are the same but for their
order. -/
def Change.renaming (f : EntityId → EntityId) : Change where
  edge _ before after := after = before.rename f
  tag before after := after = before.rename f
  schema := Schema.Reorders

/-- The other document is the same but for the order of its tables, and so is each of its entities.
An entity with the number `id` has the number `f id` there. -/
structure Graph.Reorders (f : EntityId → EntityId) (graph : Graph) (document : Document)
    (otherGraph : Graph) (other : Document) : Prop where
  injective : Function.Injective f
  root : document.Reorders (.renaming f) other
  entity : ∀ id, Option.Rel (Entity.Reorders (.renaming f)) (graph.entity? id)
    (otherGraph.entity? (f id))

namespace Graph.Reorders

variable {graph otherGraph : Graph} {document other : Document}
variable (reorders : graph.Reorders f document otherGraph other)
include reorders

theorem entity_after {id : EntityId} {entity : Entity} (found : graph.entity? id = some entity) :
    ∃ after, otherGraph.entity? (f id) = some after ∧ entity.Reorders (.renaming f) after :=
  OptionRel.exists_of_mem_left (reorders.entity id) found

theorem entity_before {id : EntityId} {after : Entity}
    (found : otherGraph.entity? (f id) = some after) :
    ∃ entity, graph.entity? id = some entity ∧ entity.Reorders (.renaming f) after :=
  OptionRel.exists_of_mem_right (reorders.entity id) found

theorem size_le : graph.size ≤ otherGraph.size := by
  have within : Set.MapsTo f (Finset.range graph.size) (Finset.range otherGraph.size) := by
    intro id below
    simp only [Finset.coe_range, Set.mem_Iio] at below ⊢
    obtain ⟨_, found, _⟩ := reorders.entity_after (Array.getElem?_eq_getElem below)
    exact lt_size_of_entity? found
  simpa using Finset.card_le_card_of_injOn f within reorders.injective.injOn

end Graph.Reorders

section

variable {change : Change}

theorem Components.Reorders.edgesOf {before after : Components}
    (reorders : before.Reorders change after) (category : Category) :
    Table.Reorders (change.edge category) (before.edgesOf category) (after.edgesOf category) := by
  cases category with
  | parameters => exact reorders.parameters
  | requestBodies => exact reorders.requestBodies
  | responses => exact reorders.responses
  | examples => exact reorders.examples
  | headers => exact reorders.headers
  | links => exact reorders.links
  | callbacks => exact reorders.callbacks
  | pathItems => exact reorders.pathItems
  | securitySchemes => exact reorders.securitySchemes
  | tags | schemas => exact permuted_nil

/-- The objects with names are the same, a document without any being like one with none. -/
theorem Document.Reorders.namedObjects {before after : Document}
    (reorders : before.Reorders change after) :
    before.namedObjects.Reorders change after.namedObjects := by
  have components := reorders.components
  simp only [Document.namedObjects]
  cases isBefore : before.components <;> cases isAfter : after.components <;>
    rw [isBefore, isAfter] at components <;> cases components
  · constructor <;> exact permuted_nil
  · rename_i reorders
    exact reorders

theorem Components.Orderly.nodup_edgesOf {fits : Held → Prop} {components : Components}
    (orderly : components.Orderly fits) (category : Category) :
    (components.edgesOf category).names.Nodup := by
  cases category with
  | parameters => exact orderly.parameters.1
  | requestBodies => exact orderly.requestBodies.1
  | responses => exact orderly.responses.1
  | examples => exact orderly.examples.1
  | headers => exact orderly.headers.1
  | links => exact orderly.links.1
  | callbacks => exact orderly.callbacks.1
  | pathItems => exact orderly.pathItems.1
  | securitySchemes => exact orderly.securitySchemes.1
  | tags | schemas => exact List.nodup_nil

theorem Document.Orderly.nodup_edgesOf {fits : Held → Prop} {document : Document}
    (orderly : document.Orderly fits) (category : Category) :
    (document.namedObjects.edgesOf category).names.Nodup := by
  simp only [namedObjects]
  cases isThere : document.components with
  | none => cases category <;> exact List.nodup_nil
  | some components => exact (orderly.components components isThere).nodup_edgesOf category

end

namespace Index

/-- The other index has the same names, for the same entities. -/
def Renames (f : EntityId → EntityId) (index other : Index) : Prop :=
  ∀ category name, other.entity? category name = (index.entity? category name).map f

section

variable {index other : Index} (renames : Renames f index other)
include renames

theorem Renames.resolve (category : Category) (reference : Reference) :
    other.resolve category reference = (index.resolve category reference).map f := by
  simp only [Index.resolve, renames category reference.identifier]
  split
  · rfl
  · split
    · rfl
    · cases index.entity? category reference.identifier <;> rfl

theorem Renames.resolve_error_iff {category : Category} {reference : Reference} {problem : Problem} :
    other.resolve category reference = .error problem ↔
      index.resolve category reference = .error problem := by
  rw [renames.resolve]
  cases index.resolve category reference <;> simp [Except.map]

theorem Renames.link (category : Category) (edge : Edge) :
    other.link category (edge.rename f) = (index.link category edge).rename f := by
  cases edge with
  | linked | inline => rfl
  | placeholder reference =>
      simp only [Edge.rename, Index.link, renames.resolve]
      split
      · rfl
      · cases index.resolve category reference <;> rfl

theorem Renames.problem?_eq (strict : Bool) (category : Category) (reference : Reference) :
    other.problem? strict category reference = index.problem? strict category reference := by
  simp only [Index.problem?, renames.resolve]
  cases index.resolve category reference <;> rfl

theorem Renames.register (category : Category) (name : String) (target : EntityId) :
    Renames f (index.register category name target) (other.register category name (f target)) := by
  intro otherCategory otherName
  by_cases same : (otherCategory, otherName) = (category, name)
  · cases same
    rw [entity?_register_self, entity?_register_self, Option.map_some]
  · rw [entity?_register_of_ne same, entity?_register_of_ne same, renames]

end

section

variable {category : Category} {entries others : Table Edge} {name : String}

variable (reorders : Table.Reorders (fun before after => after = before.rename f) entries others)
include reorders

theorem mem_placeholder_iff {reference : Reference} :
    (name, .placeholder reference) ∈ others ↔ (name, .placeholder reference) ∈ entries := by
  constructor
  · intro member
    obtain ⟨edge, isEntry, same⟩ := reorders.exists_of_mem_right member
    rwa [Edge.rename_eq_placeholder_iff.mp same.symm] at isEntry
  · intro member
    obtain ⟨_, isEntry, rfl⟩ := reorders.exists_of_mem_left member
    exact isEntry

theorem forwards_reorders : Forwards category others = Forwards category entries := by
  ext name next
  simp only [Forwards, mem_placeholder_iff reorders]

theorem defines_iff {target : EntityId} :
    Defines others name target ↔ ∃ object, Defines entries name object ∧ f object = target := by
  constructor
  · rintro ⟨_, member, leads⟩
    obtain ⟨edge, isEntry, rfl⟩ := reorders.exists_of_mem_right member
    rw [Edge.target?_rename, Option.map_eq_some_iff] at leads
    obtain ⟨object, leads, same⟩ := leads
    exact ⟨object, ⟨edge, isEntry, leads⟩, same⟩
  · rintro ⟨object, ⟨edge, member, leads⟩, rfl⟩
    obtain ⟨_, isEntry, rfl⟩ := reorders.exists_of_mem_left member
    exact ⟨_, isEntry, by rw [Edge.target?_rename, leads, Option.map_some]⟩

/-- Aliases end where they did. -/
theorem endsAt_iff {target : EntityId} :
    EndsAt category others name target ↔
      ∃ object, EndsAt category entries name object ∧ f object = target := by
  simp only [EndsAt, forwards_reorders reorders, defines_iff reorders]
  constructor
  · rintro ⟨last, chain, object, defines, same⟩
    exact ⟨object, ⟨last, chain, defines⟩, same⟩
  · rintro ⟨object, ⟨last, chain, defines⟩, same⟩
    exact ⟨last, chain, object, defines, same⟩

end

variable {graph otherGraph : Graph} {document other : Document}
variable (reorders : graph.Reorders f document otherGraph other)
include reorders

theorem renames_foldl_registerTag {tags others : List Edge}
    (related : List.Forall₂ (fun before after => after = before.rename f) tags others)
    {index otherIndex : Index} (renames : Renames f index otherIndex) :
    Renames f (tags.foldl (registerTag graph) index)
      (others.foldl (registerTag otherGraph) otherIndex) := by
  induction related generalizing index otherIndex with
  | nil => exact renames
  | @cons edge _ _ _ same _ ih =>
      subst same
      refine ih ?_
      simp only [registerTag, Edge.target?_rename]
      cases edge.target? with
      | none => exact renames
      | some target =>
          simp only [Option.map_some]
          cases found : graph.entity? target with
          | none =>
              have related := reorders.entity target
              rw [found] at related
              cases missing : otherGraph.entity? (f target) with
              | none => exact renames
              | some => rw [missing] at related; cases related
          | some entity =>
              obtain ⟨after, foundToo, related⟩ := reorders.entity_after found
              rw [foundToo]
              cases related with
              | tag value => exact renames.register _ _ _
              | parameter | requestBody | response | header | callback | pathItem | «example» |
                  link | securityScheme => exact renames

/-- Documents in another order have the same entities under each name. -/
theorem renames_ofDocument {fits : Held → Prop} (orderly : document.Orderly fits) :
    Renames f (ofDocument graph document) (ofDocument otherGraph other) := by
  intro category name
  by_cases different : category = .tags
  · -- Tags are a list, which has its order, and the last tag of a name is the one that counts.
    subst different
    rw [entity?_ofDocument_tags, entity?_ofDocument_tags]
    exact renames_foldl_registerTag reorders reorders.root.tags (fun _ _ => rfl) _ _
  · have edges := reorders.root.namedObjects.edgesOf category
    have distinct := orderly.nodup_edgesOf category
    have distinctToo := edges.names_perm.nodup_iff.mp distinct
    ext target
    rw [entity?_ofDocument_iff different distinctToo, endsAt_iff edges, Option.map_eq_some_iff]
    simp only [entity?_ofDocument_iff different distinct]

end Index

end ApiLinker
