import ApiLinker.Proofs.Schema.Refill

/-!
Schema nodes as objects.

A number stands for one node.  `NodeTable` says for which, `Schema.IsIn` that a schema is made of
such nodes; two of them with one number are then the same schema.  New nodes only ever take numbers
that are free.
-/

namespace ApiLinker

/-- The node that each number stands for. -/
abbrev NodeTable := Nat → Option Schema

namespace NodeTable

def Grows (nodes later : NodeTable) : Prop :=
  ∀ id node, nodes id = some node → later id = some node

/-- All numbers in use are below `count`. -/
def Bounded (count : Nat) (nodes : NodeTable) : Prop :=
  ∀ id, count ≤ id → nodes id = none

def add (id : Nat) (node : Schema) (nodes : NodeTable) : NodeTable :=
  fun other => if other = id then some node else nodes other

variable {nodes later last : NodeTable}

theorem Grows.refl (nodes : NodeTable) : Grows nodes nodes := fun _ _ found => found

theorem Grows.trans (first : Grows nodes later) (second : Grows later last) : Grows nodes last :=
  fun id node found => second id node (first id node found)

theorem grows_add {id : Nat} (free : nodes id = none) (node : Schema) :
    Grows nodes (nodes.add id node) := by
  intro other old found
  have different : other ≠ id := by
    intro same
    subst same
    cases free.symm.trans found
  simpa [add, different] using found

theorem Bounded.add {count : Nat} (bounded : Bounded count nodes) (node : Schema) :
    Bounded (count + 1) (nodes.add count node) := by
  intro id above
  have different : id ≠ count := by omega
  simpa [NodeTable.add, different] using bounded id (by omega)

end NodeTable

namespace Schema

/-- Every node of the schema is the one that its number stands for. -/
def IsIn (nodes : NodeTable) (schema : Schema) : Prop :=
  ∀ node ∈ schema.nodes, nodes node.id = some node

variable {nodes later : NodeTable}

theorem IsIn.mono {schema : Schema} (isIn : schema.IsIn nodes) (grows : nodes.Grows later) :
    schema.IsIn later :=
  fun node member => grows _ _ (isIn node member)

theorem isIn_node {id : Nat} {body : SchemaBody Schema} :
    (Schema.node id body).IsIn nodes ↔
      nodes id = some (.node id body) ∧ ∀ child ∈ body.children.list, child.IsIn nodes := by
  constructor
  · intro isIn
    exact ⟨isIn _ (self_mem_nodes _), fun child member inner within =>
      isIn inner (mem_nodes_node.mpr (.inr ⟨child, member, within⟩))⟩
  · intro parts inner within
    obtain ⟨itself, inside⟩ := parts
    rcases mem_nodes_node.mp within with rfl | ⟨child, member, within⟩
    · exact itself
    · exact inside child member inner within

theorem IsIn.eq_of_id_eq {left right : Schema} (leftIn : left.IsIn nodes)
    (rightIn : right.IsIn nodes) (same : left.id = right.id) : left = right := by
  have known := leftIn left (self_mem_nodes left)
  rw [same, rightIn right (self_mem_nodes right)] at known
  exact (Option.some.inj known).symm

end Schema

namespace Subschemas

variable {R : σ → τ → Prop} {before : Subschemas σ} {after : Subschemas τ}

theorem Rel.imp_of_mem {S : σ → τ → Prop} (related : before.Rel R after)
    (implies : ∀ child ∈ before.list, ∀ result, R child result → S child result) :
    before.Rel S after := by
  simp only [list_eq, List.mem_append, Option.mem_toList, List.mem_map] at implies
  exact {
    items := OptionRel.imp_of_mem related.items fun child member => implies child (by simp_all)
    not := OptionRel.imp_of_mem related.not fun child member => implies child (by simp_all)
    additional := OptionRel.imp_of_mem related.additional fun child member =>
      implies child (by simp_all)
    allOf := ListRel.imp_of_mem related.allOf fun child member => implies child (by simp_all)
    anyOf := ListRel.imp_of_mem related.anyOf fun child member => implies child (by simp_all)
    oneOf := ListRel.imp_of_mem related.oneOf fun child member => implies child (by simp_all)
    properties := related.properties.imp_of_mem fun entry member =>
      implies entry.2 (.inr ⟨entry, member, rfl⟩) }

theorem Rel.eq {before after : Subschemas σ} (related : before.Rel Eq after) : before = after := by
  cases before
  cases after
  simp only [mk.injEq]
  exact ⟨OptionRel.eq related.items, List.forall₂_eq_eq_eq ▸ related.allOf,
    List.forall₂_eq_eq_eq ▸ related.anyOf, List.forall₂_eq_eq_eq ▸ related.oneOf,
    OptionRel.eq related.not, Table.Rel.eq related.properties, OptionRel.eq related.additional⟩

/-- The visits of related sub-schemas are related one by one, and in the same slots. -/
theorem Rel.visits (related : before.Rel R after) :
    List.Forall₂ (fun left right => left.1 = right.1 ∧ R left.2 right.2)
      before.visits after.visits := by
  have single : ∀ (slot : Slot) {left : Option σ} {right : Option τ}, Option.Rel R left right →
      List.Forall₂ (fun left right => left.1 = right.1 ∧ R left.2 right.2)
        (left.toList.map (slot, ·)) (right.toList.map (slot, ·)) := by
    intro slot left right holds
    cases holds with
    | none => exact .nil
    | some holds => exact .cons ⟨rfl, holds⟩ .nil
  have several : ∀ (slot : Nat → Slot) {left : List σ} {right : List τ}, List.Forall₂ R left right →
      List.Forall₂ (fun left right => left.1 = right.1 ∧ R left.2 right.2)
        (numbered slot left) (numbered slot right) := by
    intro slot left right holds
    simp only [numbered, List.forall₂_map_left_iff, List.forall₂_map_right_iff]
    exact (ListRel.zipIdx holds 0).imp fun _ _ related => ⟨congrArg slot related.2, related.1⟩
  have named : List.Forall₂ (fun left right => left.1 = right.1 ∧ R left.2 right.2)
      (before.properties.map fun entry => (Slot.property entry.1, entry.2))
      (after.properties.map fun entry => (Slot.property entry.1, entry.2)) := by
    simp only [List.forall₂_map_left_iff, List.forall₂_map_right_iff]
    exact related.properties.imp fun left right holds => ⟨by rw [holds.1], holds.2⟩
  exact List.rel_append (List.rel_append (List.rel_append (List.rel_append (List.rel_append
    (List.rel_append (single _ related.items) (single _ related.not))
    (single _ related.additional)) (several _ related.allOf)) (several _ related.anyOf))
    (several _ related.oneOf)) named

theorem Rel.list (related : before.Rel R after) : List.Forall₂ R before.list after.list := by
  simp only [Subschemas.list, List.forall₂_map_left_iff, List.forall₂_map_right_iff]
  exact related.visits.imp fun _ _ holds => holds.2

theorem refill_list (children : Subschemas σ) : children.refill children.list = children :=
  (Rel.eq (rel_refill (List.forall₂_same.mpr fun _ _ => rfl))).symm

/-- Sub-schemas of one shape are filled alike. -/
theorem Rel.refill_eq (related : before.Rel R after) :
    (after.refill : List υ → Subschemas υ) = before.refill := by
  funext results
  simp only [refill, (OptionRel.toList related.items).length_eq,
    (OptionRel.toList related.not).length_eq, (OptionRel.toList related.additional).length_eq,
    related.allOf.length_eq, related.anyOf.length_eq, related.oneOf.length_eq,
    related.properties.names_eq]

/-- Sub-schemas of one shape are the same if their visits are. -/
theorem Rel.eq_of_visits_eq {R : σ → σ → Prop} {before after : Subschemas σ}
    (related : before.Rel R after) (same : before.visits = after.visits) : before = after :=
  calc
    before = before.refill before.list := before.refill_list.symm
    _ = after.refill after.list := by rw [related.refill_eq, Subschemas.list, same, Subschemas.list]
    _ = after := after.refill_list

end Subschemas

namespace Schema

variable {nodes : NodeTable} {before after : Subschemas Schema}

/-- Comparing numbers finds out whether all sub-schemas are still the same. -/
theorem eq_of_sameObjects {R : Schema → Schema → Prop} (related : before.Rel R after)
    (beforeIn : ∀ child ∈ before.list, child.IsIn nodes)
    (afterIn : ∀ child ∈ after.list, child.IsIn nodes)
    (same : sameObjects before after = true) : before = after := by
  refine related.eq_of_visits_eq ?_
  have numbers := eq_of_beq same
  have pairs : List.Forall₂ (fun left right => left.2.id = right.2.id) before.visits
      after.visits := by
    have mapped : List.Forall₂ Eq (before.visits.map fun visit => (visit.1, visit.2.id))
        (after.visits.map fun visit => (visit.1, visit.2.id)) := by
      rw [List.forall₂_eq_eq_eq]
      exact numbers
    simp only [List.forall₂_map_left_iff, List.forall₂_map_right_iff] at mapped
    exact mapped.imp fun _ _ equal => congrArg Prod.snd equal
  have slots := related.visits
  have equal : List.Forall₂ Eq before.visits after.visits := by
    refine List.forall₂_iff_zip.mpr ⟨slots.length_eq, fun {left right} member => ?_⟩
    have leftIn := beforeIn left.2 (List.mem_map.mpr ⟨left, (List.of_mem_zip member).1, rfl⟩)
    have rightIn := afterIn right.2 (List.mem_map.mpr ⟨right, (List.of_mem_zip member).2, rfl⟩)
    exact Prod.ext (List.forall₂_zip slots member).1
      (leftIn.eq_of_id_eq rightIn (List.forall₂_zip pairs member))
  rwa [List.forall₂_eq_eq_eq] at equal

theorem sameObjects_self (children : Subschemas Schema) : sameObjects children children = true := by
  simp [sameObjects]

/-- The contents of a rebuilt node come from those of its new sub-schemas. -/
theorem map_rebuild {body : SchemaBody σ} {after : Subschemas σ} {f g : σ → τ}
    (related : body.children.Rel (fun before after => g after = f before) after) :
    (body.rebuild after).map g = body.map f := by
  have additional := related.additional
  cases body with
  | mk _ items allOf anyOf oneOf not properties kept _ =>
      simp only [SchemaBody.rebuild, SchemaBody.map, SchemaBody.mk.injEq, true_and, and_true]
      refine ⟨OptionRel.map_eq related.items, ListRel.map_eq related.allOf,
        ListRel.map_eq related.anyOf, ListRel.map_eq related.oneOf, OptionRel.map_eq related.not,
        Table.Rel.map_eq related.properties, ?_⟩
      cases kept with
      | unspecified => rfl
      | allowed value => rfl
      | schema value =>
          simp only [SchemaBody.children, Additional.schema?] at additional
          cases replacement : after.additional with
          | none => rw [replacement] at additional; cases additional
          | some new =>
              rw [replacement] at additional
              cases additional with
              | some holds => simp [Additional.map, holds]

end Schema

end ApiLinker
