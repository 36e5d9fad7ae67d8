import ApiLinker.Proofs.Json.Digits
import ApiLinker.Proofs.Json.Layout
import ApiLinker.Proofs.Schema.Reading
import ApiLinker.Proofs.Table

/-!
Schemas, written.

The written form of a node holds its pointer, and at the path of each slot the written form of the
sub-schema there.
-/

namespace ApiLinker

namespace Json

theorem element?_of_getElem? {elements : List Json} {index : Nat} {value : Json}
    (found : elements[index]? = some value) (start : Nat) :
    element? (toString (start + index)) start elements = some value := by
  induction elements generalizing index start with
  | nil => cases found
  | cons first rest ih =>
      cases index with
      | zero => simpa [element?] using found
      | succ index =>
          have later : toString start ≠ toString (start + (index + 1)) := fun same =>
            absurd (toString_injective same) (by omega)
          rw [element?, if_neg later, ← ih found (start + 1), Nat.add_right_comm, Nat.add_assoc]

end Json

namespace SchemaBody

theorem members_map (json : τ → Json) (f : σ → τ) (body : SchemaBody σ) :
    (body.map f).members json = body.members fun child => json (f child) := by
  have lists (name : String) (children : List σ) :
      listMember name json (children.map f) =
        listMember name (fun child => json (f child)) children := by
    cases children <;> simp [listMember]
  have tables (name : String) (children : Table σ) :
      tableMember name json (children.map fun entry => (entry.1, f entry.2)) =
        tableMember name (fun child => json (f child)) children := by
    cases children <;> simp [tableMember]
  cases additional : body.additional <;>
    simp [members, map, lists, tables, additional, Additional.map, Option.toList_map,
      Function.comp_def]

end SchemaBody

namespace Schema

open SchemaBody Table

theorem json_node (id : Nat) (body : SchemaBody Schema) :
    json (.node id body) = .object (body.members json) := by
  rw [json, recurse_node, members_map]

theorem json_contents (schema : Schema) : schema.contents.json = schema.json := by
  induction schema using induct with
  | node id body ih =>
      have same : (body.map contents).map json = body.map json := by
        rw [SchemaBody.map_map]
        exact SchemaBody.map_congr ih
      rw [contents_node, json_node, json_node, ← members_map (fun child => child) json, same,
        members_map]

theorem json_eq_of_contents {before after : Schema} (same : after.contents = before.contents) :
    after.json = before.json := by
  rw [← json_contents after, same, json_contents]

/-- The pointer of a node is the first of its members. -/
theorem find?_reference {body : SchemaBody Schema} {pointer : String}
    (points : body.reference = some pointer) :
    find? "$ref" (body.members json) = some (.string pointer) := by
  simp [members, points, find?]

theorem find?_listMember {name key : String} {children : List Schema} :
    find? key (listMember name json children) =
      if name = key ∧ children ≠ [] then some (.array (children.map json)) else none := by
  cases children <;> by_cases same : name = key <;> simp [listMember, find?, same]

theorem find?_tableMember {name key : String} {children : Table Schema} :
    find? key (tableMember name json children) =
      if name = key ∧ children ≠ [] then
        some (.object (children.map fun (name, child) => (name, child.json)))
      else none := by
  cases children <;> by_cases same : name = key <;> simp [tableMember, find?, same]

theorem find?_single {key name : String} {α : Type} {option : Option α} {value : α → Json} :
    find? key (option.toList.map fun child => (name, value child)) =
      if name = key then option.map value else none := by
  cases option <;> by_cases same : name = key <;> simp [find?, same]

theorem at?_element {children : List Schema} {index : Nat} {child : Schema}
    (found : children[index]? = some child) :
    (Json.array (children.map json)).at? [toString index] = some child.json := by
  have counted := Json.element?_of_getElem? (by rw [List.getElem?_map, found]; rfl :
    (children.map json)[index]? = some child.json) 0
  rw [Nat.zero_add] at counted
  simp only [Json.at?, Json.child?, counted, Option.bind_some]

theorem at?_entry {children : Table Schema} {name : String} {child : Schema}
    (distinct : children.names.Nodup) (member : (name, child) ∈ children) :
    (Json.object (children.map fun (name, child) => (name, child.json))).at? [name] =
      some child.json := by
  have found : find? name (children.map fun (name, child) => (name, child.json)) =
      some child.json :=
    find?_of_mem (by simpa [names, Function.comp_def] using distinct)
      (List.mem_map_of_mem (f := fun (name, child) => (name, child.json)) member)
  simp only [Json.at?, Json.child?, found, Option.bind_some]

/-- The sub-schemas of a node stand at the paths of their slots. -/
theorem at?_slot {id : Nat} {body : SchemaBody Schema} {slot : Slot} {child : Schema}
    (distinct : (names body.properties).Nodup) (member : (slot, child) ∈ body.children.visits) :
    (json (.node id body)).at? slot.segments = some child.json := by
  rw [json_node]
  have lookup (name : String) (path : List String) :
      (Json.object (body.members json)).at? (name :: path) =
        (find? name (body.members json)).bind (·.at? path) := rfl
  have inside {α : Type} {list : List α} {value : α} (member : value ∈ list) : list ≠ [] :=
    List.ne_nil_of_mem member
  simp only [Subschemas.visits, Subschemas.numbered, SchemaBody.children, List.mem_append,
    List.mem_map, Option.mem_toList, Prod.mk.injEq, Prod.exists, List.mem_zipIdx_iff_getElem?]
    at member
  obtain ((((((⟨_, isChild, rfl, rfl⟩ | ⟨_, isChild, rfl, rfl⟩) | ⟨_, isChild, rfl, rfl⟩) |
    ⟨_, index, isChild, rfl, rfl⟩) | ⟨_, index, isChild, rfl, rfl⟩) |
    ⟨_, index, isChild, rfl, rfl⟩) | ⟨name, _, isChild, rfl, rfl⟩) := member
  all_goals
    rw [Slot.segments, lookup, members]
    simp only [find?_append, find?_single, find?_listMember, find?_tableMember]
  case inl.inl.inl.inl.inl.inl => simp [isChild]
  case inl.inl.inl.inl.inl.inr => simp [isChild]
  case inl.inl.inl.inl.inr =>
    cases additional : body.additional with
    | schema schema =>
        obtain rfl : schema = _ := by simpa [additional, Additional.schema?] using isChild
        simp [find?]
    | unspecified | allowed => simp [additional, Additional.schema?] at isChild
  case inl.inl.inl.inr => simpa [inside (List.mem_of_getElem? isChild)] using at?_element isChild
  case inl.inl.inr => simpa [inside (List.mem_of_getElem? isChild)] using at?_element isChild
  case inl.inr => simpa [inside (List.mem_of_getElem? isChild)] using at?_element isChild
  case inr => simpa [inside isChild] using at?_entry distinct isChild

end Schema

end ApiLinker
