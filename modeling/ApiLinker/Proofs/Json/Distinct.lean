import ApiLinker.Json.Reading
import ApiLinker.Proofs.Outcome
import ApiLinker.Proofs.Table

/-!
JSON values in which no object has a name twice.

Reading gives no others: of members with one name the last counts, at the place of the first.
-/

namespace ApiLinker.Json

/-- The names of every object are different. -/
inductive Distinct : Json → Prop where
  | null : Distinct .null
  | bool (value : Bool) : Distinct (.bool value)
  | number (value : Number) : Distinct (.number value)
  | string (value : String) : Distinct (.string value)
  | array {elements : List Json} (each : ∀ element ∈ elements, Distinct element) :
      Distinct (.array elements)
  | object {members : List (String × Json)} (names : (members.map Prod.fst).Nodup)
      (each : ∀ member ∈ members, Distinct member.2) : Distinct (.object members)

mutual

/-- No object of the tree has a name twice. -/
def Node.Unrepeated : Node → Prop
  | .array _ elements => elements.Unrepeated
  | .object _ members =>
      (∀ entries, members.entries = .ok entries → (entries.map Prod.fst).Nodup) ∧
        members.Unrepeated
  | _ => True

def Elements.Unrepeated : Elements → Prop
  | .stop _ => True
  | .item value rest => value.Unrepeated ∧ rest.Unrepeated

def Members.Unrepeated : Members → Prop
  | .stop _ | .noFirstKey => True
  | .member _ value rest => value.Unrepeated ∧ rest.Unrepeated

end

open Outcome

theorem array_of_value {tooDeep : Bool} {elements : Elements} {json : Json}
    (isValue : (Node.array tooDeep elements).value = .ok json) :
    tooDeep = false ∧ ∃ values, elements.values = .ok values ∧ .array values = json := by
  cases tooDeep with
  | true => cases isValue
  | false => exact ⟨rfl, map_eq_ok isValue⟩

theorem object_of_value {tooDeep : Bool} {members : Members} {json : Json}
    (isValue : (Node.object tooDeep members).value = .ok json) :
    tooDeep = false ∧
      ∃ entries, members.entries = .ok entries ∧ .object (Table.ofEntries entries) = json := by
  cases tooDeep with
  | true => cases isValue
  | false => exact ⟨rfl, map_eq_ok isValue⟩

theorem ne_null_of_value {node : Node} {json : Json} (isValue : node.value = .ok json)
    (isNull : node.isNull = false) : json ≠ .null := by
  rintro rfl
  cases node with
  | absent | brokenWord | brokenNumber | bool => cases isValue
  | null => cases isNull
  | number | quoted =>
      obtain ⟨_, _, never⟩ := map_eq_ok isValue
      cases never
  | array =>
      obtain ⟨_, _, _, never⟩ := array_of_value isValue
      cases never
  | object =>
      obtain ⟨_, _, _, never⟩ := object_of_value isValue
      cases never

mutual

theorem distinct_of_value : (node : Node) → {json : Json} → node.value = .ok json → json.Distinct
  | .absent _, _, read | .brokenWord _, _, read | .brokenNumber _, _, read => by cases read
  | .null, _, read => by cases read; exact .null
  | .bool _, _, read => by cases read; exact .bool _
  | .number _, _, read => by
      obtain ⟨_, _, rfl⟩ := map_eq_ok read
      exact .number _
  | .quoted _, _, read => by
      obtain ⟨_, _, rfl⟩ := map_eq_ok read
      exact .string _
  | .array _ elements, _, read => by
      obtain ⟨_, _, values, rfl⟩ := array_of_value read
      exact .array (distinct_of_values elements values)
  | .object _ members, _, read => by
      obtain ⟨_, entries, given, rfl⟩ := object_of_value read
      exact .object (Table.nodup_ofEntries entries) fun entry member =>
        distinct_of_entries members given entry (Table.mem_of_mem_ofEntries member)

theorem distinct_of_values : (elements : Elements) → {values : List Json} →
    elements.values = .ok values → ∀ value ∈ values, value.Distinct
  | .stop _, _, read => by
      obtain ⟨_, _, same⟩ := bind_eq_ok read
      cases same
      exact nofun
  | .item first rest, _, read => by
      rw [Elements.values] at read
      obtain ⟨_, isFirst, read⟩ := bind_eq_ok read
      obtain ⟨_, others, same⟩ := bind_eq_ok read
      cases same
      exact List.forall_mem_cons.mpr
        ⟨distinct_of_value first isFirst, distinct_of_values rest others⟩

theorem distinct_of_entries : (members : Members) → {entries : List (String × Json)} →
    members.entries = .ok entries → ∀ entry ∈ entries, entry.2.Distinct
  | .stop _, _, read => by
      obtain ⟨_, _, same⟩ := bind_eq_ok read
      cases same
      exact nofun
  | .noFirstKey, _, read => by cases read
  | .member _ first rest, _, read => by
      rw [Members.entries] at read
      obtain ⟨_, _, read⟩ := bind_eq_ok read
      obtain ⟨_, isFirst, read⟩ := bind_eq_ok read
      obtain ⟨_, others, same⟩ := bind_eq_ok read
      cases same
      exact List.forall_mem_cons.mpr
        ⟨distinct_of_value first isFirst, distinct_of_entries rest others⟩

end

end ApiLinker.Json
