import ApiLinker.Json.Value

/-!
The JSON values that are schemas, and their tidy form.

What a value may be goes by its role, and the role of a member of a schema by the name.  In the tidy
form the members that the format knows stand in front, in the order in which it declares them, but
for those that say nothing; the others follow in their order, with their values as they are.
-/

namespace ApiLinker.Schema

/-- What a value is in a schema: the schema itself, or a member. -/
inductive Role where
  | schema
  /-- A text, or `null`. -/
  | pointer
  /-- A schema, or `null`. -/
  | optional
  /-- A schema or a switch, or `null`. -/
  | additional
  | list
  | table
  /-- Anything. -/
  | keyword
deriving DecidableEq

namespace Role

/-- The role of a member. -/
def of : (name : String) → Role
  | "$ref" => .pointer
  | "items" | "not" => .optional
  | "allOf" | "anyOf" | "oneOf" => .list
  | "properties" => .table
  | "additionalProperties" => .additional
  | _ => .keyword

/-- The names of the members with a role of their own. -/
def declared : List String :=
  ["$ref", "items", "allOf", "anyOf", "oneOf", "not", "properties", "additionalProperties"]

mutual

/-- Whether a value can be read in the role. -/
def fits : Role → Json → Bool
  | .keyword, _ => true
  | .pointer, .null | .optional, .null | .additional, .null => true
  | .pointer, .string _ => true
  | .additional, .bool _ => true
  | .list, .array elements => fitElements elements
  | .table, .object entries => fitEntries entries
  | .schema, .object members | .optional, .object members | .additional, .object members =>
      fitMembers members
  | _, _ => false

def fitElements : List Json → Bool
  | [] => true
  | element :: rest => fits .schema element && fitElements rest

def fitEntries : List (String × Json) → Bool
  | [] => true
  | (_, value) :: rest => fits .schema value && fitEntries rest

def fitMembers : List (String × Json) → Bool
  | [] => true
  | (name, value) :: rest => fits (of name) value && fitMembers rest

end

/-- What is written of a member: nothing where a member with a role of its own says nothing. -/
def kept? : Role → Json → Option Json
  | .keyword, value => some value
  | _, .null => none
  | .list, .array [] => none
  | .table, .object [] => none
  | _, value => some value

/-- The members in the order in which they are written. -/
def arrange (members : List (String × Json)) : List (String × Json) :=
  (declared.filterMap fun name =>
    ((Table.find? name members).bind (of name).kept?).map (name, ·)) ++
    members.filter fun member => of member.1 = .keyword

mutual

/-- The value with every schema in it arranged. -/
def tidy : Role → Json → Json
  | .list, .array elements => .array (tidyElements elements)
  | .table, .object entries => .object (tidyEntries entries)
  | .schema, .object members | .optional, .object members | .additional, .object members =>
      .object (arrange (tidyMembers members))
  | _, value => value

def tidyElements : List Json → List Json
  | [] => []
  | element :: rest => tidy .schema element :: tidyElements rest

def tidyEntries : List (String × Json) → List (String × Json)
  | [] => []
  | (name, value) :: rest => (name, tidy .schema value) :: tidyEntries rest

def tidyMembers : List (String × Json) → List (String × Json)
  | [] => []
  | (name, value) :: rest => (name, tidy (of name) value) :: tidyMembers rest

end

theorem mem_declared {name : String} : name ∈ declared ↔ of name ≠ .keyword := by
  constructor
  · simp only [declared, List.mem_cons, List.not_mem_nil, or_false]
    rintro (rfl | rfl | rfl | rfl | rfl | rfl | rfl | rfl) <;> decide
  · unfold of
    split <;> simp [declared]

theorem tidy_keyword (json : Json) : keyword.tidy json = json := by
  cases json <;> rfl

theorem fits_optional {json : Json} (present : json ≠ .null) :
    optional.fits json = schema.fits json := by
  cases json <;> first | rfl | exact absurd rfl present

theorem kept?_tidy_optional {json : Json} (present : json ≠ .null) :
    optional.kept? (optional.tidy json) = some (schema.tidy json) := by
  cases json <;> first | rfl | exact absurd rfl present

theorem names_tidyMembers (members : List (String × Json)) :
    Table.names (tidyMembers members) = Table.names members := by
  induction members with
  | nil => rw [tidyMembers]
  | cons member rest ih =>
      simp only [Table.names] at ih
      simp [Table.names, tidyMembers, ih]

theorem names_tidyEntries (entries : List (String × Json)) :
    Table.names (tidyEntries entries) = Table.names entries := by
  induction entries with
  | nil => rw [tidyEntries]
  | cons entry rest ih =>
      simp only [Table.names] at ih
      simp [Table.names, tidyEntries, ih]

end Role

end ApiLinker.Schema
