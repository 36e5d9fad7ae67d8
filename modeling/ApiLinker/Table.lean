/-!
Tables: named entries that keep the order in which the names were first given.  Looking up and
inserting work for names of any type.
-/

namespace ApiLinker

abbrev Table (α : Type) := List (String × α)

namespace Table

section

variable {κ : Type} [DecidableEq κ]

def find? (name : κ) : List (κ × α) → Option α
  | [] => none
  | (key, value) :: rest => if key = name then some value else find? name rest

/-- A name given again keeps its place and takes the new value. -/
def insert (name : κ) (value : α) : List (κ × α) → List (κ × α)
  | [] => [(name, value)]
  | (key, old) :: rest =>
      if key = name then (key, value) :: rest else (key, old) :: insert name value rest

theorem find?_insert_self (name : κ) (value : α) (table : List (κ × α)) :
    find? name (insert name value table) = some value := by
  induction table with
  | nil => simp [insert, find?]
  | cons entry rest ih =>
      by_cases found : entry.1 = name <;> simp [insert, find?, found, ih]

theorem find?_insert_of_ne {name other : κ} (different : other ≠ name) (value : α)
    (table : List (κ × α)) : find? other (insert name value table) = find? other table := by
  induction table with
  | nil => simp [insert, find?, Ne.symm different]
  | cons entry rest ih =>
      by_cases found : entry.1 = name
      · simp [insert, find?, found, Ne.symm different]
      · simp [insert, find?, found, ih]

def erase (name : κ) (table : List (κ × α)) : List (κ × α) :=
  table.filter fun entry => entry.1 ≠ name

theorem find?_erase_self (name : κ) (table : List (κ × α)) :
    find? name (erase name table) = none := by
  induction table with
  | nil => rfl
  | cons entry rest ih =>
      by_cases found : entry.1 = name
      · simpa [erase, found] using ih
      · simpa [erase, find?, found] using ih

theorem find?_erase_of_ne {name other : κ} (different : other ≠ name) (table : List (κ × α)) :
    find? other (erase name table) = find? other table := by
  induction table with
  | nil => rfl
  | cons entry rest ih =>
      by_cases found : entry.1 = name
      · simpa [erase, find?, found, Ne.symm different] using ih
      · by_cases sought : entry.1 = other
        · simp [erase, find?, sought, different]
        · simpa [erase, find?, found, sought] using ih

end

def ofEntries (entries : List (String × α)) : Table α :=
  entries.foldl (fun table entry => insert entry.1 entry.2 table) []

def names (table : Table α) : List String :=
  table.map Prod.fst

/-- Whether two tables hold the same names with the same values, in any order. -/
def same (sameValue : α → β → Bool) (left : Table α) (right : Table β) : Bool :=
  left.length == right.length && left.all fun (name, value) =>
    match find? name right with
    | some other => sameValue value other
    | none => false

end Table

end ApiLinker
