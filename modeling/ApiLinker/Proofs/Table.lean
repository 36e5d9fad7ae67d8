import ApiLinker.Table
import Mathlib.Data.List.Induction
import Mathlib.Data.List.Nodup

/-!
Tables and the names in them.

A table that was made from entries has every name once, and entries whose names are different are a
table as they stand.  Of several entries that are inserted under one name the last is found.
-/

namespace ApiLinker

namespace Table

theorem names_insert (name : String) (value : α) (table : Table α) :
    names (insert name value table) =
      if name ∈ table.names then table.names else table.names ++ [name] := by
  induction table with
  | nil => simp [insert, names]
  | cons entry rest ih =>
      by_cases same : entry.1 = name
      · simp [insert, names, same]
      · simp only [names] at ih
        by_cases later : name ∈ rest.map Prod.fst <;>
          simp [insert, names, same, Ne.symm same, later, ih]

theorem mem_of_mem_insert {name : String} {value : α} {table : Table α} {entry : String × α}
    (member : entry ∈ insert name value table) : entry = (name, value) ∨ entry ∈ table := by
  induction table with
  | nil => exact .inl (List.mem_singleton.mp member)
  | cons first rest ih =>
      by_cases same : first.1 = name
      · simp only [insert, same, ↓reduceIte] at member
        rcases List.mem_cons.mp member with rfl | later
        · exact .inl rfl
        · exact .inr (List.mem_cons_of_mem _ later)
      · simp only [insert, same, ↓reduceIte] at member
        rcases List.mem_cons.mp member with rfl | later
        · exact .inr List.mem_cons_self
        · exact (ih later).imp_right (List.mem_cons_of_mem _)

theorem nodup_insert {table : Table α} (distinct : table.names.Nodup) (name : String) (value : α) :
    (names (insert name value table)).Nodup := by
  rw [names_insert]
  split
  · exact distinct
  · rename_i isNew
    exact distinct.append (List.nodup_singleton name) (List.disjoint_singleton.mpr isNew)

theorem nodup_ofEntries (entries : List (String × α)) : (ofEntries entries).names.Nodup := by
  suffices each : ∀ table : Table α, table.names.Nodup →
      (names (entries.foldl (fun table entry => insert entry.1 entry.2 table) table)).Nodup from
    each [] List.nodup_nil
  induction entries with
  | nil => exact fun _ distinct => distinct
  | cons entry rest ih => exact fun table distinct => ih _ (nodup_insert distinct _ _)

theorem mem_of_mem_ofEntries {entries : List (String × α)} {entry : String × α}
    (member : entry ∈ ofEntries entries) : entry ∈ entries := by
  suffices each : ∀ table : Table α,
      entry ∈ entries.foldl (fun table entry => insert entry.1 entry.2 table) table →
        entry ∈ table ∨ entry ∈ entries by
    rcases each [] member with never | given
    · cases never
    · exact given
  clear member
  induction entries with
  | nil => exact fun _ member => .inl member
  | cons first rest ih =>
      intro table member
      rcases ih _ member with inserted | later
      · rcases mem_of_mem_insert inserted with rfl | before
        · exact .inr List.mem_cons_self
        · exact .inl before
      · exact .inr (List.mem_cons_of_mem _ later)

theorem insert_of_not_mem {name : String} {table : Table α} (isNew : name ∉ table.names)
    (value : α) : insert name value table = table ++ [(name, value)] := by
  induction table with
  | nil => rfl
  | cons entry rest ih =>
      simp only [names, List.map_cons, List.mem_cons, not_or] at isNew
      rw [insert, if_neg (Ne.symm isNew.1), ih isNew.2, List.cons_append]

theorem ofEntries_of_nodup {entries : List (String × α)} (distinct : (entries.map Prod.fst).Nodup) :
    ofEntries entries = entries := by
  suffices each : ∀ table : Table α, (names (table ++ entries)).Nodup →
      entries.foldl (fun table entry => insert entry.1 entry.2 table) table = table ++ entries from
    each [] distinct
  clear distinct
  induction entries with
  | nil => exact fun table _ => (List.append_nil table).symm
  | cons entry rest ih =>
      intro table distinct
      have isNew : entry.1 ∉ table.names := by
        intro member
        rw [names, List.map_append, List.map_cons] at distinct
        exact (List.nodup_append.mp distinct).2.2 _ member _ List.mem_cons_self rfl
      rw [List.foldl_cons, insert_of_not_mem isNew]
      have moved : table ++ [(entry.1, entry.2)] ++ rest = table ++ entry :: rest := by simp
      rw [ih _ (moved ▸ distinct), moved]

theorem find?_append {κ : Type} [DecidableEq κ] (name : κ) (left right : List (κ × α)) :
    find? name (left ++ right) = (find? name left).or (find? name right) := by
  induction left with
  | nil => rfl
  | cons entry rest ih =>
      by_cases found : entry.1 = name <;> simp [find?, found, ih]

/-- Of the entries that are inserted under a name the last is found. -/
theorem find?_foldl_insert_eq {κ : Type} [DecidableEq κ] (key : β → κ) (value : β → α)
    (entries : List β) (table : List (κ × α)) (name : κ) :
    find? name
      (entries.foldl (fun table entry => insert (key entry) (value entry) table) table) =
        ((entries.reverse.find? fun entry => key entry = name).map value).or
          (find? name table) := by
  induction entries using List.reverseRecOn with
  | nil => rfl
  | append_singleton entries last ih =>
      rw [List.foldl_append, List.foldl_cons, List.foldl_nil]
      by_cases same : key last = name
      · rw [same, find?_insert_self]
        simp [same]
      · rw [find?_insert_of_ne (Ne.symm same), ih]
        simp [same]

theorem find?_of_not_mem {name : String} {table : Table α} (isNew : name ∉ table.names) :
    find? name table = none := by
  induction table with
  | nil => rfl
  | cons entry rest ih =>
      simp only [names, List.map_cons, List.mem_cons, not_or] at isNew
      rw [find?, if_neg (Ne.symm isNew.1), ih isNew.2]

theorem find?_of_mem {name : String} {value : α} {table : Table α} (distinct : table.names.Nodup)
    (member : (name, value) ∈ table) : find? name table = some value := by
  induction table with
  | nil => cases member
  | cons entry rest ih =>
      have ⟨isNew, others⟩ := List.nodup_cons.mp distinct
      rcases List.mem_cons.mp member with rfl | inRest
      · simp [find?]
      · have different : entry.1 ≠ name := by
          rintro rfl
          exact isNew (List.mem_map.mpr ⟨_, inRest, rfl⟩)
        rw [find?, if_neg different, ih others inRest]

end Table

end ApiLinker
