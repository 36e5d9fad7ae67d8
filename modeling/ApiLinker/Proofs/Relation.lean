import ApiLinker.Table
import Mathlib.Data.List.Forall2
import Mathlib.Data.List.Perm.Basic

/-!
Relations between options, lists and tables, place by place.
-/

namespace ApiLinker

variable {α β γ δ : Type} {R S : α → β → Prop}

namespace OptionRel

theorem imp_of_mem {before : Option α} {after : Option β} (related : Option.Rel R before after)
    (implies : ∀ left ∈ before, ∀ right, R left right → S left right) :
    Option.Rel S before after := by
  cases related with
  | none => exact .none
  | some holds => exact .some (implies _ rfl _ holds)

theorem refl {R : α → α → Prop} (each : ∀ value, R value value) (option : Option α) :
    Option.Rel R option option := by
  cases option with
  | none => exact .none
  | some value => exact .some (each value)

theorem eq {before after : Option α} (related : Option.Rel Eq before after) : before = after := by
  cases related with
  | none => rfl
  | some same => rw [same]

theorem exists_of_mem_right {before : Option α} {after : Option β}
    (related : Option.Rel R before after) {right : β} (member : right ∈ after) :
    ∃ left ∈ before, R left right := by
  cases related with
  | none => cases member
  | some holds =>
      cases member
      exact ⟨_, rfl, holds⟩

theorem flip {before : Option α} {after : Option β} (related : Option.Rel R before after) :
    Option.Rel (fun right left => R left right) after before := by
  cases related with
  | none => exact .none
  | some holds => exact .some holds

theorem exists_of_mem_left {before : Option α} {after : Option β}
    (related : Option.Rel R before after) {left : α} (member : left ∈ before) :
    ∃ right ∈ after, R left right :=
  exists_of_mem_right (flip related) member

theorem toList {before : Option α} {after : Option β} (related : Option.Rel R before after) :
    List.Forall₂ R before.toList after.toList := by
  cases related with
  | none => exact .nil
  | some holds => exact .cons holds .nil

theorem head? {option : Option α} {results : List β}
    (related : List.Forall₂ R option.toList results) : Option.Rel R option results.head? := by
  cases option with
  | none =>
      cases related
      exact .none
  | some value =>
      cases related with
      | cons holds _ => exact .some holds

theorem map (option : Option α) {f : α → β} (holds : ∀ value ∈ option, R value (f value)) :
    Option.Rel R option (option.map f) := by
  cases option with
  | none => exact .none
  | some value => exact .some (holds value rfl)

theorem map_iff {S : γ → δ → Prop} {f : α → γ} {g : β → δ} {before : Option α} {after : Option β} :
    Option.Rel S (before.map f) (after.map g) ↔
      Option.Rel (fun left right => S (f left) (g right)) before after := by
  cases before <;> cases after <;> simp

theorem map_eq {f : α → γ} {g : β → γ} {before : Option α} {after : Option β}
    (related : Option.Rel (fun left right => g right = f left) before after) :
    after.map g = before.map f := by
  cases related with
  | none => rfl
  | some same => rw [Option.map_some, Option.map_some, same]

end OptionRel

namespace ListRel

theorem imp_of_mem {before : List α} {after : List β} (related : List.Forall₂ R before after)
    (implies : ∀ left ∈ before, ∀ right, R left right → S left right) :
    List.Forall₂ S before after := by
  induction related with
  | nil => exact .nil
  | cons holds _ ih =>
      exact .cons (implies _ List.mem_cons_self _ holds)
        (ih fun left member => implies left (List.mem_cons_of_mem _ member))

theorem isEmpty_eq {before : List α} {after : List β} (related : List.Forall₂ R before after) :
    after.isEmpty = before.isEmpty := by
  cases related <;> rfl

theorem map (list : List α) {f : α → β} (holds : ∀ value ∈ list, R value (f value)) :
    List.Forall₂ R list (list.map f) :=
  List.forall₂_map_right_iff.mpr (List.forall₂_same.mpr holds)

theorem map_eq {f : α → γ} {g : β → γ} {before : List α} {after : List β}
    (related : List.Forall₂ (fun left right => g right = f left) before after) :
    after.map g = before.map f := by
  induction related with
  | nil => rfl
  | cons same _ ih => rw [List.map_cons, List.map_cons, same, ih]

theorem zipIdx {before : List α} {after : List β} (related : List.Forall₂ R before after)
    (start : Nat) :
    List.Forall₂ (fun left right => R left.1 right.1 ∧ left.2 = right.2) (before.zipIdx start)
      (after.zipIdx start) := by
  induction related generalizing start with
  | nil => exact .nil
  | cons holds _ ih => exact .cons ⟨holds, rfl⟩ (ih (start + 1))

/-- What is on the right has come from something on the left. -/
theorem exists_of_mem_right {before : List α} {after : List β}
    (related : List.Forall₂ R before after) {right : β} (member : right ∈ after) :
    ∃ left ∈ before, R left right := by
  induction related with
  | nil => cases member
  | cons holds _ ih =>
      rcases List.mem_cons.mp member with rfl | later
      · exact ⟨_, List.mem_cons_self, holds⟩
      · obtain ⟨left, found, related⟩ := ih later
        exact ⟨left, List.mem_cons_of_mem _ found, related⟩

theorem exists_of_mem_left {before : List α} {after : List β}
    (related : List.Forall₂ R before after) {left : α} (member : left ∈ before) :
    ∃ right ∈ after, R left right := by
  obtain ⟨right, found, holds⟩ := exists_of_mem_right related.flip member
  exact ⟨right, found, holds⟩

theorem exists_getElem? {before : List α} {after : List β} (related : List.Forall₂ R before after)
    {number : Nat} {left : α} (found : before[number]? = some left) :
    ∃ right, after[number]? = some right ∧ R left right := by
  induction related generalizing number with
  | nil => cases found
  | cons holds _ ih =>
      cases number with
      | zero =>
          cases found
          exact ⟨_, rfl, holds⟩
      | succ number => exact ih found

theorem imp_getElem? {before : List α} {after : List β} (related : List.Forall₂ R before after)
    (implies : ∀ (number : Nat) (left : α) (right : β), before[number]? = some left →
      after[number]? = some right → R left right → S left right) :
    List.Forall₂ S before after := by
  induction related with
  | nil => exact .nil
  | cons holds _ ih =>
      exact .cons (implies 0 _ _ rfl rfl holds) (ih fun number => implies (number + 1))

theorem exists_append {front back : List α} {after : List β}
    (related : List.Forall₂ R (front ++ back) after) :
    ∃ first second, after = first ++ second ∧ List.Forall₂ R front first ∧
      List.Forall₂ R back second := by
  have first := List.forall₂_take front.length related
  have second := List.forall₂_drop front.length related
  rw [List.take_left] at first
  rw [List.drop_left] at second
  exact ⟨_, _, (List.take_append_drop _ _).symm, first, second⟩

/-- Parts that are empty can be left out. -/
theorem filter_flatten {P : α → Prop} [DecidablePred P] {R : α → List β → Prop} {before : List α}
    {parts : List (List β)} (related : List.Forall₂ R before parts)
    (silent : ∀ left ∈ before, ∀ part, ¬ P left → R left part → part = []) :
    ∃ kept, List.Forall₂ R (before.filter fun left => decide (P left)) kept ∧
      kept.flatten = parts.flatten := by
  induction related with
  | nil => exact ⟨[], .nil, rfl⟩
  | @cons left part before parts holds _ ih =>
      obtain ⟨kept, related, same⟩ :=
        ih fun left member => silent left (List.mem_cons_of_mem _ member)
      by_cases keeps : P left
      · refine ⟨part :: kept, ?_, by simp [same]⟩
        rw [List.filter_cons, if_pos (decide_eq_true keeps)]
        exact .cons holds related
      · refine ⟨kept, ?_, by simp [same, silent left List.mem_cons_self part keeps holds]⟩
        rwa [List.filter_cons, if_neg (by simpa using keeps)]

/-- Where the right side is put in another order, the left side can be put in one that fits. -/
theorem reorder {before : List α} {after other : List β} (related : List.Forall₂ R before after)
    (perm : after.Perm other) :
    ∃ reordered, before.Perm reordered ∧ List.Forall₂ R reordered other := by
  have composed : Relation.Comp (List.Forall₂ R) List.Perm before other := ⟨after, related, perm⟩
  rwa [List.forall₂_comp_perm_eq_perm_comp_forall₂] at composed

end ListRel

namespace Table

/-- The same names in the same order, with values in the relation `R`. -/
def Rel (R : α → β → Prop) (before : Table α) (after : Table β) : Prop :=
  List.Forall₂ (fun left right => left.1 = right.1 ∧ R left.2 right.2) before after

variable {before : Table α} {after : Table β}

theorem Rel.imp_of_mem (related : Rel R before after)
    (implies : ∀ entry ∈ before, ∀ right, R entry.2 right → S entry.2 right) :
    Rel S before after :=
  ListRel.imp_of_mem related fun entry member right holds =>
    ⟨holds.1, implies entry member right.2 holds.2⟩

theorem Rel.refl {R : α → α → Prop} (each : ∀ value, R value value) (table : Table α) :
    Rel R table table :=
  List.forall₂_same.mpr fun entry _ => ⟨rfl, each entry.2⟩

theorem Rel.eq {before after : Table α} (related : Rel Eq before after) : before = after := by
  have same := related.imp fun left right holds => show left = right from Prod.ext holds.1 holds.2
  rwa [List.forall₂_eq_eq_eq] at same

theorem Rel.names_eq (related : Rel R before after) : after.names = before.names :=
  ListRel.map_eq (related.imp fun _ _ holds => holds.1.symm)

theorem Rel.map (table : Table α) {f : α → β} (holds : ∀ entry ∈ table, R entry.2 (f entry.2)) :
    Rel R table (table.map fun (name, value) => (name, f value)) :=
  ListRel.map table fun entry member => ⟨rfl, holds entry member⟩

theorem Rel.map_eq {f : α → γ} {g : β → γ}
    (related : Rel (fun left right => g right = f left) before after) :
    (after.map fun entry => (entry.1, g entry.2)) = before.map fun entry => (entry.1, f entry.2) :=
  ListRel.map_eq (related.imp fun _ _ holds => Prod.ext holds.1.symm holds.2)

/-- Values in the relation with those of a table, under its names. -/
theorem Rel.zip {results : List β} (related : List.Forall₂ R (before.map Prod.snd) results) :
    Rel R before (before.names.zip results) := by
  induction before generalizing results with
  | nil =>
      cases related
      exact .nil
  | cons entry rest ih =>
      cases related with
      | cons holds others => exact .cons ⟨rfl, holds⟩ (ih others)

end Table

end ApiLinker
