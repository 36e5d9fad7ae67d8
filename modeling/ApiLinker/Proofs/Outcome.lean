import Mathlib.Data.List.Forall2

/-!
Computations that may fail.

One that succeeds has succeeded in each of its steps.
-/

namespace ApiLinker.Outcome

variable {ε α β : Type}

theorem map_eq_ok {change : α → β} {outcome : Except ε α} {result : β}
    (mapped : change <$> outcome = .ok result) :
    ∃ value, outcome = .ok value ∧ change value = result := by
  cases outcome with
  | error => cases mapped
  | ok value => cases mapped; exact ⟨value, rfl, rfl⟩

theorem bind_eq_ok {outcome : Except ε α} {next : α → Except ε β} {result : β}
    (ran : outcome >>= next = .ok result) :
    ∃ value, outcome = .ok value ∧ next value = .ok result := by
  cases outcome with
  | error => cases ran
  | ok value => exact ⟨value, rfl, ran⟩

theorem mapM_eq_ok_iff {f : α → Except ε β} {items : List α} {results : List β} :
    items.mapM f = .ok results ↔
      List.Forall₂ (fun item result => f item = .ok result) items results := by
  induction items generalizing results with
  | nil =>
      rw [List.mapM_nil, List.forall₂_nil_left_iff]
      exact ⟨fun same => by cases same; rfl, fun same => by rw [same]; rfl⟩
  | cons item rest ih =>
      rw [List.mapM_cons]
      constructor
      · intro ran
        obtain ⟨first, isFirst, ran⟩ := bind_eq_ok ran
        obtain ⟨others, areOthers, same⟩ := bind_eq_ok ran
        cases same
        exact .cons isFirst (ih.mp areOthers)
      · intro related
        cases related with
        | cons isFirst areOthers =>
            rw [isFirst, ih.mpr areOthers]
            rfl

end ApiLinker.Outcome
