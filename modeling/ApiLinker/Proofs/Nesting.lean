import ApiLinker.Proofs.Search

/-!
A search as a recursion.

`Nests` tells a search as a recursion, which visits what a key opens to before it goes on with the
items that were waiting.  Every search is such a recursion (`Search.Runs.nests`), and each level of
it has fewer keys left to open (`Search.Nests.unopened_le`).
-/

namespace ApiLinker.Search

variable {α κ : Type} {search : Search α κ}
variable {opened after : List κ} {items visited : List α}

/-- From `opened`, the recursion through `items` visits `visited` and has then opened `after`. -/
inductive Nests (search : Search α κ) : List κ → List α → List α → List κ → Prop where
  | nil (opened : List κ) : Nests search opened [] [] opened
  | pass {opened after : List κ} {waiting visited : List α} (item : α)
      (shut : ∀ key, search.key? item = some key → key ∈ search.keys → key ∈ opened)
      (rest : Nests search opened waiting visited after) :
      Nests search opened (item :: waiting) (item :: visited) after
  | enter {opened middle after : List κ} {waiting within visited : List α} {item : α} {key : κ}
      (found : search.key? item = some key) (isKey : key ∈ search.keys) (closed : key ∉ opened)
      (inside : Nests search (key :: opened) (search.contents item key) within middle)
      (rest : Nests search middle waiting visited after) :
      Nests search opened (item :: waiting) (item :: within ++ visited) after

/-- A search through items in two parts is a recursion through the first and a search through the
second. -/
theorem Runs.nests_append {front back : List α}
    (runs : Runs search opened (front ++ back) visited after) :
    ∃ within middle others, Nests search opened front within middle ∧
      Runs search middle back others after ∧ visited = within ++ others := by
  -- What a key opens to comes first among the items that wait, so it is split off, and both what is
  -- visited there and what is visited after it are shorter than the whole.
  induction count : visited.length using Nat.strongRecOn generalizing opened front back visited with
  | ind count shorter =>
      cases front with
      | nil => exact ⟨[], opened, visited, .nil opened, runs, rfl⟩
      | cons item waiting =>
          cases runs with
          | pass _ shut rest =>
              obtain ⟨within, middle, others, nests, runs, rfl⟩ :=
                shorter _ (by simp [← count]) rest rfl
              exact ⟨item :: within, middle, others, .pass item shut nests, runs, rfl⟩
          | enter found isKey closed rest =>
              obtain ⟨within, inner, later, inside, runsOn, rfl⟩ :=
                shorter _ (by simp [← count]) rest rfl
              obtain ⟨visited, middle, others, nests, runs, rfl⟩ :=
                shorter _ (by simp only [← count, List.length_append, List.length_cons]; omega) runsOn
                  rfl
              exact ⟨_, middle, others, .enter found isKey closed inside nests, runs, by simp⟩

/-- Every search is a recursion. -/
theorem Runs.nests (runs : Runs search opened items visited after) :
    Nests search opened items visited after := by
  rw [← List.append_nil items] at runs
  obtain ⟨within, middle, others, nests, nothing, rfl⟩ := runs.nests_append
  cases nothing
  rwa [List.append_nil]

theorem unopened_le_length [DecidableEq κ] (opened keys : List κ) :
    unopened (fun _ => 1) opened keys ≤ keys.length := by
  induction keys with
  | nil => exact Nat.le_refl _
  | cons key rest ih =>
      rw [unopened, List.length_cons]
      split <;> omega

namespace Nests

theorem opened_kept (nests : Nests search opened items visited after) : opened ⊆ after := by
  induction nests with
  | nil => exact List.Subset.refl _
  | pass _ _ _ ih => exact ih
  | enter _ _ _ _ _ ihInside ih => exact List.Subset.trans (List.subset_of_cons_subset ihInside) ih

/-- No keys are shut again. -/
theorem unopened_le [DecidableEq κ] (nests : Nests search opened items visited after)
    (size : κ → Nat) (keys : List κ) : unopened size after keys ≤ unopened size opened keys := by
  induction nests with
  | nil => exact Nat.le_refl _
  | pass _ _ _ ih => exact ih
  | enter _ _ _ _ _ ihInside ih =>
      exact Nat.le_trans ih (Nat.le_trans ihInside (unopened_cons_le size _ _ keys))

end Nests

end ApiLinker.Search
