/-!
Depth-first search that opens each key once.

An item may hold a key.  The first item with a given key opens it, and what it opens to is visited
right after the item, before the items that were waiting.  All other items with that key are visited
too but open nothing.
-/

namespace ApiLinker

structure Search (α κ : Type) where
  keys : List κ
  key? : α → Option κ
  contents : α → κ → List α
  /-- How many items a key opens to, whichever item opens it. -/
  size : κ → Nat
  contents_length : ∀ item key, (contents item key).length = size key

namespace Search

variable {α κ : Type} [DecidableEq κ]

/-- The number of items behind keys that have not been opened. -/
def unopened (size : κ → Nat) (opened : List κ) : List κ → Nat
  | [] => 0
  | key :: keys => (if key ∈ opened then 0 else size key) + unopened size opened keys

theorem unopened_cons_le (size : κ → Nat) (key : κ) (opened keys : List κ) :
    unopened size (key :: opened) keys ≤ unopened size opened keys := by
  induction keys with
  | nil => exact Nat.le_refl _
  | cons first rest ih =>
      by_cases known : first ∈ opened
      · simpa [unopened, known] using ih
      · by_cases same : first = key <;> simp [unopened, known, same] <;> omega

theorem size_add_unopened_le (size : κ → Nat) {key : κ} {opened keys : List κ}
    (isKey : key ∈ keys) (closed : key ∉ opened) :
    size key + unopened size (key :: opened) keys ≤ unopened size opened keys := by
  induction keys with
  | nil => cases isKey
  | cons first rest ih =>
      by_cases same : first = key
      · have smaller := unopened_cons_le size key opened rest
        simp [unopened, same, closed]
        omega
      · have inRest : key ∈ rest := by
          cases isKey with
          | head => exact absurd rfl same
          | tail _ inRest => exact inRest
        have bound := ih inRest
        by_cases known : first ∈ opened <;> simp [unopened, known, same] <;> omega

/-- Visits items in order.  The result holds all items visited and all keys opened so far. -/
def run (search : Search α κ) (opened : List κ) : List α → List α × List κ
  | [] => ([], opened)
  | item :: waiting =>
      match search.key? item with
      | none =>
          let (visited, opened) := run search opened waiting
          (item :: visited, opened)
      | some key =>
          if _isFresh : key ∈ search.keys ∧ key ∉ opened then
            let (visited, opened) :=
              run search (key :: opened) (search.contents item key ++ waiting)
            (item :: visited, opened)
          else
            let (visited, opened) := run search opened waiting
            (item :: visited, opened)
termination_by items => items.length + unopened search.size opened search.keys
decreasing_by
  · simp
  · have bound := size_add_unopened_le search.size _isFresh.1 _isFresh.2
    simp only [List.length_append, search.contents_length, List.length_cons]
    omega
  · simp

end Search

end ApiLinker
