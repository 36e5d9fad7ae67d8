import ApiLinker.Json.Value
import ApiLinker.Proofs.Permuted

/-!
JSON values that are equal but for the order of members.
-/

namespace ApiLinker

namespace Json

/-- The members of the objects may stand in another order, at any depth; elements keep theirs. -/
inductive Reorders : Json → Json → Prop where
  | same (json : Json) : Reorders json json
  | array {lefts rights : List Json} (elements : List.Forall₂ Reorders lefts rights) :
      Reorders (.array lefts) (.array rights)
  | object {lefts middle rights : List (String × Json)} (moved : lefts.Perm middle)
      (names : middle.map Prod.fst = rights.map Prod.fst)
      (values : List.Forall₂ Reorders (middle.map Prod.snd) (rights.map Prod.snd)) :
      Reorders (.object lefts) (.object rights)

theorem Reorders.of_members {lefts rights : List (String × Json)}
    (members : Table.Reorders Reorders lefts rights) : Reorders (.object lefts) (.object rights) := by
  obtain ⟨middle, moved, related⟩ := members
  refine .object moved ?_ ?_
  · rw [← List.forall₂_eq_eq_eq, List.forall₂_map_left_iff, List.forall₂_map_right_iff]
    exact related.imp fun _ _ holds => holds.1
  · rw [List.forall₂_map_left_iff, List.forall₂_map_right_iff]
    exact related.imp fun _ _ holds => holds.2

end Json

end ApiLinker
