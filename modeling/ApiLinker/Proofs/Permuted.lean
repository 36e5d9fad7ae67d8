import ApiLinker.Proofs.Relation

/-!
Relations between lists and tables whose items stand in different orders.

`ListRel.Permuted R` says that two lists are related item by item once one of them is put in another
order, and `Table.Reorders R` says it of entries that have the same names.
-/

namespace ApiLinker

variable {α β γ δ : Type}

theorem OptionRel.square {R : α → β → Prop} {S : γ → δ → Prop} {P : α → γ → Prop}
    {Q : β → δ → Prop} {before : Option α} {after : Option β} {left : Option γ} {right : Option δ}
    (related : Option.Rel R before after) (changes : Option.Rel P before left)
    (becomes : Option.Rel Q after right)
    (each : ∀ first second third fourth, R first second → P first third → Q second fourth →
      S third fourth) : Option.Rel S left right := by
  cases related with
  | none =>
      cases changes
      cases becomes
      exact .none
  | some holds =>
      cases changes with
      | some changes =>
          cases becomes with
          | some becomes => exact .some (each _ _ _ _ holds changes becomes)

namespace ListRel

/-- Each item of one list is related to an item of the other, each to one of its own. -/
def Permuted (R : α → β → Prop) (before : List α) (after : List β) : Prop :=
  ∃ middle, before.Perm middle ∧ List.Forall₂ R middle after

variable {R : α → β → Prop} {before other : List α} {after : List β}

theorem permuted_nil : Permuted R ([] : List α) ([] : List β) :=
  ⟨[], .refl _, .nil⟩

theorem permuted_of_forall₂ (related : List.Forall₂ R before after) : Permuted R before after :=
  ⟨before, .refl _, related⟩

theorem permuted_eq_iff : Permuted Eq before other ↔ before.Perm other := by
  simp [Permuted]

theorem Permuted.of_perm (moved : other.Perm before) (permuted : Permuted R before after) :
    Permuted R other after := by
  obtain ⟨middle, perm, related⟩ := permuted
  exact ⟨middle, moved.trans perm, related⟩

/-- It makes no difference which of the lists is put in another order. -/
theorem Permuted.perm_of {others : List β} (permuted : Permuted R before after)
    (moved : after.Perm others) : Permuted R before others := by
  obtain ⟨middle, perm, related⟩ := permuted
  obtain ⟨reordered, again, related⟩ := reorder related moved
  exact ⟨reordered, perm.trans again, related⟩

theorem Permuted.flip (permuted : Permuted R before after) :
    Permuted (fun right left => R left right) after before := by
  obtain ⟨middle, perm, related⟩ := permuted
  exact (permuted_of_forall₂ related.flip).perm_of perm.symm

theorem Permuted.cons {left : α} {right : β} (holds : R left right)
    (permuted : Permuted R before after) : Permuted R (left :: before) (right :: after) := by
  obtain ⟨middle, perm, related⟩ := permuted
  exact ⟨left :: middle, perm.cons left, .cons holds related⟩

theorem Permuted.append {more : List α} {others : List β} (first : Permuted R before after)
    (second : Permuted R more others) : Permuted R (before ++ more) (after ++ others) := by
  obtain ⟨middle, perm, related⟩ := first
  obtain ⟨rest, permToo, relatedToo⟩ := second
  exact ⟨middle ++ rest, perm.append permToo, List.rel_append related relatedToo⟩

theorem Permuted.imp_of_mem {S : α → β → Prop} (permuted : Permuted R before after)
    (implies : ∀ left ∈ before, ∀ right, R left right → S left right) :
    Permuted S before after := by
  obtain ⟨middle, perm, related⟩ := permuted
  exact ⟨middle, perm, ListRel.imp_of_mem related fun left member =>
    implies left (perm.mem_iff.mpr member)⟩

theorem Permuted.imp {S : α → β → Prop} (permuted : Permuted R before after)
    (implies : ∀ left right, R left right → S left right) : Permuted S before after :=
  permuted.imp_of_mem fun left _ => implies left

theorem permuted_map {R : γ → δ → Prop} {f : α → γ} {g : β → δ} :
    Permuted R (before.map f) (after.map g) ↔
      Permuted (fun left right => R (f left) (g right)) before after := by
  constructor
  · rintro ⟨middle, perm, related⟩
    have images : List.Forall₂ (fun left right => f left = right) before (before.map f) :=
      ListRel.map before fun _ _ => rfl
    obtain ⟨reordered, moved, same⟩ := reorder images perm
    obtain rfl : reordered.map f = middle := by
      rwa [← List.forall₂_map_left_iff (R := Eq), List.forall₂_eq_eq_eq] at same
    rw [List.forall₂_map_left_iff, List.forall₂_map_right_iff] at related
    exact ⟨reordered, moved, related⟩
  · rintro ⟨middle, perm, related⟩
    refine ⟨middle.map f, perm.map f, ?_⟩
    rwa [List.forall₂_map_left_iff, List.forall₂_map_right_iff]

theorem Permuted.flatMap {S : γ → δ → Prop} {f : α → List γ} {g : β → List δ}
    (permuted : Permuted R before after)
    (each : ∀ left right, R left right → Permuted S (f left) (g right)) :
    Permuted S (before.flatMap f) (after.flatMap g) := by
  obtain ⟨middle, perm, related⟩ := permuted
  refine .of_perm (perm.flatMap_right f) ?_
  clear perm
  induction related with
  | nil => exact permuted_nil
  | cons holds _ ih => simpa using (each _ _ holds).append ih

theorem Permuted.perm_flatMap {f : α → List γ} {g : β → List γ} (permuted : Permuted R before after)
    (each : ∀ left right, R left right → (f left).Perm (g right)) :
    (before.flatMap f).Perm (after.flatMap g) :=
  permuted_eq_iff.mp (permuted.flatMap fun left right holds =>
    permuted_eq_iff.mpr (each left right holds))

theorem Permuted.exists_of_mem_left (permuted : Permuted R before after) {left : α}
    (member : left ∈ before) : ∃ right ∈ after, R left right := by
  obtain ⟨middle, perm, related⟩ := permuted
  exact ListRel.exists_of_mem_left related (perm.mem_iff.mp member)

theorem Permuted.exists_of_mem_right (permuted : Permuted R before after) {right : β}
    (member : right ∈ after) : ∃ left ∈ before, R left right :=
  permuted.flip.exists_of_mem_left member

theorem Permuted.isEmpty_eq (permuted : Permuted R before after) :
    after.isEmpty = before.isEmpty := by
  obtain ⟨middle, perm, related⟩ := permuted
  rw [ListRel.isEmpty_eq related, perm.isEmpty_eq]

section

/-! What becomes of two related things is related as the things and what becomes of each are. -/

variable {S : γ → δ → Prop} {P : α → γ → Prop} {Q : β → δ → Prop} {lefts : List γ}
  {rights : List δ}

theorem square (related : List.Forall₂ R before after) (left : List.Forall₂ P before lefts)
    (right : List.Forall₂ Q after rights)
    (each : ∀ first second third fourth, R first second → P first third → Q second fourth →
      S third fourth) : List.Forall₂ S lefts rights := by
  induction related generalizing lefts rights with
  | nil =>
      cases left
      cases right
      exact .nil
  | cons holds _ ih =>
      cases left with
      | cons changes more =>
          cases right with
          | cons becomes others =>
              exact .cons (each _ _ _ _ holds changes becomes) (ih more others)

theorem Permuted.square (permuted : Permuted R before after) (left : List.Forall₂ P before lefts)
    (right : List.Forall₂ Q after rights)
    (each : ∀ first second third fourth, R first second → P first third → Q second fourth →
      S third fourth) : Permuted S lefts rights := by
  obtain ⟨middle, perm, related⟩ := permuted
  obtain ⟨reordered, moved, changes⟩ := reorder left.flip perm
  exact ⟨reordered, moved, ListRel.square related changes.flip right each⟩

end

end ListRel

namespace Table

/-- The same names in any order, with values in the relation `R`. -/
def Reorders (R : α → β → Prop) (before : Table α) (after : Table β) : Prop :=
  ListRel.Permuted (fun left right => left.1 = right.1 ∧ R left.2 right.2) before after

variable {R : α → β → Prop} {before : Table α} {after : Table β}

theorem Rel.reorders (related : Rel R before after) : Reorders R before after :=
  ListRel.permuted_of_forall₂ related

theorem Reorders.flip (reorders : Reorders R before after) :
    Reorders (fun right left => R left right) after before :=
  (ListRel.Permuted.flip reorders).imp fun _ _ holds => ⟨holds.1.symm, holds.2⟩

theorem Reorders.imp_of_mem {S : α → β → Prop} (reorders : Reorders R before after)
    (implies : ∀ entry ∈ before, ∀ right, R entry.2 right → S entry.2 right) :
    Reorders S before after :=
  ListRel.Permuted.imp_of_mem reorders fun entry member right holds =>
    ⟨holds.1, implies entry member right.2 holds.2⟩

theorem Reorders.names_perm (reorders : Reorders R before after) :
    before.names.Perm after.names :=
  ListRel.permuted_eq_iff.mp (ListRel.permuted_map.mpr (reorders.imp fun _ _ holds => holds.1))

theorem Reorders.exists_of_mem_left (reorders : Reorders R before after) {name : String} {left : α}
    (member : (name, left) ∈ before) : ∃ right, (name, right) ∈ after ∧ R left right := by
  obtain ⟨⟨_, right⟩, found, rfl, holds⟩ := ListRel.Permuted.exists_of_mem_left reorders member
  exact ⟨right, found, holds⟩

theorem Reorders.exists_of_mem_right (reorders : Reorders R before after) {name : String}
    {right : β} (member : (name, right) ∈ after) : ∃ left, (name, left) ∈ before ∧ R left right :=
  reorders.flip.exists_of_mem_left member

theorem Reorders.square {S : γ → δ → Prop} {P : α → γ → Prop} {Q : β → δ → Prop} {lefts : Table γ}
    {rights : Table δ} (reorders : Reorders R before after) (left : Rel P before lefts)
    (right : Rel Q after rights)
    (each : ∀ first second third fourth, R first second → P first third → Q second fourth →
      S third fourth) : Reorders S lefts rights :=
  ListRel.Permuted.square reorders left right fun _ _ _ _ holds changes becomes =>
    ⟨changes.1.symm.trans (holds.1.trans becomes.1), each _ _ _ _ holds.2 changes.2 becomes.2⟩

end Table

end ApiLinker
