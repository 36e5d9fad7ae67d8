import ApiLinker.Reference
import ApiLinker.Schema.Registry

/-!
Cycles: which locators lead back to themselves.

The local pointers in registered schemas link locators to each other.  The search for a way back
from a locator keeps all that it has seen and what of that is still pending.  It goes on from the
newest pending locator and ends as soon as it meets the one it started from.
-/

namespace ApiLinker

/-- The locators of the local pointers in a schema. -/
def Schema.targets (authority : String) (schema : Schema) : List String :=
  (schema.pointers.filter fun pointer => !(Reference.isExternal { pointer })).map
    (Locator.ofPointer authority)

/-- The registered locators, each with those that its schema points to. -/
abbrev LocatorGraph := Table (List String)

namespace LocatorGraph

def ofRegistry (authority : String) (registry : Registry) : LocatorGraph :=
  registry.schemas.map fun (locator, schema) => (locator, schema.targets authority)

def targets (links : LocatorGraph) (locator : String) : List String :=
  (Table.find? locator links).getD []

/-- What is seen and what is pending once the targets of a locator are met, one after the other;
`none` if the start is among them. -/
def meet (start : String) :
    (targets seen pending : List String) → Option (List String × List String)
  | [], seen, pending => some (seen, pending)
  | next :: rest, seen, pending =>
      if next = start then none
      else if next ∈ seen then meet start rest seen pending
      else meet start rest (next :: seen) (next :: pending)

/-- The targets anywhere in the graph that have not been seen. -/
def unseen (links : LocatorGraph) (seen : List String) : List String :=
  (links.flatMap Prod.snd).filter (· ∉ seen)

theorem targets_subset (links : LocatorGraph) (locator : String) :
    links.targets locator ⊆ links.flatMap Prod.snd := by
  induction links with
  | nil => simp [targets, Table.find?]
  | cons entry rest ih =>
      intro target member
      by_cases same : entry.1 = locator
      · simp only [targets, Table.find?, same, ↓reduceIte, Option.getD_some] at member
        simp [member]
      · simp only [targets, Table.find?, same, ↓reduceIte] at member
        exact List.mem_append_right _ (ih member)

theorem unseen_cons_lt {links : LocatorGraph} {seen : List String} {next : String}
    (isTarget : next ∈ links.flatMap Prod.snd) (isNew : next ∉ seen) :
    (unseen links (next :: seen)).length < (unseen links seen).length := by
  have fewer : unseen links (next :: seen) = (unseen links seen).filter (· ≠ next) := by
    simp only [unseen, List.filter_filter]
    exact List.filter_congr fun other _ => by simp [not_or]
  rw [fewer]
  apply List.length_filter_lt_length_iff_exists.mpr
  exact ⟨next, by simp [unseen, isTarget, isNew], by simp⟩

/-- A target that becomes pending is no longer unseen. -/
theorem meet_le {links : LocatorGraph} {start : String} {targets seen pending : List String}
    {after : List String × List String} (areTargets : targets ⊆ links.flatMap Prod.snd)
    (met : meet start targets seen pending = some after) :
    after.2.length + (unseen links after.1).length ≤
      pending.length + (unseen links seen).length := by
  fun_induction meet start targets seen pending with
  | case1 => cases met; exact Nat.le_refl _
  | case2 => cases met
  | case3 next rest seen pending other isSeen ih =>
      exact ih (List.subset_of_cons_subset areTargets) met
  | case4 next rest seen pending other isNew ih =>
      have bound := ih (List.subset_of_cons_subset areTargets) met
      have fewer := unseen_cons_lt (areTargets List.mem_cons_self) isNew
      simp only [List.length_cons] at bound
      omega

/-- Whether `start` is met from the pending locators on. -/
def leadsBack (links : LocatorGraph) (start : String) (seen : List String) :
    (pending : List String) → Bool
  | [] => false
  | current :: pending =>
      match _met : meet start (links.targets current) seen pending with
      | none => true
      | some after => leadsBack links start after.1 after.2
termination_by pending => pending.length + (unseen links seen).length
decreasing_by
  have bound := meet_le (targets_subset links current) _met
  simp only [List.length_cons]
  omega

/-- Whether following pointers from a locator leads back to it. -/
def isCyclic (links : LocatorGraph) (locator : String) : Bool :=
  links.leadsBack locator [] [locator]

/-- The same test, which keeps its answers by locator. -/
def test (links : LocatorGraph) (locator : String) : StateM (Table Bool) Bool := fun answers =>
  match Table.find? locator answers with
  | some known => (known, answers)
  | none =>
      let answer := links.isCyclic locator
      (answer, Table.insert locator answer answers)

end LocatorGraph

end ApiLinker
