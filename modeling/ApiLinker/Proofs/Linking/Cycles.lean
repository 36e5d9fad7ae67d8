import ApiLinker.Linking.Cycles
import Mathlib.Logic.Relation

/-!
The search for a way back decides whether there is one.

`Searching` is what holds between two rounds of the search.  What is pending can be reached, and
what is seen but no longer pending has all its targets among what is seen.  When nothing is pending
any more, what is seen is therefore closed under links, and the start is no part of it.
-/

namespace ApiLinker.LocatorGraph

variable {links : LocatorGraph} {start : String} {seen pending : List String}

/-- A link of the graph leads from one locator to the other. -/
def Linked (links : LocatorGraph) (source target : String) : Prop :=
  target ∈ links.targets source

theorem meet_eq_none {targets : List String} (met : meet start targets seen pending = none) :
    start ∈ targets := by
  fun_induction meet start targets seen pending with
  | case1 => cases met
  | case2 => exact List.mem_cons_self
  | case3 next rest seen pending other isSeen ih => exact List.mem_cons_of_mem _ (ih met)
  | case4 next rest seen pending other isNew ih => exact List.mem_cons_of_mem _ (ih met)

/-- What it means to have met the targets of a locator and not the start. -/
structure Met (start : String) (targets seen pending seenLater pendingLater : List String) :
    Prop where
  not_start : start ∉ targets
  mem_seen : ∀ known, known ∈ seenLater ↔ known ∈ seen ∨ known ∈ targets
  pending_kept : ∀ known ∈ pending, known ∈ pendingLater
  pending_of : ∀ known ∈ pendingLater, known ∈ pending ∨ known ∈ targets
  pending_new : ∀ known ∈ seenLater, known ∈ seen ∨ known ∈ pendingLater

theorem met_of_meet {targets seenLater pendingLater : List String}
    (met : meet start targets seen pending = some (seenLater, pendingLater)) :
    Met start targets seen pending seenLater pendingLater := by
  fun_induction meet start targets seen pending with
  | case1 seen pending =>
      cases met
      exact ⟨List.not_mem_nil, by simp, fun _ => id, fun _ => .inl, fun _ => .inl⟩
  | case2 => cases met
  | case3 next rest seen pending other isSeen ih =>
      have later := ih met
      refine ⟨?_, fun known => ?_, later.pending_kept, fun known member => ?_, later.pending_new⟩
      · simp [Ne.symm other, later.not_start]
      · rw [later.mem_seen, List.mem_cons]
        constructor
        · exact .imp_right .inr
        · rintro (before | rfl | among)
          · exact .inl before
          · exact .inl isSeen
          · exact .inr among
      · exact (later.pending_of known member).imp_right (List.mem_cons_of_mem _)
  | case4 next rest seen pending other isNew ih =>
      have later := ih met
      refine ⟨?_, fun known => ?_, fun known member => ?_, fun known member => ?_,
        fun known member => ?_⟩
      · simp [Ne.symm other, later.not_start]
      · rw [later.mem_seen, List.mem_cons, List.mem_cons, or_assoc, or_left_comm]
      · exact later.pending_kept known (List.mem_cons_of_mem _ member)
      · rcases later.pending_of known member with before | among
        · rcases List.mem_cons.mp before with rfl | before
          · exact .inr List.mem_cons_self
          · exact .inl before
        · exact .inr (List.mem_cons_of_mem _ among)
      · rcases later.pending_new known member with before | waits
        · rcases List.mem_cons.mp before with rfl | before
          · exact .inr (later.pending_kept _ List.mem_cons_self)
          · exact .inl before
        · exact .inr waits

/-- What holds between two rounds of the search for a way back to `start`. -/
structure Searching (links : LocatorGraph) (start : String) (seen pending : List String) : Prop where
  start_not_seen : start ∉ seen
  reached : ∀ known ∈ pending, Relation.ReflTransGen links.Linked start known
  looked_into : ∀ known, known = start ∨ known ∈ seen →
    known ∈ pending ∨ ∀ target, links.Linked known target → target ∈ seen

theorem searching_start (links : LocatorGraph) (start : String) :
    Searching links start [] [start] where
  start_not_seen := List.not_mem_nil
  reached := by simp [Relation.ReflTransGen.refl]
  looked_into := by simp

/-- One round: a pending locator is looked into. -/
theorem Searching.round {current : String} {seenLater pendingLater : List String}
    (searching : Searching links start seen (current :: pending))
    (met : meet start (links.targets current) seen pending = some (seenLater, pendingLater)) :
    Searching links start seenLater pendingLater := by
  have later := met_of_meet met
  refine ⟨?_, fun known member => ?_, fun known isKnown => ?_⟩
  · rw [later.mem_seen]
    exact not_or.mpr ⟨searching.start_not_seen, later.not_start⟩
  · rcases later.pending_of known member with waits | linked
    · exact searching.reached known (List.mem_cons_of_mem _ waits)
    · exact (searching.reached current List.mem_cons_self).tail linked
  · have kept : ∀ target ∈ seen, target ∈ seenLater :=
      fun target before => (later.mem_seen target).mpr (.inl before)
    have isKnown : known ∈ pendingLater ∨ known = start ∨ known ∈ seen := by
      rcases isKnown with first | isSeen
      · exact .inr (.inl first)
      · exact (later.pending_new known isSeen).symm.imp_right .inr
    rcases isKnown with waits | before
    · exact .inl waits
    · rcases searching.looked_into known before with waits | closed
      · rcases List.mem_cons.mp waits with rfl | waits
        · exact .inr fun target linked => (later.mem_seen target).mpr (.inr linked)
        · exact .inl (later.pending_kept known waits)
      · exact .inr fun target linked => kept target (closed target linked)

/-- What is seen is closed under links once nothing is pending. -/
theorem Searching.not_cyclic (searching : Searching links start seen []) :
    ¬ Relation.TransGen links.Linked start start := by
  intro cyclic
  have closed : ∀ known, known = start ∨ known ∈ seen →
      ∀ target, links.Linked known target → target ∈ seen := by
    intro known isKnown
    exact (searching.looked_into known isKnown).resolve_left List.not_mem_nil
  have allSeen : ∀ target, Relation.TransGen links.Linked start target → target ∈ seen := by
    intro target leads
    induction leads with
    | single linked => exact closed start (.inl rfl) _ linked
    | tail _ linked ih => exact closed _ (.inr ih) _ linked
  exact searching.start_not_seen (allSeen start cyclic)

/-- All rounds of the search together. -/
theorem Searching.leadsBack_iff (searching : Searching links start seen pending) :
    links.leadsBack start seen pending = true ↔ Relation.TransGen links.Linked start start := by
  fun_induction links.leadsBack start seen pending with
  | case1 => simpa using searching.not_cyclic
  | case2 seen current pending met =>
      have reached := searching.reached current List.mem_cons_self
      simpa using Relation.TransGen.tail' reached (meet_eq_none met)
  | case3 seen current pending after met ih => exact ih (searching.round met)

theorem isCyclic_iff_transGen (links : LocatorGraph) (locator : String) :
    links.isCyclic locator = true ↔ Relation.TransGen links.Linked locator locator :=
  (searching_start links locator).leadsBack_iff

end ApiLinker.LocatorGraph
