import ApiLinker.Proofs.Schema.Refill

/-!
Two runs side by side: an action simulates another when, run from related states, both give the
same result and lead to related states.  Put together in the same way, actions simulate each other
part by part.
-/

namespace ApiLinker

variable {σ τ α β : Type}

def Simulates (R : σ → τ → Prop) (left : StateM σ α) (right : StateM τ α) : Prop :=
  ∀ before other, R before other →
    (left before).1 = (right other).1 ∧ R (left before).2 (right other).2

namespace Simulates

variable {R : σ → τ → Prop} {left : StateM σ α} {right : StateM τ α}

protected theorem pure (value : α) :
    Simulates R (Pure.pure value : StateM σ α) (Pure.pure value : StateM τ α) :=
  fun _ _ related => ⟨rfl, related⟩

protected theorem modify {change : σ → σ} {changeToo : τ → τ}
    (keeps : ∀ before other, R before other → R (change before) (changeToo other)) :
    Simulates R (modify change) (modify changeToo) :=
  fun before other related => ⟨rfl, keeps before other related⟩

theorem bind {next : α → StateM σ β} {nextToo : α → StateM τ β} (first : Simulates R left right)
    (rest : ∀ value, Simulates R (next value) (nextToo value)) :
    Simulates R (left >>= next) (right >>= nextToo) := by
  intro before other related
  obtain ⟨same, after⟩ := first before other related
  have continued := rest (left before).1 _ _ after
  rwa [show nextToo (left before).1 = nextToo (right other).1 by rw [same]] at continued

theorem map (simulates : Simulates R left right) (change : α → β) :
    Simulates R (change <$> left) (change <$> right) :=
  simulates.bind fun value => .pure (change value)

theorem mapM {visit : α → StateM σ β} {visitToo : α → StateM τ β} {items : List α}
    (each : ∀ item ∈ items, Simulates R (visit item) (visitToo item)) :
    Simulates R (items.mapM visit) (items.mapM visitToo) := by
  induction items with
  | nil => exact .pure []
  | cons item rest ih =>
      rw [List.mapM_cons, List.mapM_cons]
      exact (each item List.mem_cons_self).bind fun _ =>
        (ih fun other member => each other (List.mem_cons_of_mem _ member)).bind fun _ => .pure _

theorem mapVisits {υ ω : Type} {visit : Slot → υ → StateM σ ω} {visitToo : Slot → υ → StateM τ ω}
    {children : Subschemas υ}
    (each : ∀ slot, ∀ child ∈ children.list, Simulates R (visit slot child) (visitToo slot child)) :
    Simulates R (children.mapVisits visit) (children.mapVisits visitToo) := by
  rw [Subschemas.mapVisits_eq_mapM, Subschemas.mapVisits_eq_mapM]
  have visits : Simulates R (children.visits.mapM fun entry => visit entry.1 entry.2)
      (children.visits.mapM fun entry => visitToo entry.1 entry.2) :=
    mapM fun entry visited => each entry.1 entry.2 (List.mem_map_of_mem visited)
  exact visits.map _

end Simulates

end ApiLinker
