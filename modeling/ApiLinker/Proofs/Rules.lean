import ApiLinker.Proofs.Schema.Refill

/-!
Proof rules for computations with a state.

A computation runs in a world that only grows and that its state describes at every moment.  What is
known about a result in one world has to stay true in every later one.
-/

namespace ApiLinker

structure Rules (ω σ : Type) where
  grows : ω → ω → Prop
  refl : ∀ world, grows world world
  trans : ∀ {first second third}, grows first second → grows second third → grows first third
  describes : ω → σ → Prop

namespace Rules

variable {ω σ α β : Type} (rules : Rules ω σ)

/-- Run in `world` from `state`, the action ends in a later world, with a result as `result`
says. -/
def Yields (action : StateM σ α) (result : ω → α → Prop) (world : ω) (state : σ) : Prop :=
  ∃ later, rules.grows world later ∧ rules.describes later (action state).2 ∧
    result later (action state).1

def Stable (result : ω → α → Prop) : Prop :=
  ∀ ⦃world later value⦄, rules.grows world later → result world value → result later value

variable {rules} {world : ω} {state : σ}

theorem yields_pure {result : ω → α → Prop} {value : α} (described : rules.describes world state)
    (holds : result world value) : rules.Yields (pure value) result world state :=
  ⟨world, rules.refl world, described, holds⟩

theorem Yields.bind {action : StateM σ α} {next : α → StateM σ β} {middle : ω → α → Prop}
    {result : ω → β → Prop} (first : rules.Yields action middle world state)
    (rest : ∀ later state value, rules.grows world later → rules.describes later state →
      middle later value → rules.Yields (next value) result later state) :
    rules.Yields (action >>= next) result world state := by
  obtain ⟨later, grows, described, holds⟩ := first
  obtain ⟨last, growsOn, ends, holdsLast⟩ := rest later _ _ grows described holds
  exact ⟨last, rules.trans grows growsOn, ends, holdsLast⟩

theorem Yields.imp {action : StateM σ α} {result weaker : ω → α → Prop}
    (yields : rules.Yields action result world state)
    (implies : ∀ later value, rules.grows world later → result later value → weaker later value) :
    rules.Yields action weaker world state := by
  obtain ⟨later, grows, described, holds⟩ := yields
  exact ⟨later, grows, described, implies later _ grows holds⟩

theorem Yields.map {action : StateM σ α} {result : ω → α → Prop} {mapped : ω → β → Prop}
    {change : α → β} (yields : rules.Yields action result world state)
    (implies : ∀ later value, result later value → mapped later (change value)) :
    rules.Yields (change <$> action) mapped world state := by
  obtain ⟨later, grows, described, holds⟩ := yields
  exact ⟨later, grows, described, implies later _ holds⟩

theorem yields_mapM {visit : α → StateM σ β} {R : ω → α → β → Prop}
    (stable : ∀ item, rules.Stable fun world => R world item) {items : List α}
    (each : ∀ item ∈ items, ∀ later state, rules.grows world later → rules.describes later state →
      rules.Yields (visit item) (fun world => R world item) later state)
    (described : rules.describes world state) :
    rules.Yields (items.mapM visit) (fun world => List.Forall₂ (R world) items) world state := by
  induction items generalizing world state with
  | nil => exact yields_pure described .nil
  | cons item rest ih =>
      rw [List.mapM_cons]
      refine (each item List.mem_cons_self world state (rules.refl world) described).bind ?_
      intro later state first grows described holds
      have others := ih (fun other member last state growsOn =>
        each other (List.mem_cons_of_mem _ member) last state (rules.trans grows growsOn)) described
      refine others.bind fun last state results growsOn described related => ?_
      exact yields_pure described (.cons (stable item growsOn holds) related)

/-- Each sub-schema is replaced by a result for it, in the slot it had. -/
theorem yields_mapVisits {τ υ : Type} {R : ω → τ → υ → Prop}
    (stable : ∀ child, rules.Stable fun world => R world child)
    {visit : Slot → τ → StateM σ υ} {children : Subschemas τ}
    (each : ∀ slot, ∀ child ∈ children.list, ∀ later state, rules.grows world later →
      rules.describes later state →
      rules.Yields (visit slot child) (fun world => R world child) later state)
    (described : rules.describes world state) :
    rules.Yields (children.mapVisits visit) (fun world => children.Rel (R world)) world state := by
  have answered : rules.Yields (children.visits.mapM fun entry => visit entry.1 entry.2)
      (fun world => List.Forall₂ (fun entry => R world entry.2) children.visits) world state :=
    yields_mapM (fun entry : Slot × τ => stable entry.2)
      (fun entry visited => each entry.1 entry.2 (List.mem_map_of_mem visited)) described
  rw [Subschemas.mapVisits_eq_mapM]
  exact answered.map fun _ _ related =>
    Subschemas.rel_refill (List.forall₂_map_left_iff.mpr related)

end Rules

end ApiLinker
