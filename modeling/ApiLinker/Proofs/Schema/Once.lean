import ApiLinker.Proofs.Schema.Noting

/-!
Each registered schema is resolved once.

No pointer is given up, and the schema of a locator is resolved once at most.  After that its
expansion is stored; until then every pointer that is met is reached from the locator, so a pointer
back to it leads into a cycle and is not followed.
-/

namespace ApiLinker

namespace Lookup

open Noting

/-- No schema was resolved twice and nothing was given up.  Each that was resolved is stored, but for
those of the locators `pending`, which are being resolved. -/
structure Once (pending : List String) (state : Expansion) (notes : List Note) : Prop where
  followsAll : Note.givesUp ∉ notes
  distinct : notes.Nodup
  stored : ∀ locator, Note.resolves locator ∈ notes →
    locator ∈ pending ∨ ∃ schema, Table.find? locator state.expanded = some schema

/-- The rules for noting actions on a state that holds that of an expansion. -/
def onceRules {σ : Type} (view : σ → Expansion) (pending : List String) :
    Rules Unit (σ × List Note) where
  grows _ _ := True
  refl _ := trivial
  trans _ _ := trivial
  describes _ := fun (state, notes) => Once pending (view state) notes

/-- The action resolves nothing twice and gives nothing up, whatever was resolved before. -/
def KeepsOnce {σ α : Type} (view : σ → Expansion) (pending : List String)
    (action : Noting σ α) : Prop :=
  ∀ state, (onceRules view pending).describes () state →
    (onceRules view pending).Yields action (fun _ _ => True) () state

variable {σ α β : Type} {view : σ → Expansion} {pending : List String} {lookup : Lookup}
variable {noting : List String → String → Noting Expansion (Option Schema)}

theorem keepsOnce_pure (value : α) : KeepsOnce view pending (pure value) :=
  fun _ described => Rules.yields_pure described trivial

theorem KeepsOnce.bind {action : Noting σ α} {next : α → Noting σ β}
    (first : KeepsOnce view pending action) (rest : ∀ value, KeepsOnce view pending (next value)) :
    KeepsOnce view pending (action >>= next) :=
  fun state described => (first state described).bind fun _ later value _ described _ =>
    rest value later described

theorem KeepsOnce.map {action : Noting σ α} (keeps : KeepsOnce view pending action)
    (change : α → β) : KeepsOnce view pending (change <$> action) :=
  keeps

/-- An action that notes nothing has only to keep what is stored. -/
theorem keepsOnce_lift {action : StateM σ α}
    (kept : ∀ state locator schema, Table.find? locator (view state).expanded = some schema →
      Table.find? locator (view (action state).2).expanded = some schema) :
    KeepsOnce view pending (lift action) := by
  intro (state, notes) described
  refine ⟨(), trivial, ⟨described.followsAll, described.distinct, fun locator noted => ?_⟩, trivial⟩
  refine (described.stored locator noted).imp_right fun stored => ?_
  obtain ⟨schema, found⟩ := stored
  exact ⟨schema, kept state locator schema found⟩

theorem keepsOnce_mapM {visit : α → Noting σ β} {items : List α}
    (each : ∀ item ∈ items, KeepsOnce view pending (visit item)) :
    KeepsOnce view pending (items.mapM visit) := by
  induction items with
  | nil => exact keepsOnce_pure []
  | cons item rest ih =>
      rw [List.mapM_cons]
      refine (each item List.mem_cons_self).bind fun first => ?_
      exact (ih fun other member => each other (List.mem_cons_of_mem _ member)).map (first :: ·)

theorem keepsOnce_expandNoting {schema : Schema}
    (followed : ∀ pointer ∈ schema.exposed, ∀ path, KeepsOnce id pending (noting path pointer))
    (path : List String) : KeepsOnce id pending (schema.expandNoting noting path) := by
  induction schema using Schema.induct generalizing path with
  | node number body ih =>
      cases points : body.reference with
      | some pointer =>
          rw [Schema.expandNoting_pointer points]
          refine (followed pointer (by rw [Schema.exposed_pointer points, List.mem_singleton])
            path).bind fun result => ?_
          cases result with
          | none => exact keepsOnce_pure _
          | some target =>
              exact (keepsOnce_lift fun _ _ _ found => found).bind fun _ => keepsOnce_pure target
      | none =>
          rw [Schema.expandNoting_plain points]
          have children : KeepsOnce id pending (body.children.mapVisits fun slot child =>
              child.expandNoting noting (path ++ slot.segments)) := by
            intro state described
            refine (Rules.yields_mapVisits (R := fun _ _ _ => True) (fun _ _ _ _ _ _ => trivial)
              (fun slot child member _ later _ described => ?_) described).imp
                fun _ _ _ _ => trivial
            exact ih child member (exposed_of_child points member followed) _ later described
          refine children.bind fun _ => ?_
          split
          · exact keepsOnce_pure _
          · exact keepsOnce_lift fun _ _ _ found => found

theorem Once.begin {state : Expansion} {notes : List Note} {locator : String}
    (once : Once pending state notes) (fresh : locator ∉ pending)
    (unknown : Table.find? locator state.expanded = none) :
    Once (locator :: pending) state (notes ++ [.resolves locator]) where
  followsAll := by simpa using once.followsAll
  distinct := by
    refine List.nodup_append.mpr ⟨once.distinct, by simp, fun note noted other last same => ?_⟩
    subst same
    cases List.mem_singleton.mp last
    rcases once.stored locator noted with isPending | ⟨schema, found⟩
    · exact fresh isPending
    · cases unknown.symm.trans found
  stored other noted := by
    rcases List.mem_append.mp noted with noted | last
    · exact (once.stored other noted).imp_left (List.mem_cons_of_mem _)
    · cases List.mem_singleton.mp last
      exact .inl List.mem_cons_self

theorem Once.store {state : Expansion} {notes : List Note} {locator : String}
    (once : Once (locator :: pending) state notes) (expansion : Schema) :
    Once pending { state with expanded := Table.insert locator expansion state.expanded } notes where
  followsAll := once.followsAll
  distinct := once.distinct
  stored other noted := by
    by_cases same : other = locator
    · exact .inr ⟨expansion, by rw [same, Table.find?_insert_self]⟩
    · rw [Table.find?_insert_of_ne same]
      exact (once.stored other noted).imp_left fun member => (List.mem_cons.mp member).resolve_left same

/-- A schema is resolved for a locator that is not being resolved already. -/
theorem keepsOnce_expandNamedNoting {locator : String} {schema : Schema} {path : List String}
    (fresh : locator ∉ pending)
    (inside : KeepsOnce id (locator :: pending) (schema.expandNoting noting path)) :
    KeepsOnce id pending (schema.expandNamedNoting noting locator path) := by
  intro (state, notes) described
  rw [Rules.Yields, Schema.expandNamedNoting_eq]
  cases unknown : Table.find? locator state.expanded with
  | some known => exact ⟨(), trivial, described, trivial⟩
  | none =>
      obtain ⟨_, _, resolved, _⟩ := inside (state, notes ++ [Note.resolves locator])
        (Once.begin described fresh unknown)
      exact ⟨(), trivial, resolved.store _, trivial⟩

theorem keepsOnce_followNoting_succ {depth : Nat} {pointer : String} {path : List String}
    (inside : ∀ schema, lookup.target? pointer = some schema →
      KeepsOnce id pending (schema.expandNamedNoting (lookup.followNoting depth)
        (Locator.ofPointer lookup.authority pointer) path)) :
    KeepsOnce id pending (lookup.followNoting (depth + 1) path pointer) := by
  have silent {α : Type} (action : Expanding α)
      (kept : ∀ state, (action state).2.expanded = state.expanded) :
      KeepsOnce id pending (lift action) :=
    keepsOnce_lift fun state _ _ found => by rw [id, kept]; exact found
  simp only [followNoting]
  split
  · split
    · exact (silent _ fun _ => rfl).bind fun _ => keepsOnce_pure none
    · exact keepsOnce_pure none
  · rename_i isLocal
    split
    · exact keepsOnce_pure none
    · rename_i acyclic
      refine (silent _ fun _ => rfl).bind fun found => ?_
      cases found with
      | some known => exact keepsOnce_pure _
      | none =>
          cases registered :
              lookup.registry.get? (Locator.ofPointer lookup.authority pointer) with
          | none => exact (silent _ fun _ => rfl).bind fun _ => keepsOnce_pure none
          | some schema =>
              refine (inside schema ?_).map some
              rw [target?, registered]
              simp_all

/-- A pointer is followed to the end if there is room for the chains from it and it is reached from
all locators that are being resolved. -/
theorem keepsOnce_followNoting (linked : lookup.Linked) {depth : Nat} {pointer : String}
    (within : lookup.Within depth pointer)
    (reached : Reference.isExternal { pointer } = false → ∀ locator ∈ pending,
      Relation.TransGen lookup.Leads locator (Locator.ofPointer lookup.authority pointer))
    (path : List String) :
    KeepsOnce id pending (lookup.followNoting (depth + 1) path pointer) := by
  induction depth generalizing pointer pending path with
  | zero =>
      refine keepsOnce_followNoting_succ fun schema found => ?_
      rw [Within] at within
      cases within.symm.trans found
  | succ depth ih =>
      refine keepsOnce_followNoting_succ fun schema found => ?_
      obtain ⟨isLocal, acyclic, registered⟩ := target?_eq_some linked found
      refine keepsOnce_expandNamedNoting (fun isPending => acyclic (reached isLocal _ isPending)) ?_
      refine keepsOnce_expandNoting (fun inner isExposed path => ?_) path
      refine ih (within schema found inner isExposed) (fun innerLocal => ?_) path
      have leads : lookup.Leads (Locator.ofPointer lookup.authority pointer)
          (Locator.ofPointer lookup.authority inner) :=
        ⟨schema, registered, inner, Schema.pointers_of_exposed schema isExposed, innerLocal, rfl⟩
      exact List.forall_mem_cons.mpr
        ⟨.single leads, fun other isPending => (reached isLocal other isPending).tail leads⟩

theorem keepsOnce_expand (linked : lookup.Linked) (schema : Schema) (path : List String) :
    KeepsOnce id [] (schema.expandNoting (lookup.followNoting lookup.depth) path) :=
  keepsOnce_expandNoting (fun pointer _ path => keepsOnce_followNoting linked
    (within_size linked pointer) (fun _ _ never => by cases never) path) path

theorem keepsOnce_expandNamed (linked : lookup.Linked) {locator : String} {schema : Schema}
    (registered : lookup.registry.get? locator = some schema) (path : List String) :
    KeepsOnce id [] (schema.expandNamedNoting (lookup.followNoting lookup.depth) locator path) := by
  refine keepsOnce_expandNamedNoting List.not_mem_nil ?_
  refine keepsOnce_expandNoting (fun pointer isExposed path => ?_) path
  refine keepsOnce_followNoting linked (within_size linked pointer) (fun isLocal => ?_) path
  refine List.forall_mem_singleton.mpr (.single ?_)
  exact ⟨schema, registered, pointer, Schema.pointers_of_exposed schema isExposed, isLocal, rfl⟩

end Lookup

end ApiLinker
