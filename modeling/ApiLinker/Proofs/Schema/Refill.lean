import ApiLinker.Proofs.Schema.Tree

/-!
Sub-schemas as a list.

`Subschemas.refill` puts results in the slots of the sub-schemas that they came from.  Replacing is
asking for every sub-schema once, in the order of the visits, and refilling with the answers
(`Subschemas.mapVisits_eq_mapM`), whatever asking does beside.
-/

namespace ApiLinker

namespace Subschemas

/-- Sub-schemas in the slots of others, given in the order of the visits. -/
def refill (children : Subschemas σ) (results : List τ) : Subschemas τ :=
  let (items, results) := results.splitAt children.items.toList.length
  let (not, results) := results.splitAt children.not.toList.length
  let (additional, results) := results.splitAt children.additional.toList.length
  let (allOf, results) := results.splitAt children.allOf.length
  let (anyOf, results) := results.splitAt children.anyOf.length
  let (oneOf, results) := results.splitAt children.oneOf.length
  { items := items.head?, not := not.head?, additional := additional.head?, allOf, anyOf, oneOf
    properties := children.properties.names.zip results }

theorem refill_map (f : σ → τ) (children : Subschemas σ) :
    ((children.map f).refill : List υ → Subschemas υ) = children.refill := by
  funext results
  simp [refill, map, Table.names, Option.toList_map, Function.comp_def]

section

variable {m : Type → Type} [Monad m] [LawfulMonad m]

/-- What follows a run over a list is given as many results as there are items. -/
theorem mapM_bind_congr {ask : σ → m τ} {items : List σ} {next other : List τ → m υ}
    (same : ∀ results, results.length = items.length → next results = other results) :
    items.mapM ask >>= next = items.mapM ask >>= other := by
  induction items generalizing next other with
  | nil => simpa using same [] rfl
  | cons item items ih =>
      simp only [List.mapM_cons, bind_assoc, pure_bind]
      refine bind_congr fun first => ih fun results length => ?_
      exact same (first :: results) (by simp [length])

variable (visit : Slot → σ → m τ)

theorem mapOption_eq_mapM (slot : Slot) (option : Option σ) :
    mapOption (visit slot) option =
      List.head? <$> (option.toList.map (slot, ·)).mapM fun (slot, child) => visit slot child := by
  cases option <;> simp [mapOption]

theorem mapNumbered_eq_mapM (slot : Nat → Slot) (start : Nat) (list : List σ) :
    mapNumbered (fun index => visit (slot index)) start list =
      ((list.zipIdx start).map fun (child, index) => (slot index, child)).mapM
        fun (slot, child) => visit slot child := by
  induction list generalizing start with
  | nil => simp [mapNumbered]
  | cons child rest ih => simp [mapNumbered, ih]

theorem mapNamed_eq_mapM (table : Table σ) :
    mapNamed (fun name => visit (.property name)) table =
      table.names.zip <$> (table.map fun (name, child) => (Slot.property name, child)).mapM
        fun (slot, child) => visit slot child := by
  induction table with
  | nil => simp [mapNamed, Table.names]
  | cons entry rest ih => simp [mapNamed, ih, Table.names]

/-- Every sub-schema is asked for once, in the order of the visits, and its slot is filled with the
answer. -/
theorem mapVisits_eq_mapM (children : Subschemas σ) :
    children.mapVisits visit =
      children.refill <$> children.visits.mapM fun (slot, child) => visit slot child := by
  simp only [mapVisits, visits, numbered, mapOption_eq_mapM, mapNumbered_eq_mapM, mapNamed_eq_mapM,
    List.append_assoc, List.mapM_append, map_eq_pure_bind, bind_assoc, pure_bind]
  refine mapM_bind_congr fun items isItems => mapM_bind_congr fun not isNot => ?_
  refine mapM_bind_congr fun additional isAdditional => mapM_bind_congr fun allOf isAllOf => ?_
  refine mapM_bind_congr fun anyOf isAnyOf => mapM_bind_congr fun oneOf isOneOf => ?_
  refine mapM_bind_congr fun properties _ => congrArg pure ?_
  simp only [List.length_map, List.length_zipIdx] at isItems isNot isAdditional isAllOf isAnyOf isOneOf
  simp [refill, ← isItems, ← isNot, ← isAdditional, ← isAllOf, ← isAnyOf, ← isOneOf]

theorem mapVisits_map (visit : Slot → τ → m υ) (f : σ → τ) (children : Subschemas σ) :
    (children.map f).mapVisits visit =
      children.mapVisits fun slot child => visit slot (f child) := by
  simp only [mapVisits_eq_mapM, refill_map, visits_map, List.mapM_map, Function.comp_def]

end

/-- Answers that belong to the sub-schemas one by one belong to the slots that they fill. -/
theorem rel_refill {R : σ → τ → Prop} {children : Subschemas σ} {results : List τ}
    (related : List.Forall₂ R children.list results) : children.Rel R (children.refill results) := by
  rw [list_eq] at related
  simp only [List.append_assoc] at related
  obtain ⟨items, results, rfl, relItems, related⟩ := ListRel.exists_append related
  obtain ⟨not, results, rfl, relNot, related⟩ := ListRel.exists_append related
  obtain ⟨additional, results, rfl, relAdditional, related⟩ := ListRel.exists_append related
  obtain ⟨allOf, results, rfl, relAllOf, related⟩ := ListRel.exists_append related
  obtain ⟨anyOf, results, rfl, relAnyOf, related⟩ := ListRel.exists_append related
  obtain ⟨oneOf, properties, rfl, relOneOf, relProperties⟩ := ListRel.exists_append related
  simp only [refill, relItems.length_eq, relNot.length_eq, relAdditional.length_eq,
    relAllOf.length_eq, relAnyOf.length_eq, relOneOf.length_eq, List.splitAt_eq, List.take_left,
    List.drop_left]
  exact {
    items := OptionRel.head? relItems
    not := OptionRel.head? relNot
    additional := OptionRel.head? relAdditional
    allOf := relAllOf
    anyOf := relAnyOf
    oneOf := relOneOf
    properties := Table.Rel.zip relProperties }

end Subschemas

end ApiLinker
