import ApiLinker.Proofs.Rules
import ApiLinker.Proofs.Schema.Sharing
import ApiLinker.Proofs.Simulation

/-!
Expansion with notes.

The noting versions of expansion do what expansion does and also note which registered schemas they
resolve and whether they come to their bound.  But for the notes they are expansion
(`Noting.Erases`).
-/

namespace ApiLinker

inductive Note where
  /-- The schema registered under a locator is about to be resolved. -/
  | resolves (locator : String)
  /-- A pointer is not followed because as many as may be are being followed already. -/
  | givesUp

abbrev Noting (σ : Type) := StateM (σ × List Note)

namespace Noting

variable {σ α β τ υ : Type}

/-- An action that notes nothing. -/
def lift (action : StateM σ α) : Noting σ α := fun (state, notes) =>
  ((action state).1, (action state).2, notes)

def note (note : Note) : Noting σ Unit := fun (state, notes) =>
  ((), state, notes ++ [note])

/-- But for its notes, one action is the other. -/
def Erases (noting : Noting σ α) (plain : StateM σ α) : Prop :=
  ∀ state notes, ∃ later, noting (state, notes) = ((plain state).1, (plain state).2, later)

theorem erases_lift (action : StateM σ α) : Erases (lift action) action :=
  fun _ notes => ⟨notes, rfl⟩

theorem erases_pure (value : α) : Erases (σ := σ) (pure value) (pure value) :=
  fun _ notes => ⟨notes, rfl⟩

theorem erases_iff_simulates {noting : Noting σ α} {plain : StateM σ α} :
    Erases noting plain ↔ Simulates (fun noted state => noted.1 = state) noting plain := by
  constructor
  · rintro erases ⟨state, notes⟩ _ rfl
    obtain ⟨later, ran⟩ := erases state notes
    rw [ran]
    exact ⟨rfl, rfl⟩
  · intro simulates state notes
    obtain ⟨same, after⟩ := simulates (state, notes) state rfl
    exact ⟨(noting (state, notes)).2.2, Prod.ext same (Prod.ext after rfl)⟩

theorem Erases.bind {noting : Noting σ α} {plain : StateM σ α} {next : α → Noting σ β}
    {plainNext : α → StateM σ β} (first : Erases noting plain)
    (rest : ∀ value, Erases (next value) (plainNext value)) :
    Erases (noting >>= next) (plain >>= plainNext) :=
  erases_iff_simulates.mpr <| (erases_iff_simulates.mp first).bind fun value =>
    erases_iff_simulates.mp (rest value)

/-- A note leaves no trace in what is done. -/
theorem Erases.after_note {noting : Noting σ α} {plain : StateM σ α} (erases : Erases noting plain)
    (text : Note) : Erases (do note text; noting) plain :=
  fun state notes => erases state (notes ++ [text])

theorem Erases.map {noting : Noting σ α} {plain : StateM σ α} (erases : Erases noting plain)
    (change : α → β) : Erases (change <$> noting) (change <$> plain) :=
  erases.bind fun value => erases_pure (change value)

theorem erases_mapM {noting : α → Noting σ β} {plain : α → StateM σ β}
    (each : ∀ item, Erases (noting item) (plain item)) (items : List α) :
    Erases (items.mapM noting) (items.mapM plain) :=
  erases_iff_simulates.mpr <| .mapM fun item _ => erases_iff_simulates.mp (each item)

theorem erases_mapVisits {noting : Slot → τ → Noting σ υ} {plain : Slot → τ → StateM σ υ}
    {children : Subschemas τ}
    (each : ∀ slot, ∀ child ∈ children.list, Erases (noting slot child) (plain slot child)) :
    Erases (children.mapVisits noting) (children.mapVisits plain) :=
  erases_iff_simulates.mpr <| .mapVisits fun slot child member =>
    erases_iff_simulates.mp (each slot child member)

end Noting

namespace Schema

open Expanding Noting

def expandNoting (follow : List String → String → Noting Expansion (Option Schema)) :
    Schema → (path : List String) → Noting Expansion Schema :=
  recurse fun schema body path => do
    match body.reference with
    | some pointer =>
        match ← follow path pointer with
        | some target =>
            lift (modify fun state => { state with replaced := state.replaced + 1 })
            return target
        | none => return schema
    | none =>
        let children ← body.children.mapVisits fun slot expand => expand (path ++ slot.segments)
        if sameObjects schema.body.children children then return schema
        else lift (addNode (schema.body.rebuild children))

def expandNamedNoting (follow : List String → String → Noting Expansion (Option Schema))
    (locator : String) (schema : Schema) (path : List String) : Noting Expansion Schema := do
  match ← lift (expanded? locator) with
  | some known => return known
  | none =>
      note (.resolves locator)
      let expansion ← schema.expandNoting follow path
      lift (store locator expansion)
      return expansion

end Schema

namespace Lookup

open Expanding Noting

def followNoting (lookup : Lookup) :
    (depth : Nat) → (path : List String) → (pointer : String) → Noting Expansion (Option Schema)
  | 0, _, _ => do
      note .givesUp
      return none
  | depth + 1, path, pointer => do
      if Reference.isExternal { pointer } then
        if lookup.strict then lift (report path (.externalSchema pointer))
        return none
      let locator := Locator.ofPointer lookup.authority pointer
      if lookup.links.isCyclic locator then return none
      match ← lift (expanded? locator) with
      | some known => return some known
      | none =>
          match lookup.registry.get? locator with
          | none =>
              lift (report path (.schemaNotFound pointer locator))
              return none
          | some schema => some <$> schema.expandNamedNoting (lookup.followNoting depth) locator path

end Lookup

namespace Schema

open Noting

variable {follow : List String → String → Expanding (Option Schema)}
variable {noting : List String → String → Noting Expansion (Option Schema)}

theorem expandNoting_pointer {id : Nat} {body : SchemaBody Schema} {pointer : String}
    (points : body.reference = some pointer) (path : List String) :
    expandNoting noting (.node id body) path = (do
      match ← noting path pointer with
      | some target =>
          lift (modify fun state => { state with replaced := state.replaced + 1 })
          return target
      | none => return .node id body) := by
  rw [expandNoting, recurse_node]
  split
  · rename_i other found
    rw [SchemaBody.reference_map, points] at found
    cases found
    rfl
  · rename_i missing
    rw [SchemaBody.reference_map, points] at missing
    cases missing

theorem expandNoting_plain {id : Nat} {body : SchemaBody Schema} (plain : body.reference = none)
    (path : List String) :
    expandNoting noting (.node id body) path = (do
      let children ← body.children.mapVisits fun slot child =>
        expandNoting noting child (path ++ slot.segments)
      if sameObjects body.children children then return .node id body
      else lift (Expanding.addNode (body.rebuild children))) := by
  rw [expandNoting, recurse_node]
  simp only [SchemaBody.reference_map, plain, SchemaBody.children_map, Subschemas.mapVisits_map]
  rfl

/-- A schema is resolved for a locator unless an expansion is stored there, and this is noted. -/
theorem expandNamedNoting_eq (locator : String) (schema : Schema) (path : List String)
    (state : Expansion) (notes : List Note) :
    schema.expandNamedNoting noting locator path (state, notes) =
      match Table.find? locator state.expanded with
      | some known => (known, state, notes)
      | none =>
          (do
            let expansion ← schema.expandNoting noting path
            lift (Expanding.store locator expansion)
            return expansion : Noting Expansion Schema) (state, notes ++ [.resolves locator]) := by
  cases known : Table.find? locator state.expanded <;>
    simp only [expandNamedNoting, Expanding.expanded?, lift, bind, StateT.bind, known] <;> rfl

theorem erases_expandNoting (followed : ∀ path pointer, Erases (noting path pointer)
    (follow path pointer)) (schema : Schema) (path : List String) :
    Erases (schema.expandNoting noting path) (schema.expandWith follow path) := by
  induction schema using induct generalizing path with
  | node id body ih =>
      cases points : body.reference with
      | some pointer =>
          rw [expandNoting_pointer points, expandWith_pointer points]
          refine (followed path pointer).bind fun result => ?_
          cases result with
          | none => exact erases_pure _
          | some target => exact (erases_lift _).bind fun _ => erases_pure _
      | none =>
          rw [expandNoting_plain points, expandWith_plain points]
          refine (erases_mapVisits fun slot child member =>
            ih child member (path ++ slot.segments)).bind fun children => ?_
          split
          · exact erases_pure _
          · exact erases_lift _

theorem erases_expandNamedNoting (followed : ∀ path pointer, Erases (noting path pointer)
    (follow path pointer)) (locator : String) (schema : Schema) (path : List String) :
    Erases (schema.expandNamedNoting noting locator path)
      (schema.expandNamedWith follow locator path) := by
  refine (erases_lift _).bind fun found => ?_
  cases found with
  | some known => exact erases_pure known
  | none =>
      refine ((erases_expandNoting followed schema path).bind fun expansion => ?_).after_note _
      exact (erases_lift _).bind fun _ => erases_pure expansion

end Schema

namespace Lookup

open Noting

theorem erases_followNoting (lookup : Lookup) (depth : Nat) (path : List String)
    (pointer : String) :
    Erases (lookup.followNoting depth path pointer) (lookup.follow depth path pointer) := by
  induction depth generalizing path pointer with
  | zero => exact (erases_pure none).after_note _
  | succ depth ih =>
      simp only [followNoting, follow]
      split
      · split
        · exact (erases_lift _).bind fun _ => erases_pure none
        · exact erases_pure none
      · split
        · exact erases_pure none
        · refine (erases_lift _).bind fun found => ?_
          cases found with
          | some known => exact erases_pure _
          | none =>
              cases lookup.registry.get? (Locator.ofPointer lookup.authority pointer) with
              | none => exact (erases_lift _).bind fun _ => erases_pure none
              | some schema => exact (Schema.erases_expandNamedNoting ih _ schema path).map some

end Lookup

end ApiLinker
