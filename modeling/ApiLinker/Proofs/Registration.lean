import ApiLinker.Proofs.Index
import ApiLinker.Proofs.Pointer
import ApiLinker.Proofs.Table

/-!
Indexes that are made by registering entities one after the other.

Of the entities that were registered under one category and name the last is found, whatever was
registered elsewhere.  An entity is registered in the category of its kind alone, so a look-up
for a category finds entities of that kind (`Index.answersLast_ofRegistrations`).
-/

namespace ApiLinker.Index

/-- The registering of an entity of the graph under a name.  Its kind gives the category. -/
structure Registration (graph : Graph) where
  name : String
  id : EntityId
  entity : Entity
  isEntity : graph.entity? id = some entity

variable {graph : Graph}

def Registration.category (registration : Registration graph) : Category :=
  registration.entity.category

def ofRegistrations (registrations : List (Registration graph)) : Index :=
  registrations.foldl (fun index registration =>
    index.register registration.category registration.name registration.id) {}

/-- What was registered last under a category and a name. -/
def last? (registrations : List (Registration graph)) (category : Category) (name : String) :
    Option (Registration graph) :=
  registrations.reverse.find? fun registration =>
    registration.category = category ∧ registration.name = name

/-- The entity of a category that a reference names, if it is of the kind of the category. -/
def resolveKind (graph : Graph) (index : Index) (category : Category) (reference : Reference) :
    Except Problem EntityId := do
  let id ← index.resolve category reference
  if (graph.entity? id).map Entity.category = some category then return id
  else throw (.notFound category reference)

variable {registrations : List (Registration graph)} {category : Category} {name : String}

theorem entity?_ofRegistrations (registrations : List (Registration graph)) (category : Category)
    (name : String) :
    (ofRegistrations registrations).entity? category name =
      (last? registrations category name).map Registration.id := by
  have entries : (ofRegistrations registrations).entries =
      registrations.foldl (fun table registration => Table.insert
        (registration.category, registration.name) registration.id table) [] :=
    (List.foldl_hom Index.entries fun _ _ => rfl).symm
  rw [entity?, entries, Table.find?_foldl_insert_eq]
  simp [last?, Table.find?]

theorem category_of_last? {registration : Registration graph}
    (isLast : last? registrations category name = some registration) :
    registration.category = category := by
  have found := List.find?_some isLast
  simp only [decide_eq_true_eq] at found
  exact found.1

/-- A look-up for a category finds entities of its kind. -/
theorem kind_of_resolve {reference : Reference} {id : EntityId}
    (resolved : (ofRegistrations registrations).resolve category reference = .ok id) :
    ∃ entity, graph.entity? id = some entity ∧ entity.category = category := by
  have found := (resolve_eq_ok_iff.mp resolved).2
  rw [entity?_ofRegistrations, Option.map_eq_some_iff] at found
  obtain ⟨registration, isLast, rfl⟩ := found
  exact ⟨registration.entity, registration.isEntity, category_of_last? isLast⟩

theorem resolveKind_ofRegistrations (registrations : List (Registration graph))
    (category : Category) (reference : Reference) :
    (ofRegistrations registrations).resolveKind graph category reference =
      (ofRegistrations registrations).resolve category reference := by
  cases resolved : (ofRegistrations registrations).resolve category reference with
  | error problem => simp only [resolveKind, resolved]; rfl
  | ok id =>
      obtain ⟨entity, isEntity, kind⟩ := kind_of_resolve resolved
      simp only [resolveKind, resolved, bind, Except.bind, isEntity, kind, Option.map_some]
      rfl

/-- The reference that is written for a name is looked up by that name. -/
theorem resolve_toComponent (index : Index) (category : Category) (name : String) :
    index.resolve category (.toComponent category name) =
      match index.entity? category name with
      | some id => .ok id
      | none => .error (.notFound category (.toComponent category name)) := by
  cases found : index.entity? category name <;>
    simp [resolve, Reference.category?_toComponent, Reference.isNested_toComponent,
      Reference.identifier_toComponent, found]

/-- The index answers as a table of what was registered last, kind by kind. -/
structure AnswersLast (registrations : List (Registration graph)) (index : Index) : Prop where
  found : ∀ category name registration, last? registrations category name = some registration →
    index.resolveKind graph category (.toComponent category name) = .ok registration.id
  missing : ∀ category name, last? registrations category name = none →
    index.resolveKind graph category (.toComponent category name) =
      .error (.notFound category (.toComponent category name))
  registered : ∀ category name id, index.isRegistered category name id = true ↔
    (last? registrations category name).map Registration.id = some id
  kind : ∀ category reference id, index.resolve category reference = .ok id →
    ∃ entity, graph.entity? id = some entity ∧ entity.category = category
  /-- Looking at the kind of what was found changes no answer. -/
  typed : ∀ category reference,
    index.resolveKind graph category reference = index.resolve category reference
  /-- No reference is written for two names. -/
  apart : ∀ category name other otherName,
    Reference.toComponent category name = .toComponent other otherName →
      category = other ∧ name = otherName

theorem answersLast_ofRegistrations (registrations : List (Registration graph)) :
    AnswersLast registrations (ofRegistrations registrations) where
  found category name registration isLast := by
    rw [resolveKind_ofRegistrations, resolve_toComponent, entity?_ofRegistrations, isLast]
    rfl
  missing category name never := by
    rw [resolveKind_ofRegistrations, resolve_toComponent, entity?_ofRegistrations, never]
    rfl
  registered category name id := by
    rw [isRegistered, entity?_ofRegistrations, beq_iff_eq]
  kind _ _ _ := kind_of_resolve
  typed := resolveKind_ofRegistrations registrations
  apart _ _ _ _ := Reference.toComponent_injective

end ApiLinker.Index
