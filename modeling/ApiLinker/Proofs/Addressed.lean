import ApiLinker.Proofs.Registration

/-!
What a reference under `components` can name.

A look-up for a category finds the object that the reference names there: `components`, the key of
the category, the name (`Reference.NamesComponent`).  It also finds objects for references that name
none, because a second segment that is no category's key counts as no category, and a third segment
that is missing counts as the empty name (`Reference.Strays`).  Nothing else is found
(`Index.resolve_under_components`).
-/

namespace ApiLinker

namespace Reference

/-- The fragment is `components`, the key of the category and one segment, which is the name. -/
def NamesComponent (reference : Reference) (category : Category) (name : String) : Prop :=
  ∃ segment, reference.segments = ["components", category.key, segment] ∧
    Pointer.unescape segment = name

/-- The fragment is not that of a component, but it has the name in the place of one and names no
other category. -/
inductive Strays (reference : Reference) (category : Category) : (name : String) → Prop where
  | unknownKey {key segment : String} (shape : reference.segments = ["components", key, segment])
      (unknown : Category.ofKey? key = none) : Strays reference category (Pointer.unescape segment)
  | unnamed {key : String} (shape : reference.segments = ["components", key])
      (fits : ∀ other, Category.ofKey? key = some other → other = category) :
      Strays reference category ""
  | bare (shape : reference.segments = ["components"]) : Strays reference category ""

section

variable {reference : Reference} {category : Category} {name : String} {rest : List String}

theorem identifier_under_components (under : reference.segments = "components" :: rest) :
    reference.identifier = Pointer.unescape (rest[1]?.getD "") := by
  simp [identifier, under]

theorem category?_under_components (under : reference.segments = "components" :: rest) :
    reference.category? = rest.head?.bind Category.ofKey? := by
  cases rest <;> simp [category?, under]

theorem isNested_under_components (under : reference.segments = "components" :: rest) :
    reference.isNested = decide (2 < rest.length) := by
  match rest with
  | [] | [_] | [_, _] | _ :: _ :: _ :: _ => simp [isNested, under]

/-- A reference that names a component, or strays, has at most two segments after `components`, and
the first is not the key of another category. -/
theorem namesComponent_or_strays_iff (under : reference.segments = "components" :: rest) :
    reference.NamesComponent category name ∨ reference.Strays category name ↔
      (rest.length ≤ 2 ∧
        ∀ other, rest.head?.bind Category.ofKey? = some other → other = category) ∧
      Pointer.unescape (rest[1]?.getD "") = name := by
  constructor
  · rintro (⟨segment, shape, rfl⟩ | strays)
    · obtain rfl : rest = [category.key, segment] := by simpa [under] using shape
      simp [Category.ofKey?_key]
    · cases strays with
      | @unknownKey key segment shape unknown =>
          obtain rfl : rest = [key, segment] := by simpa [under] using shape
          simp [unknown]
      | @unnamed key shape fits =>
          obtain rfl : rest = [key] := by simpa [under] using shape
          exact ⟨⟨by simp, by simpa using fits⟩, rfl⟩
      | bare shape =>
          obtain rfl : rest = [] := by simpa [under] using shape
          exact ⟨by simp, rfl⟩
  · rintro ⟨⟨few, fits⟩, rfl⟩
    match rest with
    | [] => exact .inr (.bare under)
    | [key] => exact .inr (.unnamed under (by simpa using fits))
    | [key, segment] =>
        cases known : Category.ofKey? key with
        | none => exact .inr (.unknownKey under known)
        | some other =>
            obtain rfl : other = category := fits other (by simpa using known)
            exact .inl ⟨segment, by rw [under, Category.key_of_ofKey? known], rfl⟩
    | _ :: _ :: _ :: _ => simp at few

end

end Reference

namespace Index

/-- Under `components` a look-up for a category finds what is registered for the category under the
name of a reference that names a component of it, or strays. -/
theorem resolve_under_components (index : Index) (category : Category) {reference : Reference}
    {rest : List String} (under : reference.segments = "components" :: rest) (id : EntityId) :
    index.resolve category reference = .ok id ↔
      ∃ name, (reference.NamesComponent category name ∨ reference.Strays category name) ∧
        index.isRegistered category name id = true := by
  have addresses : Addresses category reference ↔ rest.length ≤ 2 ∧
      ∀ other, rest.head?.bind Category.ofKey? = some other → other = category := by
    rw [Addresses, Reference.category?_under_components under,
      Reference.isNested_under_components under]
    cases rest.head?.bind Category.ofKey? <;> simp [and_comm]
  rw [resolve_eq_ok_iff, addresses, Reference.identifier_under_components under]
  simp [Reference.namesComponent_or_strays_iff under, isRegistered]

/-- The only entity is the parameter `limit`. -/
def limiting : Graph :=
  { entities := #[.parameter (.ofLocation "limit" .query)] }

def registerLimit : Registration limiting :=
  { name := "limit", id := 0, entity := .parameter (.ofLocation "limit" .query), isEntity := rfl }

theorem resolve_under_components_limit :
    ({ pointer := "#/components/parameters/limit" } : Reference).segments =
        ["components", "parameters", "limit"] ∧
      (ofRegistrations [registerLimit]).resolve .parameters
        { pointer := "#/components/parameters/limit" } = .ok 0 := by
  have under : ({ pointer := "#/components/parameters/limit" } : Reference).segments =
      ["components", "parameters", "limit"] := by decide
  exact ⟨under, (resolve_under_components _ _ under _).mpr
    ⟨"limit", .inl ⟨"limit", under, rfl⟩, by decide⟩⟩

/-- A parameter is found under the key `widgets`, which is that of no category. -/
theorem resolve_unknownKey :
    ¬ ∀ (registrations : List (Registration limiting)) (category : Category)
      (reference : Reference) (id : EntityId), reference.isExternal = false →
        reference.segments.head? = some "components" →
        (ofRegistrations registrations).resolve category reference = .ok id →
        ∃ name, reference.NamesComponent category name ∧
          (ofRegistrations registrations).isRegistered category name id = true := by
  intro onlyNamed
  obtain ⟨name, ⟨segment, shape, -⟩, -⟩ := onlyNamed [registerLimit] .parameters
    { pointer := "#/components/widgets/limit" } 0 (by decide) (by decide) (by decide)
  revert shape
  rw [show ({ pointer := "#/components/widgets/limit" } : Reference).segments =
    ["components", "widgets", "limit"] by decide]
  simp [Category.key]

end Index

end ApiLinker
