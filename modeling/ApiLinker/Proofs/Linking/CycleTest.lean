import ApiLinker.Proofs.Schema.Reach

/-!
The cycle test decides reachability.

Locators are linked by the pointers anywhere in the schemas that are registered under them, and a
locator is cyclic when a path of one or more links leads from it back to it.  The test remembers its
answers.  Whatever has been asked before, an answer that it remembers is the one that the search
gives.
-/

namespace ApiLinker

namespace Schema

/-- The node is the schema itself or lies somewhere beneath one of its keywords. -/
inductive OccursIn (node : Schema) : Schema → Prop where
  | self : OccursIn node node
  | items {schema child : Schema} (held : schema.body.items = some child)
      (inside : OccursIn node child) : OccursIn node schema
  | not {schema child : Schema} (held : schema.body.not = some child)
      (inside : OccursIn node child) : OccursIn node schema
  | additional {schema child : Schema} (held : schema.body.additional = .schema child)
      (inside : OccursIn node child) : OccursIn node schema
  | allOf {schema child : Schema} (member : child ∈ schema.body.allOf)
      (inside : OccursIn node child) : OccursIn node schema
  | anyOf {schema child : Schema} (member : child ∈ schema.body.anyOf)
      (inside : OccursIn node child) : OccursIn node schema
  | oneOf {schema child : Schema} (member : child ∈ schema.body.oneOf)
      (inside : OccursIn node child) : OccursIn node schema
  | property {schema child : Schema} {name : String}
      (member : (name, child) ∈ schema.body.properties)
      (inside : OccursIn node child) : OccursIn node schema

theorem occursIn_of_child {node child : Schema} {id : Nat} {body : SchemaBody Schema}
    (isChild : child ∈ body.children.list) (inside : OccursIn node child) :
    OccursIn node (.node id body) := by
  simp only [Subschemas.list_eq, SchemaBody.children, List.mem_append, List.mem_map,
    Option.mem_toList] at isChild
  rcases isChild with (((((held | held) | held) | member) | member) | member) | member
  · exact .items held inside
  · exact .not held inside
  · have isSchema : body.additional = .schema child := by
      cases additional : body.additional <;> simp_all [Additional.schema?]
    exact .additional isSchema inside
  · exact .allOf member inside
  · exact .anyOf member inside
  · exact .oneOf member inside
  · obtain ⟨⟨name, _⟩, member, rfl⟩ := member
    exact .property member inside

theorem child_of_occursIn {node : Schema} : ∀ {schema : Schema}, OccursIn node schema →
    node = schema ∨ ∃ child ∈ schema.body.children.list, OccursIn node child := by
  rintro schema (_ | ⟨held, inside⟩ | ⟨held, inside⟩ | ⟨held, inside⟩ | ⟨member, inside⟩ |
    ⟨member, inside⟩ | ⟨member, inside⟩ | ⟨member, inside⟩)
  · exact .inl rfl
  all_goals
    refine .inr ⟨_, ?_, inside⟩
    simp_all [Subschemas.list_eq, SchemaBody.children, Additional.schema?]
  exact .inr (.inr (.inr (.inr (.inr (.inr ⟨_, member⟩)))))

theorem occursIn_iff {node schema : Schema} : OccursIn node schema ↔ node ∈ schema.nodes := by
  induction schema using induct with
  | node id body ih =>
      rw [mem_nodes_node]
      constructor
      · intro inside
        refine (child_of_occursIn inside).imp_right ?_
        rintro ⟨child, isChild, inside⟩
        exact ⟨child, isChild, (ih child isChild).mp inside⟩
      · rintro (rfl | ⟨child, isChild, inside⟩)
        · exact .self
        · exact occursIn_of_child isChild ((ih child isChild).mpr inside)

/-- The pointers of a schema are those of its nodes. -/
theorem mem_pointers_iff {pointer : String} {schema : Schema} :
    pointer ∈ schema.pointers ↔
      ∃ node, OccursIn node schema ∧ node.body.reference = some pointer := by
  simp only [occursIn_iff]
  constructor
  · intro member
    induction schema using induct with
    | node id body ih =>
        rcases mem_pointers_node.mp member with own | ⟨child, isChild, within⟩
        · exact ⟨_, self_mem_nodes _, own⟩
        · obtain ⟨node, inside, points⟩ := ih child isChild within
          exact ⟨node, mem_nodes_node.mpr (.inr ⟨child, isChild, inside⟩), points⟩
  · rintro ⟨⟨id, body⟩, inside, points⟩
    exact pointers_of_mem_nodes inside (mem_pointers_node.mpr (.inl points))

end Schema

namespace Lookup

variable {lookup : Lookup}

/-- A schema is registered under the one locator, and the other is the locator of a local pointer
that a node in that schema holds. -/
def PointsTo (lookup : Lookup) (source target : String) : Prop :=
  ∃ (schema node : Schema) (pointer : String),
    lookup.registry.get? source = some schema ∧ node.OccursIn schema ∧
      node.body.reference = some pointer ∧ Reference.isExternal { pointer } = false ∧
      Locator.ofPointer lookup.authority pointer = target

theorem pointsTo_eq (lookup : Lookup) : lookup.PointsTo = lookup.Leads := by
  funext source target
  simp only [PointsTo, Leads, Schema.mem_pointers_iff, eq_iff_iff]
  constructor
  · rintro ⟨schema, node, pointer, registered, inside, points, leads⟩
    exact ⟨schema, registered, pointer, ⟨node, inside, points⟩, leads⟩
  · rintro ⟨schema, registered, pointer, ⟨node, inside, points⟩, leads⟩
    exact ⟨schema, node, pointer, registered, inside, points, leads⟩

end Lookup

namespace LocatorGraph

/-- Every answer kept is the one that the search gives. -/
def Truthful (links : LocatorGraph) (answers : Table Bool) : Prop :=
  ∀ locator answer, Table.find? locator answers = some answer → links.isCyclic locator = answer

variable {links : LocatorGraph} {answers : Table Bool}

theorem test_fst (truthful : Truthful links answers) (locator : String) :
    (links.test locator answers).1 = links.isCyclic locator := by
  cases known : Table.find? locator answers with
  | some answer => simp [test, known, truthful locator answer known]
  | none => simp [test, known]

theorem test_snd (truthful : Truthful links answers) (locator : String) :
    Truthful links (links.test locator answers).2 := by
  cases known : Table.find? locator answers with
  | some answer => simpa [test, known] using truthful
  | none =>
      intro other answer kept
      simp [test, known] at kept
      by_cases same : other = locator
      · rw [same, Table.find?_insert_self] at kept
        rw [same]
        exact Option.some.inj kept
      · rw [Table.find?_insert_of_ne same] at kept
        exact truthful other answer kept

/-- All tests together, one after the other. -/
theorem truthful_mapM (truthful : Truthful links answers) (earlier : List String) :
    Truthful links (earlier.mapM links.test answers).2 := by
  induction earlier generalizing answers with
  | nil => exact truthful
  | cons locator rest ih =>
      rw [List.mapM_cons]
      exact ih (test_snd truthful locator)

end LocatorGraph

/-- Whatever was asked before, the test gives the answer of the search, which is `true` if and only
if one or more links lead from the locator back to it. -/
theorem Lookup.test_iff_transGen (registry : Registry) (settings : Settings)
    (earlier : List String) (locator : String) :
    let lookup := Lookup.ofRegistry registry settings
    let answers := (earlier.mapM lookup.links.test []).2
    (lookup.links.test locator answers).1 = lookup.links.isCyclic locator ∧
      ((lookup.links.test locator answers).1 = true ↔
        Relation.TransGen lookup.PointsTo locator locator) := by
  intro lookup answers
  have nothing : LocatorGraph.Truthful lookup.links [] := fun _ _ kept => by cases kept
  have answer := LocatorGraph.test_fst (LocatorGraph.truthful_mapM nothing earlier) locator
  refine ⟨answer, ?_⟩
  rw [answer, lookup.pointsTo_eq]
  exact isCyclic_iff (linked_ofRegistry registry settings)

end ApiLinker
