import ApiLinker.Index

/-!
What an index knows.

Categories do not meet: the entries of one are those of its own table.  Of the aliases of a table
those are registered that can be resolved in the end, and nothing is registered that definitions
and aliases do not force.
-/

namespace ApiLinker.Index

variable {index other : Index} {category : Category} {name : String} {target : EntityId}

def Knows (index : Index) (category : Category) (name : String) : Prop :=
  ∃ target, index.entity? category name = some target

/-- The reference may name an object of the category, by its identifier. -/
def Addresses (category : Category) (reference : Reference) : Prop :=
  reference.category?.any (· != category) = false ∧ reference.isNested = false

theorem resolve_eq_ok_iff {reference : Reference} :
    index.resolve category reference = .ok target ↔
      Addresses category reference ∧
        index.entity? category reference.identifier = some target := by
  rw [resolve, Addresses]
  cases reference.category?.any (· != category) with
  | true => simp
  | false =>
      cases reference.isNested with
      | true => simp
      | false => cases index.entity? category reference.identifier <;> simp

theorem resolve_error_of_knows {reference : Reference} {problem : Problem}
    (knows : ∀ name, other.Knows category name → index.Knows category name)
    (failed : index.resolve category reference = .error problem) :
    ∃ problem, other.resolve category reference = .error problem := by
  cases resolved : other.resolve category reference with
  | error problem => exact ⟨problem, rfl⟩
  | ok target =>
      have addressed := resolve_eq_ok_iff.mp resolved
      obtain ⟨known, found⟩ := knows _ ⟨target, addressed.2⟩
      have same := resolve_eq_ok_iff.mpr ⟨addressed.1, found⟩
      rw [failed] at same
      cases same

theorem entity?_register_self (index : Index) (category : Category) (name : String)
    (target : EntityId) :
    (index.register category name target).entity? category name = some target :=
  Table.find?_insert_self _ _ _

theorem entity?_register_of_ne {otherCategory : Category} {otherName : String}
    (different : (otherCategory, otherName) ≠ (category, name)) (target : EntityId) :
    (index.register category name target).entity? otherCategory otherName =
      index.entity? otherCategory otherName :=
  Table.find?_insert_of_ne different _ _

theorem Knows.register (known : index.Knows category name) (otherName : String)
    (target : EntityId) :
    (index.register category otherName target).Knows category name := by
  by_cases same : name = otherName
  · subst same
    exact ⟨target, entity?_register_self _ _ _ _⟩
  · obtain ⟨old, found⟩ := known
    exact ⟨old, by rw [entity?_register_of_ne (by simp [same]), found]⟩

section

/-! Passes over aliases. -/

variable {aliases : List (String × Reference)}

theorem settleOnce_knows (known : index.Knows category name) :
    (settleOnce category index aliases).1.Knows category name := by
  induction aliases generalizing index with
  | nil => exact known
  | cons entry rest ih =>
      rw [settleOnce]
      split
      · exact ih (known.register _ _)
      · exact ih known

theorem settleOnce_left_le (category : Category) (index : Index)
    (aliases : List (String × Reference)) :
    (settleOnce category index aliases).2.length ≤ aliases.length := by
  induction aliases generalizing index with
  | nil => exact Nat.le_refl _
  | cons entry rest ih =>
      rw [settleOnce]
      split
      · exact Nat.le_succ_of_le (ih _)
      · exact Nat.succ_le_succ (ih _)

theorem settleOnce_mem (category : Category) (index : Index) {entry : String × Reference}
    (member : entry ∈ aliases) :
    entry ∈ (settleOnce category index aliases).2 ∨
      (settleOnce category index aliases).1.Knows category entry.1 := by
  induction aliases generalizing index with
  | nil => cases member
  | cons first rest ih =>
      rw [settleOnce]
      split
      · rename_i target _
        rcases List.mem_cons.mp member with rfl | later
        · exact .inr (settleOnce_knows ⟨target, entity?_register_self _ _ _ _⟩)
        · exact ih _ later
      · rcases List.mem_cons.mp member with rfl | later
        · exact .inl List.mem_cons_self
        · exact (ih _ later).imp_left (List.mem_cons_of_mem _)

/-- A pass that settles nothing has found nothing that resolves. -/
theorem settleOnce_idle
    (idle : (settleOnce category index aliases).2.length = aliases.length) :
    (settleOnce category index aliases).1 = index ∧
      ∀ entry ∈ aliases, ∃ problem, index.resolve category entry.2 = .error problem := by
  induction aliases generalizing index with
  | nil => exact ⟨rfl, fun _ member => by cases member⟩
  | cons first rest ih =>
      rw [settleOnce] at idle ⊢
      split at idle
      · rename_i target _
        have fewer := settleOnce_left_le category (index.register category first.1 target) rest
        simp only [List.length_cons] at idle
        omega
      · rename_i problem failed
        have later := ih (Nat.succ.inj idle)
        refine ⟨later.1, fun entry member => ?_⟩
        rcases List.mem_cons.mp member with rfl | inRest
        · exact ⟨problem, failed⟩
        · exact later.2 entry inRest

theorem settle_succ (category : Category) (limit : Nat) (index : Index)
    (aliases : List (String × Reference)) :
    settle category (limit + 1) index aliases =
      if (settleOnce category index aliases).2.length = aliases.length then
        (settleOnce category index aliases).1
      else settle category limit (settleOnce category index aliases).1
        (settleOnce category index aliases).2 :=
  rfl

theorem settle_knows {limit : Nat} (known : index.Knows category name) :
    (settle category limit index aliases).Knows category name := by
  induction limit generalizing index aliases with
  | zero => exact known
  | succ limit ih =>
      rw [settle_succ]
      split
      · exact settleOnce_knows known
      · exact ih (settleOnce_knows known)

/-- With a pass for each alias, every alias that resolves in the end is registered. -/
theorem settle_closed {limit : Nat} (enough : aliases.length ≤ limit)
    {entry : String × Reference} (member : entry ∈ aliases)
    (resolved : (settle category limit index aliases).resolve category entry.2 = .ok target) :
    (settle category limit index aliases).Knows category entry.1 := by
  induction limit generalizing index aliases with
  | zero =>
      have none : aliases = [] := List.eq_nil_of_length_eq_zero (Nat.le_zero.mp enough)
      rw [none] at member
      cases member
  | succ limit ih =>
      rw [settle_succ] at resolved ⊢
      split at resolved
      · rename_i idle
        obtain ⟨same, failing⟩ := settleOnce_idle idle
        obtain ⟨problem, failed⟩ := failing entry member
        rw [same, failed] at resolved
        cases resolved
      · rename_i active
        simp only [active, ↓reduceIte]
        have fewer := settleOnce_left_le category index aliases
        rcases settleOnce_mem category index member with left | known
        · exact ih (by omega) left resolved
        · exact settle_knows known

variable {K : String → EntityId → Prop}

theorem settleOnce_least
    (start : ∀ name target, index.entity? category name = some target → K name target)
    (closed : ∀ entry ∈ aliases, ∀ target, Addresses category entry.2 →
      K entry.2.identifier target → K entry.1 target) :
    ∀ name target, (settleOnce category index aliases).1.entity? category name = some target →
      K name target := by
  induction aliases generalizing index with
  | nil => exact start
  | cons first rest ih =>
      have closedRest := fun entry member => closed entry (List.mem_cons_of_mem first member)
      rw [settleOnce]
      split
      · rename_i found resolved
        have addressed := resolve_eq_ok_iff.mp resolved
        refine ih (fun name target known => ?_) closedRest
        by_cases same : name = first.1
        · subst same
          rw [entity?_register_self] at known
          cases known
          exact closed first List.mem_cons_self found addressed.1 (start _ _ addressed.2)
        · rw [entity?_register_of_ne (by simp [same])] at known
          exact start name target known
      · exact ih start closedRest

theorem settleOnce_left_subset {entry : String × Reference}
    (left : entry ∈ (settleOnce category index aliases).2) : entry ∈ aliases := by
  induction aliases generalizing index with
  | nil => cases left
  | cons first rest ih =>
      rw [settleOnce] at left
      split at left
      · exact List.mem_cons_of_mem _ (ih left)
      · rcases List.mem_cons.mp left with rfl | later
        · exact List.mem_cons_self
        · exact List.mem_cons_of_mem _ (ih later)

/-- What holds of the entries at first, and goes over from an alias's target to the alias, holds of
all entries in the end. -/
theorem settle_least {limit : Nat}
    (start : ∀ name target, index.entity? category name = some target → K name target)
    (closed : ∀ entry ∈ aliases, ∀ target, Addresses category entry.2 →
      K entry.2.identifier target → K entry.1 target) :
    ∀ name target, (settle category limit index aliases).entity? category name = some target →
      K name target := by
  induction limit generalizing index aliases with
  | zero => exact start
  | succ limit ih =>
      have once := settleOnce_least start closed
      rw [settle_succ]
      split
      · exact once
      · exact ih once fun entry left => closed entry (settleOnce_left_subset left)

end

section

/-! The entries of one category. -/

variable {entries : Table Edge} {otherCategory : Category}

theorem entity?_settleOnce_of_ne (different : otherCategory ≠ category) (name : String)
    (index : Index) (aliases : List (String × Reference)) :
    (settleOnce category index aliases).1.entity? otherCategory name =
      index.entity? otherCategory name := by
  induction aliases generalizing index with
  | nil => rfl
  | cons first rest ih =>
      rw [settleOnce]
      split
      · rw [ih, entity?_register_of_ne (by simp [different])]
      · exact ih index

theorem entity?_settle_of_ne (different : otherCategory ≠ category) (name : String) (limit : Nat)
    (index : Index) (aliases : List (String × Reference)) :
    (settle category limit index aliases).entity? otherCategory name =
      index.entity? otherCategory name := by
  induction limit generalizing index aliases with
  | zero => rfl
  | succ limit ih =>
      rw [settle_succ]
      split
      · exact entity?_settleOnce_of_ne different name index aliases
      · rw [ih, entity?_settleOnce_of_ne different]

def registerDefinitions (index : Index) (category : Category) (definitions : Table EntityId) :
    Index :=
  definitions.foldl (fun index entry => index.register category entry.1 entry.2) index

theorem entity?_registerDefinitions_of_ne (different : otherCategory ≠ category) (name : String)
    (index : Index) (definitions : Table EntityId) :
    (index.registerDefinitions category definitions).entity? otherCategory name =
      index.entity? otherCategory name := by
  induction definitions generalizing index with
  | nil => rfl
  | cons first rest ih =>
      have later := ih (index.register category first.1 first.2)
      rwa [entity?_register_of_ne (by simp [different])] at later

theorem registerDefinitions_knows {definitions : Table EntityId}
    (known : index.Knows category name ∨ ∃ entry ∈ definitions, entry.1 = name) :
    (index.registerDefinitions category definitions).Knows category name := by
  induction definitions generalizing index with
  | nil =>
      rcases known with known | ⟨_, member, _⟩
      · exact known
      · cases member
  | cons first rest ih =>
      change ((index.register category first.1 first.2).registerDefinitions category rest).Knows
        category name
      refine ih ?_
      rcases known with known | ⟨entry, member, rfl⟩
      · exact .inl (known.register _ _)
      · rcases List.mem_cons.mp member with rfl | later
        · exact .inl ⟨entry.2, entity?_register_self _ _ _ _⟩
        · exact .inr ⟨entry, later, rfl⟩

theorem registerDefinitions_least {K : String → EntityId → Prop} {definitions : Table EntityId}
    (start : ∀ name target, index.entity? category name = some target → K name target)
    (defined : ∀ entry ∈ definitions, K entry.1 entry.2) :
    ∀ name target,
      (index.registerDefinitions category definitions).entity? category name = some target →
        K name target := by
  induction definitions generalizing index with
  | nil => exact start
  | cons first rest ih =>
      change ∀ name target,
        ((index.register category first.1 first.2).registerDefinitions category rest).entity?
          category name = some target → K name target
      refine ih (fun name target found => ?_)
        fun entry member => defined entry (List.mem_cons_of_mem _ member)
      by_cases same : name = first.1
      · subst same
        rw [entity?_register_self] at found
        cases found
        exact defined first List.mem_cons_self
      · rw [entity?_register_of_ne (by simp [same])] at found
        exact start name target found

theorem registerAll_eq (index : Index) (category : Category) (entries : Table Edge) :
    index.registerAll category entries =
      settle category (aliases entries).length
        (index.registerDefinitions category (definitions entries)) (aliases entries) :=
  rfl

theorem mem_definitions {entry : String × EntityId} :
    entry ∈ definitions entries ↔
      ∃ edge, (entry.1, edge) ∈ entries ∧ edge.target? = some entry.2 := by
  simp only [definitions, List.mem_filterMap, Option.map_eq_some_iff]
  constructor
  · intro defined
    obtain ⟨⟨name, edge⟩, member, target, found, rfl⟩ := defined
    exact ⟨edge, member, found⟩
  · intro defined
    obtain ⟨edge, member, found⟩ := defined
    exact ⟨(entry.1, edge), member, entry.2, found, rfl⟩

theorem mem_aliases {entry : String × Reference} :
    entry ∈ aliases entries ↔
      (entry.1, .placeholder entry.2) ∈ entries ∧ entry.2.isExternal = false := by
  simp only [aliases, List.mem_filterMap]
  constructor
  · intro aliased
    obtain ⟨⟨name, edge⟩, member, isAlias⟩ := aliased
    cases edge with
    | linked | inline => cases isAlias
    | placeholder reference =>
        cases isLocal : reference.isExternal <;> simp only [isLocal] at isAlias <;> cases isAlias
        exact ⟨member, isLocal⟩
  · intro aliased
    obtain ⟨member, isLocal⟩ := aliased
    exact ⟨_, member, by simp [isLocal]⟩

theorem entity?_registerAll_of_ne (different : otherCategory ≠ category) (name : String)
    (index : Index) (entries : Table Edge) :
    (index.registerAll category entries).entity? otherCategory name =
      index.entity? otherCategory name := by
  rw [registerAll_eq, entity?_settle_of_ne different, entity?_registerDefinitions_of_ne different]

theorem registerAll_knows_definition {edge : Edge} (member : (name, edge) ∈ entries)
    (defined : edge.target? = some target) :
    (index.registerAll category entries).Knows category name := by
  have isDefinition : (name, target) ∈ definitions entries :=
    mem_definitions.mpr ⟨edge, member, defined⟩
  exact settle_knows (registerDefinitions_knows (.inr ⟨_, isDefinition, rfl⟩))

theorem registerAll_knows_alias {reference : Reference}
    (member : (name, .placeholder reference) ∈ entries) (isLocal : reference.isExternal = false)
    (resolved : (index.registerAll category entries).resolve category reference = .ok target) :
    (index.registerAll category entries).Knows category name := by
  have isAlias : (name, reference) ∈ aliases entries := mem_aliases.mpr ⟨member, isLocal⟩
  exact settle_closed (Nat.le_refl _) isAlias resolved

/-- What holds of the definitions, and goes over from an alias's target to the alias, holds of all
that is registered for a category. -/
theorem registerAll_least {K : String → EntityId → Prop}
    (empty : ∀ name, index.entity? category name = none)
    (defined : ∀ name edge target, (name, edge) ∈ entries → edge.target? = some target →
      K name target)
    (aliased : ∀ name reference target, (name, .placeholder reference) ∈ entries →
      reference.isExternal = false → Addresses category reference →
      K reference.identifier target → K name target) :
    ∀ name target, (index.registerAll category entries).entity? category name = some target →
      K name target := by
  refine settle_least (registerDefinitions_least (fun name target found => ?_) ?_) ?_
  · rw [empty name] at found
    cases found
  · intro entry member
    obtain ⟨edge, inEntries, found⟩ := mem_definitions.mp member
    exact defined entry.1 edge entry.2 inEntries found
  · intro entry member target addressed known
    obtain ⟨inEntries, isLocal⟩ := mem_aliases.mp member
    exact aliased entry.1 entry.2 target inEntries isLocal addressed known

end

section

/-! The index of a document. -/

theorem entity?_foldl_registerAll_of_not_mem {tables : List (Category × Table Edge)}
    (absent : category ∉ tables.map Prod.fst) (index : Index) (name : String) :
    (tables.foldl (fun index (category, entries) => index.registerAll category entries)
      index).entity? category name = index.entity? category name := by
  induction tables generalizing index with
  | nil => rfl
  | cons first rest ih =>
      simp only [List.map_cons, List.mem_cons, not_or] at absent
      rw [List.foldl_cons, ih absent.2, entity?_registerAll_of_ne absent.1]

/-- What an index has for a category comes from the table of the category alone. -/
theorem entity?_foldl_registerAll {tables : List (Category × Table Edge)}
    (distinct : (tables.map Prod.fst).Nodup) {entries : Table Edge}
    (member : (category, entries) ∈ tables) (index : Index) :
    ∃ before : Index, (∀ name, before.entity? category name = index.entity? category name) ∧
      ∀ name, (tables.foldl (fun index (category, entries) => index.registerAll category entries)
        index).entity? category name =
          (before.registerAll category entries).entity? category name := by
  induction tables generalizing index with
  | nil => cases member
  | cons first rest ih =>
      rw [List.map_cons, List.nodup_cons] at distinct
      rcases List.mem_cons.mp member with rfl | later
      · refine ⟨index, fun _ => rfl, fun name => ?_⟩
        rw [List.foldl_cons, entity?_foldl_registerAll_of_not_mem distinct.1]
      · have different : category ≠ first.1 := by
          intro same
          subst same
          exact distinct.1 (List.mem_map.mpr ⟨_, later, rfl⟩)
        obtain ⟨before, same, found⟩ := ih distinct.2 later (index.registerAll first.1 first.2)
        refine ⟨before, fun name => ?_, found⟩
        rw [same, entity?_registerAll_of_ne different]

theorem entity?_foldl_registerTag_of_ne (different : category ≠ .tags) (graph : Graph)
    (index : Index) (tags : List Edge) (name : String) :
    (tags.foldl (registerTag graph) index).entity? category name = index.entity? category name := by
  induction tags generalizing index with
  | nil => rfl
  | cons edge rest ih =>
      rw [List.foldl_cons, ih, registerTag]
      split
      · rfl
      · split
        · rw [entity?_register_of_ne (by simp [different])]
        · rfl

end

end ApiLinker.Index

namespace ApiLinker

def Components.edgesOf (components : Components) : Category → Table Edge
  | .parameters => components.parameters
  | .requestBodies => components.requestBodies
  | .responses => components.responses
  | .examples => components.examples
  | .headers => components.headers
  | .links => components.links
  | .callbacks => components.callbacks
  | .pathItems => components.pathItems
  | .securitySchemes => components.securitySchemes
  | .tags | .schemas => []

namespace Index

variable {index other : Index} {category : Category} {name : String}

/-- For all but the tags, the index of a document has what the components give. -/
theorem entity?_ofDocument (different : category ≠ .tags) (graph : Graph)
    (document : Document) :
    ∃ before : Index, (∀ name, before.entity? category name = none) ∧
      ∀ name, (ofDocument graph document).entity? category name =
        (before.registerAll category (document.namedObjects.edgesOf category)).entity? category
          name := by
  have untagged : ∀ name,
      (document.tags.foldl (registerTag graph) {}).entity? category name = none :=
    entity?_foldl_registerTag_of_ne different graph {} document.tags
  let named := document.namedObjects
  let tables := [(Category.parameters, named.parameters), (.requestBodies, named.requestBodies),
    (.responses, named.responses), (.examples, named.examples), (.headers, named.headers),
    (.links, named.links), (.callbacks, named.callbacks), (.pathItems, named.pathItems),
    (.securitySchemes, named.securitySchemes)]
  have distinct : (tables.map Prod.fst).Nodup := by simp [tables]
  have listed : category = .schemas ∨ (category, named.edgesOf category) ∈ tables := by
    cases category <;> simp [tables, Components.edgesOf] at different ⊢
  rcases listed with rfl | member
  · have absent : Category.schemas ∉ tables.map Prod.fst := by simp [tables]
    refine ⟨{}, fun _ => rfl, fun name => ?_⟩
    exact (entity?_foldl_registerAll_of_not_mem absent _ name).trans (untagged name)
  · obtain ⟨before, same, found⟩ := entity?_foldl_registerAll distinct member
      (document.tags.foldl (registerTag graph) {})
    exact ⟨before, fun name => (same name).trans (untagged name), found⟩

theorem resolve_congr (same : ∀ name, index.entity? category name = other.entity? category name)
    (reference : Reference) :
    index.resolve category reference = other.resolve category reference := by
  simp only [resolve, same]

section

variable {graph : Graph} {document : Document}

theorem ofDocument_knows_definition (different : category ≠ .tags) {edge : Edge} {target : EntityId}
    (member : (name, edge) ∈ document.namedObjects.edgesOf category)
    (defined : edge.target? = some target) : (ofDocument graph document).Knows category name := by
  obtain ⟨before, _, found⟩ := entity?_ofDocument different graph document
  obtain ⟨entity, known⟩ := before.registerAll_knows_definition member defined
  exact ⟨entity, (found name).trans known⟩

theorem ofDocument_knows_alias (different : category ≠ .tags) {reference : Reference}
    {target : EntityId}
    (member : (name, .placeholder reference) ∈ document.namedObjects.edgesOf category)
    (isLocal : reference.isExternal = false)
    (resolved : (ofDocument graph document).resolve category reference = .ok target) :
    (ofDocument graph document).Knows category name := by
  obtain ⟨before, _, found⟩ := entity?_ofDocument different graph document
  rw [resolve_congr found] at resolved
  obtain ⟨entity, known⟩ := before.registerAll_knows_alias member isLocal resolved
  exact ⟨entity, (found name).trans known⟩

theorem ofDocument_least (different : category ≠ .tags) {K : String → EntityId → Prop}
    (defined : ∀ name edge target, (name, edge) ∈ document.namedObjects.edgesOf category →
      edge.target? = some target → K name target)
    (aliased : ∀ name reference target,
      (name, .placeholder reference) ∈ document.namedObjects.edgesOf category →
      reference.isExternal = false → Addresses category reference →
      K reference.identifier target → K name target) :
    ∀ name target, (ofDocument graph document).entity? category name = some target →
      K name target := by
  intro name target known
  obtain ⟨before, empty, found⟩ := entity?_ofDocument different graph document
  rw [found] at known
  exact registerAll_least empty defined aliased name target known

end

/-- The tags of an index are those that the top-level tags of the document lead to. -/
theorem entity?_foldl_registerTag {graph : Graph} {tags : List Edge} {index : Index} {name : String}
    {target : EntityId}
    (found : (tags.foldl (registerTag graph) index).entity? .tags name = some target) :
    index.entity? .tags name = some target ∨ ∃ edge ∈ tags, ∃ tag, edge.target? = some target ∧
      graph.entity? target = some (.tag tag) ∧ tag.name = name := by
  induction tags generalizing index with
  | nil => exact .inl found
  | cons edge rest ih =>
      rw [List.foldl_cons] at found
      rcases ih found with before | ⟨other, member, holds⟩
      · rw [registerTag] at before
        split at before
        · exact .inl before
        · rename_i first leads
          split at before
          · rename_i tag isTag
            by_cases same : name = tag.name
            · subst same
              rw [entity?_register_self] at before
              cases before
              exact .inr ⟨edge, List.mem_cons_self, tag, leads, isTag, rfl⟩
            · rw [entity?_register_of_ne (by simp [same])] at before
              exact .inl before
          · exact .inl before
      · exact .inr ⟨other, List.mem_cons_of_mem _ member, holds⟩

theorem foldl_registerTag_knows {graph : Graph} {tags : List Edge} {index : Index} {name : String}
    (known : index.Knows .tags name ∨ ∃ edge ∈ tags, ∃ target tag, edge.target? = some target ∧
      graph.entity? target = some (.tag tag) ∧ tag.name = name) :
    (tags.foldl (registerTag graph) index).Knows .tags name := by
  induction tags generalizing index with
  | nil =>
      rcases known with known | ⟨_, member, _⟩
      · exact known
      · cases member
  | cons edge rest ih =>
      rw [List.foldl_cons]
      refine ih ?_
      rcases known with known | ⟨other, member, target, tag, leads, isTag, rfl⟩
      · refine .inl ?_
        rw [registerTag]
        split
        · exact known
        · split
          · exact known.register _ _
          · exact known
      · rcases List.mem_cons.mp member with rfl | later
        · refine .inl ⟨target, ?_⟩
          simp only [registerTag, leads, isTag]
          exact entity?_register_self _ _ _ _
        · exact .inr ⟨other, later, target, tag, leads, isTag, rfl⟩

theorem entity?_ofDocument_tags (graph : Graph) (document : Document) (name : String) :
    (ofDocument graph document).entity? .tags name =
      (document.tags.foldl (registerTag graph) {}).entity? .tags name := by
  rw [ofDocument, entity?_foldl_registerAll_of_not_mem]
  simp

section

variable {graph : Graph} {document : Document} {target : EntityId}

theorem ofDocument_knows_tag {edge : Edge} {tag : Tag} (member : edge ∈ document.tags)
    (leads : edge.target? = some target) (isTag : graph.entity? target = some (.tag tag)) :
    (ofDocument graph document).Knows .tags tag.name := by
  obtain ⟨entity, found⟩ := foldl_registerTag_knows
    (.inr ⟨edge, member, target, tag, leads, isTag, rfl⟩)
  exact ⟨entity, (entity?_ofDocument_tags graph document tag.name).trans found⟩

theorem exists_tag_of_ofDocument
    (found : (ofDocument graph document).entity? .tags name = some target) :
    ∃ edge ∈ document.tags, ∃ tag, edge.target? = some target ∧
      graph.entity? target = some (.tag tag) ∧ tag.name = name := by
  rw [entity?_ofDocument_tags] at found
  rcases entity?_foldl_registerTag found with never | holds
  · cases never
  · exact holds

end

theorem eq_of_resolve_error {reference : Reference} {problem : Problem}
    (failed : index.resolve category reference = .error problem) :
    problem = .categoryMismatch category reference ∨ problem = .notFound category reference := by
  rw [resolve] at failed
  split at failed
  · exact .inl (Except.error.inj failed).symm
  · split at failed
    · exact .inr (Except.error.inj failed).symm
    · split at failed
      · cases failed
      · exact .inr (Except.error.inj failed).symm

/-- What does not depend on the entries of an index fails for every index. -/
theorem resolve_error_cases {reference : Reference} {problem : Problem}
    (failed : index.resolve category reference = .error problem) :
    problem = .notFound category reference ∨
      ∀ other : Index, other.resolve category reference = .error problem := by
  rw [resolve] at failed
  split at failed
  · rename_i mismatch
    refine .inr fun other => ?_
    rw [resolve, if_pos mismatch, ← failed]
  · split at failed
    · exact .inl (Except.error.inj failed).symm
    · split at failed
      · cases failed
      · exact .inl (Except.error.inj failed).symm

end Index

end ApiLinker
