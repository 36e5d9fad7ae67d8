import ApiLinker.Proofs.Schema.Sharing

/-!
Which object a pointer gives way to.

Every pointer that is replaced gives way to the object that is kept for its locator.  An object that
is kept is never exchanged for another: while the schema of a locator is expanded, every pointer
that is met is reached from the locator, so a pointer back to it leads into a cycle and is not
followed.
-/

namespace ApiLinker

namespace Schema

/-- The slots lead to the node, and no node on the way holds a pointer. -/
inductive Examines : Schema → List Slot → Schema → Prop where
  | here (schema : Schema) : Examines schema [] schema
  | inside {id : Nat} {body : SchemaBody Schema} {slot : Slot} {slots : List Slot}
      {child inner : Schema} (plain : body.reference = none)
      (visited : (slot, child) ∈ body.children.visits) (rest : Examines child slots inner) :
      Examines (.node id body) (slot :: slots) inner

/-- The slots lead to one node in the first schema, where it is examined, and to the other in the
second. -/
inductive Aligned : Schema → Schema → List Slot → Schema → Schema → Prop where
  | here (before after : Schema) : Aligned before after [] before after
  | inside {id index : Nat} {body : SchemaBody Schema} {slot : Slot} {slots : List Slot}
      {after child result inner new : Schema} (plain : body.reference = none)
      (first : body.children.visits[index]? = some (slot, child))
      (second : after.body.children.visits[index]? = some (slot, result))
      (rest : Aligned child result slots inner new) :
      Aligned (.node id body) after (slot :: slots) inner new

theorem Aligned.mem_nodes {before after inner new : Schema} {slots : List Slot}
    (aligned : Aligned before after slots inner new) :
    inner ∈ before.nodes ∧ new ∈ after.nodes := by
  have below : ∀ {schema child inner : Schema} {slot : Slot} {index : Nat},
      schema.body.children.visits[index]? = some (slot, child) → inner ∈ child.nodes →
      inner ∈ schema.nodes := by
    rintro ⟨id, body⟩ child inner slot index found within
    have visited : (slot, child) ∈ body.children.visits := List.mem_of_getElem? found
    exact mem_nodes_node.mpr (.inr ⟨child, List.mem_map_of_mem visited, within⟩)
  induction aligned with
  | here before after => exact ⟨self_mem_nodes before, self_mem_nodes after⟩
  | inside _ first second _ ih => exact ⟨below first ih.1, below second ih.2⟩

end Schema

/-- The object that is kept for a locator. -/
abbrev Keeping := String → Option Schema

namespace Lookup

variable (lookup : Lookup)

/-- What stands for a node with a pointer: the node itself where the pointer stays, else the object
that is kept for the pointer's locator. -/
def Replaces (kept : Keeping) (pointer : String) (before after : Schema) : Prop :=
  match lookup.target? pointer with
  | none => after = before
  | some _ => kept (Locator.ofPointer lookup.authority pointer) = some after

/-- What becomes of a schema.  Whatever is examined has something in its place, for a pointer what
replaces it, and for a node in which all pointers are the nodes they were that node. -/
structure Becomes (kept : Keeping) (before after : Schema) : Prop where
  aligned : ∀ slots inner, before.Examines slots inner →
    ∃ new, before.Aligned after slots inner new
  plain : ∀ slots inner new, before.Aligned after slots inner new →
    inner.body.reference = none → new.body.reference = none
  replaced : ∀ slots inner new pointer, before.Aligned after slots inner new →
    inner.body.reference = some pointer → lookup.Replaces kept pointer inner new
  unchanged : ∀ slots inner new, before.Aligned after slots inner new →
    (∀ more pointed other pointer, inner.Aligned new more pointed other →
      pointed.body.reference = some pointer → other = pointed) → new = inner

/-- The numbers from the count on are free, registered schemas are made of known nodes, and so are
the objects that are kept, which registered schemas have become.  Nothing is kept for the locators
`pending`. -/
structure Keeps (pending : List String) (world : NodeTable × Keeping) (state : Expansion) :
    Prop where
  bounded : world.1.Bounded state.schemaCount
  registered : ∀ locator schema, lookup.registry.get? locator = some schema → schema.IsIn world.1
  known : ∀ locator, Table.find? locator state.expanded = world.2 locator
  origin : ∀ locator schema, world.2 locator = some schema →
    ∃ original, lookup.registry.get? locator = some original ∧ schema.IsIn world.1 ∧
      lookup.Becomes world.2 original schema
  unkept : ∀ locator ∈ pending, world.2 locator = none

/-- The rules for objects that are kept: the world is the nodes there are and what is kept. -/
def keepingRules (pending : List String) : Rules (NodeTable × Keeping) Expansion where
  grows world later := world.1.Grows later.1 ∧
    ∀ locator schema, world.2 locator = some schema → later.2 locator = some schema
  refl world := ⟨.refl world.1, fun _ _ => id⟩
  trans first second := ⟨first.1.trans second.1, fun locator schema found =>
    second.2 locator schema (first.2 locator schema found)⟩
  describes := lookup.Keeps pending

/-- What a schema has become, made of known nodes. -/
structure MadeOf (world : NodeTable × Keeping) (before after : Schema) : Prop where
  isIn : after.IsIn world.1
  becomes : lookup.Becomes world.2 before after

/-- What a pointer is followed to: nothing if it stays, else what is kept for its locator. -/
def FollowsKept (world : NodeTable × Keeping) (pointer : String) (result : Option Schema) : Prop :=
  match lookup.target? pointer with
  | none => result = none
  | some _ => ∃ schema, result = some schema ∧ schema.IsIn world.1 ∧
      world.2 (Locator.ofPointer lookup.authority pointer) = some schema

variable {lookup} {kept later : Keeping} {pending : List String}
variable {world : NodeTable × Keeping} {state : Expansion}

section

variable {before after : Schema}
variable (grows : ∀ locator schema, kept locator = some schema → later locator = some schema)
include grows

theorem Replaces.mono {pointer : String} (replaces : lookup.Replaces kept pointer before after) :
    lookup.Replaces later pointer before after := by
  rw [Replaces] at replaces ⊢
  cases found : lookup.target? pointer with
  | none => simpa only [found] using replaces
  | some target => exact grows _ _ (by simpa only [found] using replaces)

theorem Becomes.mono (becomes : lookup.Becomes kept before after) :
    lookup.Becomes later before after where
  aligned := becomes.aligned
  plain := becomes.plain
  replaced slots inner new pointer aligned points :=
    (becomes.replaced slots inner new pointer aligned points).mono grows
  unchanged := becomes.unchanged

end

theorem followsKept_none {pointer : String} :
    lookup.FollowsKept world pointer none ↔ lookup.target? pointer = none := by
  cases found : lookup.target? pointer <;> simp [FollowsKept, found]

theorem followsKept_some {pointer : String} {schema : Schema} :
    lookup.FollowsKept world pointer (some schema) ↔
      (∃ target, lookup.target? pointer = some target) ∧ schema.IsIn world.1 ∧
        world.2 (Locator.ofPointer lookup.authority pointer) = some schema := by
  cases found : lookup.target? pointer <;> simp [FollowsKept, found]

theorem stable_madeOf (pending : List String) (schema : Schema) :
    (lookup.keepingRules pending).Stable fun world => lookup.MadeOf world schema :=
  fun _ _ _ grows made => ⟨made.isIn.mono grows.1, made.becomes.mono grows.2⟩

/-- A node with a pointer is all that is examined of it. -/
theorem becomes_pointer {id : Nat} {body : SchemaBody Schema} {pointer : String} {after : Schema}
    (points : body.reference = some pointer)
    (replaces : lookup.Replaces kept pointer (.node id body) after) :
    lookup.Becomes kept (.node id body) after where
  aligned slots inner examines := by
    cases examines with
    | here => exact ⟨after, .here _ _⟩
    | inside plain => cases points.symm.trans plain
  plain slots inner new aligned isPlain := by
    cases aligned with
    | here => cases points.symm.trans isPlain
    | inside plain => cases points.symm.trans plain
  replaced slots inner new other aligned isOther := by
    cases aligned with
    | here =>
        cases points.symm.trans isOther
        exact replaces
    | inside plain => cases points.symm.trans plain
  unchanged slots inner new aligned same := by
    cases aligned with
    | here => exact same [] _ _ pointer (.here _ _) points
    | inside plain => cases points.symm.trans plain

/-- A node stays the node it was if and only if all its sub-schemas do. -/
theorem becomes_plain {id : Nat} {body : SchemaBody Schema} {after : Schema}
    (plain : body.reference = none)
    (plainToo : after.body.reference = none)
    (related : body.children.Rel (lookup.Becomes kept) after.body.children)
    (same : after.body.children = body.children → after = .node id body) :
    lookup.Becomes kept (.node id body) after where
  aligned slots inner examines := by
    cases examines with
    | here => exact ⟨after, .here _ _⟩
    | inside _ visited rest =>
        obtain ⟨index, first⟩ := List.mem_iff_getElem?.mp visited
        obtain ⟨⟨_, result⟩, second, rfl, becomes⟩ := ListRel.exists_getElem? related.visits first
        obtain ⟨new, aligned⟩ := becomes.aligned _ _ rest
        exact ⟨new, .inside plain first second aligned⟩
  plain slots inner new aligned isPlain := by
    cases aligned with
    | here => exact plainToo
    | inside _ first second rest =>
        obtain ⟨other, isOther, _, becomes⟩ := ListRel.exists_getElem? related.visits first
        cases second.symm.trans isOther
        exact becomes.plain _ _ _ rest isPlain
  replaced slots inner new pointer aligned points := by
    cases aligned with
    | here => cases plain.symm.trans points
    | inside _ first second rest =>
        obtain ⟨other, isOther, _, becomes⟩ := ListRel.exists_getElem? related.visits first
        cases second.symm.trans isOther
        exact becomes.replaced _ _ _ _ rest points
  unchanged slots inner new aligned unmoved := by
    cases aligned with
    | here =>
        refine same (related.eq_of_visits_eq ?_).symm
        refine List.forall₂_eq_eq_eq ▸ ListRel.imp_getElem? related.visits ?_
        rintro index ⟨slot, child⟩ ⟨_, result⟩ first second ⟨rfl, becomes⟩
        refine congrArg (Prod.mk slot) (becomes.unchanged [] _ _ (.here _ _) ?_).symm
        intro more pointed other pointer aligned points
        exact unmoved _ _ _ pointer (.inside plain first second aligned) points
    | inside _ first second rest =>
        obtain ⟨other, isOther, _, becomes⟩ := ListRel.exists_getElem? related.visits first
        cases second.symm.trans isOther
        exact becomes.unchanged _ _ _ rest unmoved

/-- A pointer that stands where a schema stood is one that stays. -/
theorem Keeps.stays_of_becomes (linked : lookup.Linked) (keeps : lookup.Keeps pending world state)
    {before after : Schema} {pointer : String} (becomes : lookup.Becomes world.2 before after)
    (points : after.body.reference = some pointer) : lookup.target? pointer = none := by
  induction before using induct_expansion linked with
  | stays id body target isTarget stays =>
      have replaces := becomes.replaced [] _ _ target (.here _ _) isTarget
      simp only [Replaces, stays] at replaces
      subst replaces
      cases isTarget.symm.trans points
      exact stays
  | followed id body target schema isTarget found ih =>
      have isKept := becomes.replaced [] _ _ target (.here _ _) isTarget
      simp only [Replaces, found] at isKept
      obtain ⟨original, registered, _, becomes⟩ := keeps.origin _ _ isKept
      cases registered.symm.trans (target?_eq_some linked found).2.2
      exact ih becomes
  | inside id body plain _ =>
      cases (becomes.plain [] _ _ (.here _ _) plain).symm.trans points

/-- A node with a pointer that is exchanged gives way to what is kept for the locator. -/
theorem Becomes.kept_of_different {before after inner new : Schema} {slots : List Slot}
    {pointer : String} (becomes : lookup.Becomes kept before after)
    (aligned : before.Aligned after slots inner new) (points : inner.body.reference = some pointer)
    (different : new.id ≠ inner.id) :
    kept (Locator.ofPointer lookup.authority pointer) = some new := by
  have replaces := becomes.replaced slots inner new pointer aligned points
  rw [Replaces] at replaces
  split at replaces
  · exact absurd (congrArg Schema.id replaces) different
  · exact replaces

theorem Keeps.grow {nodes : NodeTable} {count : Nat} (keeps : lookup.Keeps pending world state)
    (grows : world.1.Grows nodes) (bounded : nodes.Bounded count) :
    lookup.Keeps pending (nodes, world.2) { state with schemaCount := count } where
  bounded := bounded
  registered locator schema found := (keeps.registered locator schema found).mono grows
  known := keeps.known
  origin locator schema found := by
    obtain ⟨original, registered, isIn, becomes⟩ := keeps.origin locator schema found
    exact ⟨original, registered, isIn.mono grows, becomes⟩
  unkept := keeps.unkept

/-- What is kept for a locator for the first time. -/
theorem Keeps.store {locator : String} {original schema : Schema}
    (keeps : lookup.Keeps (locator :: pending) world state) (fresh : locator ∉ pending)
    (registered : lookup.registry.get? locator = some original)
    (made : lookup.MadeOf world original schema) :
    let later := (world.1, fun other => if other = locator then some schema else world.2 other)
    (lookup.keepingRules pending).grows world later ∧
      lookup.Keeps pending later
        { state with expanded := Table.insert locator schema state.expanded } := by
  intro later
  have grows : ∀ other found, world.2 other = some found → later.2 other = some found := by
    intro other found isKept
    have different : other ≠ locator := by
      rintro rfl
      cases (keeps.unkept other List.mem_cons_self).symm.trans isKept
    simpa only [later, if_neg different] using isKept
  refine ⟨⟨.refl world.1, grows⟩, keeps.bounded, keeps.registered, fun other => ?_,
    fun other found isKept => ?_, fun other isPending => ?_⟩
  · by_cases same : other = locator
    · simp only [later, same, Table.find?_insert_self, ↓reduceIte]
    · simp only [later, Table.find?_insert_of_ne same, keeps.known, if_neg same]
  · by_cases same : other = locator
    · simp only [later, same, ↓reduceIte, Option.some.injEq] at isKept
      subst isKept
      exact ⟨original, same ▸ registered, made.isIn, made.becomes.mono grows⟩
    · simp only [later, if_neg same] at isKept
      obtain ⟨origin, registered, isIn, becomes⟩ := keeps.origin other found isKept
      exact ⟨origin, registered, isIn, becomes.mono grows⟩
  · have different : other ≠ locator := fun same => fresh (same ▸ isPending)
    simpa only [later, if_neg different] using
      keeps.unkept other (List.mem_cons_of_mem _ isPending)

theorem Keeps.addNode (keeps : lookup.Keeps pending world state) {body : SchemaBody Schema}
    (inside : ∀ child ∈ body.children.list, child.IsIn world.1) :
    (lookup.keepingRules pending).Yields (Expanding.addNode body)
      (fun later result => result.IsIn later.1 ∧ result.body = body) world state := by
  have grows := NodeTable.grows_add (keeps.bounded state.schemaCount (Nat.le_refl _))
    (Schema.node state.schemaCount body)
  refine ⟨(world.1.add state.schemaCount (.node state.schemaCount body), world.2),
    ⟨grows, fun _ _ => id⟩, keeps.grow grows (keeps.bounded.add _), ?_, rfl⟩
  refine Schema.isIn_node.mpr ⟨by simp [NodeTable.add], fun child member => ?_⟩
  exact (inside child member).mono grows

theorem Keeps.rebuilt {id : Nat} {body : SchemaBody Schema} {children : Subschemas Schema}
    (keeps : lookup.Keeps pending world state) (plain : body.reference = none)
    (isIn : (Schema.node id body).IsIn world.1)
    (related : body.children.Rel (lookup.MadeOf world) children) :
    (lookup.keepingRules pending).Yields
      (if Schema.sameObjects body.children children then return .node id body
        else Expanding.addNode (body.rebuild children))
      (fun later => lookup.MadeOf later (.node id body)) world state := by
  have resultsIn : ∀ child ∈ children.list, child.IsIn world.1 := by
    intro child member
    obtain ⟨_, _, made⟩ := ListRel.exists_of_mem_right related.list member
    exact made.isIn
  split
  · rename_i same
    have unchanged : body.children = children :=
      Schema.eq_of_sameObjects related (Schema.isIn_node.mp isIn).2 resultsIn same
    refine Rules.yields_pure keeps ⟨isIn, becomes_plain plain plain ?_ fun _ => rfl⟩
    rw [← unchanged] at related
    exact related.imp_of_mem fun _ _ _ made => made.becomes
  · rename_i differ
    have holds := related.children_rebuild
    refine (keeps.addNode (by rw [holds]; exact resultsIn)).imp fun later result grows outcome => ?_
    obtain ⟨resultIn, made⟩ := outcome
    have plainToo : result.body.reference = none := by rw [made]; exact plain
    rw [← made] at holds
    refine ⟨resultIn, becomes_plain plain plainToo ?_ fun same => absurd ?_ differ⟩
    · rw [holds]
      exact related.imp_of_mem fun _ _ _ made => made.becomes.mono grows.2
    · rw [← holds, same]
      exact Schema.sameObjects_self _

section

variable {follow : List String → String → Expanding (Option Schema)} {schema : Schema}

theorem Keeps.expandWith (keeps : lookup.Keeps pending world state)
    (isIn : schema.IsIn world.1)
    (followed : ∀ pointer ∈ schema.exposed, ∀ path world state, lookup.Keeps pending world state →
      (lookup.keepingRules pending).Yields (follow path pointer)
        (fun later => lookup.FollowsKept later pointer) world state)
    (path : List String) :
    (lookup.keepingRules pending).Yields (schema.expandWith follow path)
      (fun later => lookup.MadeOf later schema) world state := by
  refine Schema.yields_expandWith_of (fun (world : NodeTable × Keeping) schema =>
      schema.IsIn world.1) (stable_madeOf pending) (fun _ _ _ grows isIn => isIn.mono grows.1)
    (fun _ _ _ isIn => (Schema.isIn_node.mp isIn).2)
    (fun world id body pointer points isIn follows => ⟨isIn, becomes_pointer points ?_⟩)
    (fun world state id body pointer target points keeps follows => ⟨{ keeps with }, ?_⟩)
    (fun _ _ _ _ _ plain isIn keeps related => Keeps.rebuilt keeps plain isIn related)
    followed isIn keeps path
  · rw [Replaces, followsKept_none.mp follows]
  · obtain ⟨⟨original, found⟩, resultIn, isKept⟩ := followsKept_some.mp follows
    refine ⟨resultIn, becomes_pointer points ?_⟩
    rw [Replaces, found]
    exact isKept

/-- The expansion of a registered schema is kept for its locator from the first time on. -/
theorem Keeps.expandNamedWith {locator : String} {path : List String}
    (keeps : lookup.Keeps pending world state) (fresh : locator ∉ pending)
    (registered : lookup.registry.get? locator = some schema)
    (inside : lookup.Keeps (locator :: pending) world state →
      (lookup.keepingRules (locator :: pending)).Yields (schema.expandWith follow path)
        (fun later => lookup.MadeOf later schema) world state) :
    (lookup.keepingRules pending).Yields (schema.expandNamedWith follow locator path)
      (fun later result => lookup.MadeOf later schema result ∧ later.2 locator = some result)
      world state := by
  rw [Rules.Yields, Schema.expandNamedWith_eq]
  have known := keeps.known locator
  cases found : Table.find? locator state.expanded with
  | some result =>
      rw [found] at known
      obtain ⟨original, isOriginal, isIn, becomes⟩ := keeps.origin locator result known.symm
      cases registered.symm.trans isOriginal
      exact ⟨world, Rules.refl _ world, keeps, ⟨isIn, becomes⟩, known.symm⟩
  | none =>
      rw [found] at known
      have unkept : lookup.Keeps (locator :: pending) world state :=
        { keeps with unkept := List.forall_mem_cons.mpr ⟨known.symm, keeps.unkept⟩ }
      obtain ⟨later, grows, keepsLater, made⟩ := inside unkept
      obtain ⟨stores, keepsStored⟩ := Keeps.store keepsLater fresh registered made
      exact ⟨_, Rules.trans _ grows stores, keepsStored, stable_madeOf pending schema stores made,
        by simp⟩

end

/-- A pointer is followed to what is kept for its locator if there is room for the chains from it and
it is reached from all locators that are being expanded. -/
theorem Keeps.follow (linked : lookup.Linked) {depth : Nat} {pointer : String}
    (keeps : lookup.Keeps pending world state) (within : lookup.Within depth pointer)
    (reached : Reference.isExternal { pointer } = false → ∀ locator ∈ pending,
      Relation.TransGen lookup.Leads locator (Locator.ofPointer lookup.authority pointer))
    (path : List String) :
    (lookup.keepingRules pending).Yields (lookup.follow depth path pointer)
      (fun later => lookup.FollowsKept later pointer) world state := by
  induction depth generalizing pointer pending path world state with
  | zero => exact Rules.yields_pure keeps (followsKept_none.mpr within)
  | succ depth ih =>
      refine yields_follow_succ keeps (fun _ => { keeps with }) followsKept_none.mpr
        (fun known target found => ?_) fun schema target => ?_
      · rw [keeps.known] at found
        obtain ⟨original, registered, isIn, _⟩ := keeps.origin _ known found
        exact followsKept_some.mpr ⟨⟨original, target.trans registered⟩, isIn, found⟩
      · obtain ⟨isLocal, acyclic, registered⟩ := target?_eq_some linked target
        have fresh : Locator.ofPointer lookup.authority pointer ∉ pending :=
          fun isPending => acyclic (reached isLocal _ isPending)
        refine (keeps.expandNamedWith fresh registered fun unkept => ?_).imp
          fun later result _ outcome => ?_
        · refine unkept.expandWith (unkept.registered _ _ registered)
            (fun inner isExposed path world state keeps => ?_) path
          refine ih keeps (within schema target inner isExposed) (fun innerLocal => ?_) path
          have leads : lookup.Leads (Locator.ofPointer lookup.authority pointer)
              (Locator.ofPointer lookup.authority inner) :=
            ⟨schema, registered, inner, Schema.pointers_of_exposed schema isExposed, innerLocal, rfl⟩
          exact List.forall_mem_cons.mpr
            ⟨.single leads, fun other isPending => (reached isLocal other isPending).tail leads⟩
        · exact followsKept_some.mpr ⟨⟨schema, target⟩, outcome.1.isIn, outcome.2⟩

theorem Keeps.follow_depth (linked : lookup.Linked) {pointer : String} {path : List String}
    (keeps : lookup.Keeps pending world state)
    (reached : Reference.isExternal { pointer } = false → ∀ locator ∈ pending,
      Relation.TransGen lookup.Leads locator (Locator.ofPointer lookup.authority pointer)) :
    (lookup.keepingRules pending).Yields (lookup.follow lookup.depth path pointer)
      (fun later => lookup.FollowsKept later pointer) world state := by
  refine keeps.follow linked ?_ reached path
  intro target found inner _
  exact within_size linked inner

theorem Keeps.expand (linked : lookup.Linked) {schema : Schema}
    (keeps : lookup.Keeps [] world state) (isIn : schema.IsIn world.1) (path : List String) :
    (lookup.keepingRules []).Yields (lookup.expand schema path)
      (fun later => lookup.MadeOf later schema) world state :=
  keeps.expandWith isIn (fun _ _ _ _ _ keeps => keeps.follow_depth linked nofun) path

theorem Keeps.expandNamed (linked : lookup.Linked) {name : String} {schema : Schema}
    (keeps : lookup.Keeps [] world state)
    (registered : lookup.registry.get?
      (Locator.ofPointer lookup.authority (Registry.componentPointer name)) = some schema)
    (path : List String) :
    (lookup.keepingRules []).Yields (lookup.expandNamed name schema path)
      (fun later => lookup.MadeOf later schema) world state := by
  refine (keeps.expandNamedWith List.not_mem_nil registered fun unkept => ?_).imp
    fun _ _ _ outcome => outcome.1
  refine unkept.expandWith (unkept.registered _ _ registered)
    (fun pointer isExposed path _ _ keeps => ?_) path
  refine keeps.follow_depth linked fun isLocal => List.forall_mem_singleton.mpr (.single ?_)
  exact ⟨schema, registered, pointer, Schema.pointers_of_exposed schema isExposed, isLocal, rfl⟩

end Lookup

end ApiLinker
