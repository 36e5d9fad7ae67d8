import ApiLinker.Proofs.Rules
import ApiLinker.Proofs.Schema.Identity
import ApiLinker.Proofs.Schema.Unfolding

/-!
Expansion with sharing is expansion.

While schemas are expanded, what is stored for a locator is always the expansion of what is
registered there (`Lookup.Sound`), whichever pointer or name came first.  So an expansion that takes
from the store and stores in it gives the contents that `Lookup.expansion` gives.
-/

namespace ApiLinker

namespace Subschemas

theorem Rel.children_rebuild {R : σ → σ → Prop} {body : SchemaBody σ} {children : Subschemas σ}
    (related : body.children.Rel R children) : (body.rebuild children).children = children := by
  refine SchemaBody.children_rebuild ?_
  have additional := related.additional
  cases before : body.children.additional <;> cases after : children.additional <;>
    rw [before, after] at additional <;> first | rfl | cases additional

end Subschemas

namespace Schema

variable {follow : List String → String → Expanding (Option Schema)}

theorem expandWith_pointer {id : Nat} {body : SchemaBody Schema} {pointer : String}
    (points : body.reference = some pointer) (path : List String) :
    expandWith follow (.node id body) path = (do
      match ← follow path pointer with
      | some target =>
          modify fun state => { state with replaced := state.replaced + 1 }
          return target
      | none => return .node id body) := by
  rw [expandWith, recurse_node]
  split
  · rename_i other found
    rw [SchemaBody.reference_map, points] at found
    cases found
    rfl
  · rename_i missing
    rw [SchemaBody.reference_map, points] at missing
    cases missing

theorem expandWith_plain {id : Nat} {body : SchemaBody Schema} (plain : body.reference = none)
    (path : List String) :
    expandWith follow (.node id body) path = (do
      let children ← body.children.mapVisits fun slot child =>
        expandWith follow child (path ++ slot.segments)
      if sameObjects body.children children then return .node id body
      else Expanding.addNode (body.rebuild children)) := by
  rw [expandWith, recurse_node]
  simp only [SchemaBody.reference_map, plain, SchemaBody.children_map, Subschemas.mapVisits_map]
  rfl

/-- A schema is expanded for a locator unless an expansion is stored there. -/
theorem expandNamedWith_eq (locator : String) (schema : Schema) (path : List String)
    (state : Expansion) :
    schema.expandNamedWith follow locator path state =
      match Table.find? locator state.expanded with
      | some known => (known, state)
      | none => ((schema.expandWith follow path state).1,
          { (schema.expandWith follow path state).2 with
            expanded := Table.insert locator (schema.expandWith follow path state).1
              (schema.expandWith follow path state).2.expanded }) := by
  cases known : Table.find? locator state.expanded <;>
    simp only [expandNamedWith, Expanding.expanded?, bind, StateT.bind, known] <;> rfl

/-- A schema is expanded by rules if its exposed pointers are followed by them, and if the rules know
what becomes of a node: where its pointer is followed to nothing or to a target, and where it has
sub-schemas. -/
theorem yields_expandWith_of {ω : Type} {rules : Rules ω Expansion} (known : ω → Schema → Prop)
    {R : ω → Schema → Schema → Prop} {F : ω → String → Option Schema → Prop}
    (stable : ∀ schema, rules.Stable fun world => R world schema)
    (keeps : ∀ world later schema, rules.grows world later → known world schema →
      known later schema)
    (parts : ∀ world id body, known world (.node id body) → ∀ child ∈ body.children.list,
      known world child)
    (stays : ∀ world id (body : SchemaBody Schema) pointer, body.reference = some pointer →
      known world (.node id body) → F world pointer none → R world (.node id body) (.node id body))
    (given : ∀ world state id (body : SchemaBody Schema) pointer target,
      body.reference = some pointer → rules.describes world state → F world pointer (some target) →
      rules.describes world { state with replaced := state.replaced + 1 } ∧
        R world (.node id body) target)
    (rebuilt : ∀ world state id (body : SchemaBody Schema) children, body.reference = none →
      known world (.node id body) → rules.describes world state →
      body.children.Rel (R world) children →
      rules.Yields
        (if sameObjects body.children children then return .node id body
          else Expanding.addNode (body.rebuild children))
        (fun later => R later (.node id body)) world state)
    {schema : Schema}
    (followed : ∀ pointer ∈ schema.exposed, ∀ path world state, rules.describes world state →
      rules.Yields (follow path pointer) (fun later => F later pointer) world state)
    {world : ω} {state : Expansion} (isKnown : known world schema)
    (described : rules.describes world state) (path : List String) :
    rules.Yields (schema.expandWith follow path) (fun later => R later schema) world state := by
  induction schema using induct generalizing world state path with
  | node id body ih =>
      cases points : body.reference with
      | some pointer =>
          have isExposed : pointer ∈ exposed (.node id body) := by
            rw [exposed_pointer points, List.mem_singleton]
          rw [expandWith_pointer points]
          refine (followed pointer isExposed path world state described).bind ?_
          intro later state result grows described follows
          have isKnown := keeps _ _ _ grows isKnown
          cases result with
          | none =>
              exact Rules.yields_pure described (stays later id body pointer points isKnown follows)
          | some target =>
              obtain ⟨describes, holds⟩ := given later state id body pointer target points described
                follows
              exact ⟨later, rules.refl later, describes, holds⟩
      | none =>
          rw [expandWith_plain points]
          refine (Rules.yields_mapVisits stable (fun slot child member later state grows described =>
            ih child member (Lookup.exposed_of_child points member followed)
              (keeps _ _ _ grows (parts _ _ _ isKnown child member)) described
              (path ++ slot.segments)) described).bind ?_
          intro later state children grows described related
          exact rebuilt later state id body children points (keeps _ _ _ grows isKnown) described
            related

end Schema

namespace Lookup

variable (lookup : Lookup)

/-- A schema made of known nodes, with the contents of an expansion. -/
def Expands (nodes : NodeTable) (schema result : Schema) : Prop :=
  result.IsIn nodes ∧ result.contents = lookup.expansion schema

/-- What a pointer is followed to: nothing if it stays, else an expansion of what it names. -/
def Follows (nodes : NodeTable) (pointer : String) (result : Option Schema) : Prop :=
  match lookup.target? pointer with
  | none => result = none
  | some target => ∃ schema, result = some schema ∧ lookup.Expands nodes target schema

/-- The numbers from `count` on are free, registered schemas are made of known nodes, and each
stored schema is an expansion of the registered one. -/
structure Sound (nodes : NodeTable) (count : Nat) (expanded : Table Schema) : Prop where
  bounded : nodes.Bounded count
  registered : ∀ locator schema, lookup.registry.get? locator = some schema → schema.IsIn nodes
  stored : ∀ locator schema, Table.find? locator expanded = some schema →
    ∃ original, lookup.registry.get? locator = some original ∧ lookup.Expands nodes original schema

/-- The rules for expansions: the world is the nodes there are. -/
def rules : Rules NodeTable Expansion where
  grows := NodeTable.Grows
  refl := NodeTable.Grows.refl
  trans := NodeTable.Grows.trans
  describes nodes state := lookup.Sound nodes state.schemaCount state.expanded

variable {lookup} {nodes later : NodeTable}

theorem Expands.mono {schema result : Schema} (expands : lookup.Expands nodes schema result)
    (grows : nodes.Grows later) : lookup.Expands later schema result :=
  ⟨expands.1.mono grows, expands.2⟩

theorem stable_expands (schema : Schema) :
    lookup.rules.Stable fun nodes result => lookup.Expands nodes schema result :=
  fun _ _ _ grows expands => expands.mono grows

theorem follows_none {pointer : String} :
    lookup.Follows nodes pointer none ↔ lookup.target? pointer = none := by
  cases found : lookup.target? pointer <;> simp [Follows, found]

theorem follows_some {pointer : String} {schema : Schema} :
    lookup.Follows nodes pointer (some schema) ↔
      ∃ target, lookup.target? pointer = some target ∧ lookup.Expands nodes target schema := by
  cases found : lookup.target? pointer <;> simp [Follows, found]

theorem Sound.grow {count : Nat} {expanded : Table Schema}
    (sound : lookup.Sound nodes count expanded)
    (grows : nodes.Grows later) {newCount : Nat} (bounded : later.Bounded newCount) :
    lookup.Sound later newCount expanded where
  bounded := bounded
  registered locator schema found := (sound.registered locator schema found).mono grows
  stored locator schema found := by
    obtain ⟨original, registered, expands⟩ := sound.stored locator schema found
    exact ⟨original, registered, expands.mono grows⟩

theorem Sound.insert {count : Nat} {expanded : Table Schema}
    (sound : lookup.Sound nodes count expanded)
    {locator : String} {original schema : Schema}
    (registered : lookup.registry.get? locator = some original)
    (expands : lookup.Expands nodes original schema) :
    lookup.Sound nodes count (Table.insert locator schema expanded) where
  bounded := sound.bounded
  registered := sound.registered
  stored other found known := by
    by_cases same : other = locator
    · subst same
      rw [Table.find?_insert_self] at known
      cases known
      exact ⟨original, registered, expands⟩
    · rw [Table.find?_insert_of_ne same] at known
      exact sound.stored other found known

theorem yields_addNode {state : Expansion} (described : lookup.rules.describes nodes state)
    {body : SchemaBody Schema} (inside : ∀ child ∈ body.children.list, child.IsIn nodes) :
    lookup.rules.Yields (Expanding.addNode body) (fun later result =>
      result.IsIn later ∧ result.body = body) nodes state := by
  have grows := NodeTable.grows_add (described.bounded state.schemaCount (Nat.le_refl _))
    (Schema.node state.schemaCount body)
  refine ⟨nodes.add state.schemaCount (.node state.schemaCount body), grows,
    Sound.grow described grows (described.bounded.add _), ?_, rfl⟩
  refine Schema.isIn_node.mpr ⟨by simp [NodeTable.add], fun child member => ?_⟩
  exact (inside child member).mono grows

/-- A node stays, or gives way to a new one, by whether its sub-schemas are still the same. -/
theorem yields_rebuilt {id : Nat} {body : SchemaBody Schema}
    (plain : body.reference = none) (isIn : (Schema.node id body).IsIn nodes)
    {children : Subschemas Schema}
    (related : body.children.Rel (fun child result => lookup.Expands nodes child result) children)
    {state : Expansion} (described : lookup.rules.describes nodes state) :
    lookup.rules.Yields
      (if Schema.sameObjects body.children children then return .node id body
        else Expanding.addNode (body.rebuild children))
      (fun later => lookup.Expands later (.node id body)) nodes state := by
  have resultsIn : ∀ child ∈ children.list, child.IsIn nodes := by
    intro child member
    obtain ⟨_, _, expands⟩ := ListRel.exists_of_mem_right related.list member
    exact expands.1
  split
  · rename_i same
    have unchanged : body.children = children :=
      Schema.eq_of_sameObjects related (Schema.isIn_node.mp isIn).2 resultsIn same
    refine Rules.yields_pure described ⟨isIn, ?_⟩
    rw [Schema.contents_node, expansion_plain plain, SchemaBody.map_congr]
    intro child member
    have same := related.list
    rw [← unchanged] at same
    exact (List.forall₂_same.mp same child member).2
  · have contents : (body.rebuild children).map Schema.contents = body.map lookup.expansion :=
      Schema.map_rebuild (related.imp_of_mem fun _ _ _ expands => expands.2)
    have rebuiltIn : ∀ child ∈ (body.rebuild children).children.list, child.IsIn nodes := by
      rw [related.children_rebuild]
      exact resultsIn
    refine (yields_addNode described rebuiltIn).imp ?_
    intro later result _ outcome
    obtain ⟨resultIn, made⟩ := outcome
    refine ⟨resultIn, ?_⟩
    rw [← Schema.node_id_body result, made, Schema.contents_node, contents, expansion_plain plain]

/-- A schema is expanded rightly if its exposed pointers are followed rightly. -/
theorem yields_expandWith (linked : lookup.Linked)
    {follow : List String → String → Expanding (Option Schema)} {schema : Schema}
    (followed : ∀ pointer ∈ schema.exposed, ∀ path nodes state,
      lookup.rules.describes nodes state →
      lookup.rules.Yields (follow path pointer) (fun later => lookup.Follows later pointer) nodes
        state)
    {state : Expansion} (described : lookup.rules.describes nodes state)
    (isIn : schema.IsIn nodes) (path : List String) :
    lookup.rules.Yields (schema.expandWith follow path)
      (fun later => lookup.Expands later schema) nodes state := by
  refine Schema.yields_expandWith_of (fun nodes schema => schema.IsIn nodes) stable_expands
    (fun _ _ _ grows isIn => isIn.mono grows)
    (fun _ _ _ isIn => (Schema.isIn_node.mp isIn).2)
    (fun nodes id body pointer points isIn follows => ?_)
    (fun nodes state id body pointer target points described follows => ⟨described, ?_⟩)
    (fun _ _ _ _ _ plain isIn described related => yields_rebuilt plain isIn related described)
    followed isIn described path
  · exact ⟨isIn, (expansion_stays points (follows_none.mp follows)).symm⟩
  · obtain ⟨original, found, expands⟩ := follows_some.mp follows
    exact ⟨expands.1, by rw [expansion_followed linked points found]; exact expands.2⟩

/-- The schema registered under a locator is expanded rightly, and stored. -/
theorem yields_expandNamedWith (linked : lookup.Linked)
    {follow : List String → String → Expanding (Option Schema)} {schema : Schema}
    (followed : ∀ pointer ∈ schema.exposed, ∀ path nodes state,
      lookup.rules.describes nodes state →
      lookup.rules.Yields (follow path pointer) (fun later => lookup.Follows later pointer) nodes
        state)
    {state : Expansion} (described : lookup.rules.describes nodes state) {locator : String}
    (registered : lookup.registry.get? locator = some schema) (path : List String) :
    lookup.rules.Yields (schema.expandNamedWith follow locator path)
      (fun later => lookup.Expands later schema) nodes state := by
  rw [Rules.Yields, Schema.expandNamedWith_eq]
  cases known : Table.find? locator state.expanded with
  | some result =>
      obtain ⟨original, found, expands⟩ := described.stored locator result known
      cases registered.symm.trans found
      exact ⟨nodes, .refl nodes, described, expands⟩
  | none =>
      obtain ⟨later, grows, described, expands⟩ := yields_expandWith linked followed described
        (described.registered locator schema registered) path
      exact ⟨later, grows, Sound.insert described registered expands, expands⟩

/-- A local pointer that is part of no cycle is looked up in the store first. -/
theorem follow_succ {depth : Nat} {path : List String} {pointer : String}
    (isLocal : Reference.isExternal { pointer } = false)
    (acyclic : lookup.links.isCyclic (Locator.ofPointer lookup.authority pointer) = false)
    (state : Expansion) :
    lookup.follow (depth + 1) path pointer state =
      match Table.find? (Locator.ofPointer lookup.authority pointer) state.expanded with
      | some known => (some known, state)
      | none =>
          match lookup.registry.get? (Locator.ofPointer lookup.authority pointer) with
          | none => (do
              Expanding.report path
                (.schemaNotFound pointer (Locator.ofPointer lookup.authority pointer))
              return none : Expanding (Option Schema)) state
          | some schema => (some <$> schema.expandNamedWith (lookup.follow depth)
              (Locator.ofPointer lookup.authority pointer) path) state := by
  cases known : Table.find? (Locator.ofPointer lookup.authority pointer) state.expanded <;>
    cases registered : lookup.registry.get? (Locator.ofPointer lookup.authority pointer) <;>
    simp only [follow, isLocal, acyclic, Bool.false_eq_true, ↓reduceIte, Expanding.expanded?, bind,
      StateT.bind, known, registered] <;> rfl

/-- One step of following a pointer: it stays, gives what is stored, or what is made for it. -/
theorem yields_follow_succ {ω : Type} {rules : Rules ω Expansion} {F : ω → Option Schema → Prop}
    {depth : Nat} {path : List String} {pointer : String} {world : ω} {state : Expansion}
    (described : rules.describes world state)
    (silent : ∀ problems, rules.describes world { state with problems })
    (stays : lookup.target? pointer = none → F world none)
    (stored : ∀ known,
      lookup.target? pointer = lookup.registry.get? (Locator.ofPointer lookup.authority pointer) →
      Table.find? (Locator.ofPointer lookup.authority pointer) state.expanded = some known →
      F world (some known))
    (inside : ∀ schema, lookup.target? pointer = some schema →
      rules.Yields (schema.expandNamedWith (lookup.follow depth)
        (Locator.ofPointer lookup.authority pointer) path) (fun later result => F later (some result))
        world state) :
    rules.Yields (lookup.follow (depth + 1) path pointer) F world state := by
  have reported (problem : Problem) (misses : lookup.target? pointer = none) :
      rules.Yields (do Expanding.report path problem; return none) F world state :=
    ⟨world, rules.refl world, silent _, stays misses⟩
  cases isExternal : Reference.isExternal { pointer } with
  | true =>
      have misses : lookup.target? pointer = none := by simp [target?, isExternal]
      rw [follow]
      simp only [isExternal, ↓reduceIte]
      split
      · exact reported _ misses
      · exact Rules.yields_pure described (stays misses)
  | false =>
      cases isCyclic : lookup.links.isCyclic (Locator.ofPointer lookup.authority pointer) with
      | true =>
          rw [follow]
          simp only [isExternal, isCyclic, ↓reduceIte, Bool.false_eq_true]
          exact Rules.yields_pure described (stays (by simp [target?, isCyclic]))
      | false =>
          have target : lookup.target? pointer =
              lookup.registry.get? (Locator.ofPointer lookup.authority pointer) := by
            simp [target?, isExternal, isCyclic]
          rw [Rules.Yields, follow_succ isExternal isCyclic]
          split
          · rename_i known found
            exact Rules.yields_pure described (stored known target found)
          · split
            · rename_i missing
              exact reported _ (target.trans missing)
            · rename_i schema registered
              exact (inside schema (target.trans registered)).map fun _ _ holds => holds

/-- A pointer is followed rightly to any depth that holds the chains from it. -/
theorem yields_follow (linked : lookup.Linked) (depth : Nat) {pointer : String}
    (within : lookup.Within depth pointer) (path : List String) (nodes : NodeTable)
    (state : Expansion) (described : lookup.rules.describes nodes state) :
    lookup.rules.Yields (lookup.follow depth path pointer)
      (fun later => lookup.Follows later pointer) nodes state := by
  induction depth generalizing pointer path nodes state with
  | zero => exact Rules.yields_pure described (follows_none.mpr within)
  | succ depth ih =>
      refine yields_follow_succ described (fun _ => described) follows_none.mpr
        (fun known target found => ?_) fun schema target => ?_
      · obtain ⟨original, registered, expands⟩ := described.stored _ known found
        exact follows_some.mpr ⟨original, target.trans registered, expands⟩
      · have followed := fun inner isExposed => ih (within schema target inner isExposed)
        refine (yields_expandNamedWith linked followed described (target?_eq_some linked target).2.2
          path).imp fun later result _ expands => ?_
        exact follows_some.mpr ⟨schema, target, expands⟩

theorem yields_follow_depth (linked : lookup.Linked) (pointer : String) (path : List String)
    (nodes : NodeTable) (state : Expansion) (described : lookup.rules.describes nodes state) :
    lookup.rules.Yields (lookup.follow lookup.depth path pointer)
      (fun later => lookup.Follows later pointer) nodes state := by
  refine yields_follow linked _ ?_ path nodes state described
  intro target found inner _
  exact within_size linked inner

/-- Expansion gives the contents that it gives without sharing. -/
theorem yields_expand (linked : lookup.Linked) {state : Expansion}
    (described : lookup.rules.describes nodes state) {schema : Schema} (isIn : schema.IsIn nodes)
    (path : List String) :
    lookup.rules.Yields (lookup.expand schema path) (fun later => lookup.Expands later schema)
      nodes state :=
  yields_expandWith linked (fun pointer _ => yields_follow_depth linked pointer) described isIn path

theorem yields_expandNamed (linked : lookup.Linked) {state : Expansion}
    (described : lookup.rules.describes nodes state) {name : String} {schema : Schema}
    (registered : lookup.registry.get?
      (Locator.ofPointer lookup.authority (Registry.componentPointer name)) = some schema)
    (path : List String) :
    lookup.rules.Yields (lookup.expandNamed name schema path)
      (fun later => lookup.Expands later schema) nodes state :=
  yields_expandNamedWith linked (fun pointer _ => yields_follow_depth linked pointer) described
    registered path

end Lookup

end ApiLinker
