import ApiLinker.Proofs.Format.Decoding
import ApiLinker.Proofs.Json.Distinct
import ApiLinker.Proofs.Schema.Identity
import ApiLinker.Schema.Format

/-!
Reading schemas.

What holds of every node that is made of parts of which it holds, holds of what is read.  Every node
gets the next number, so a schema that was read is made of nodes whose numbers stand for them alone;
and no name stands twice in one that was read.
-/

namespace ApiLinker

namespace SchemaBody

/-- The names of the members that hold sub-schemas or the pointer. -/
def structural : List String :=
  ["$ref", "items", "not", "allOf", "anyOf", "oneOf", "properties", "additionalProperties"]

/-- A body as it is read, with sub-schemas as `P` says. -/
structure Parts (P : Schema → Prop) (body : SchemaBody Schema) : Prop where
  items : ∀ child ∈ body.items, P child
  not : ∀ child ∈ body.not, P child
  additional : ∀ child ∈ body.additional.schema?, P child
  allOf : ∀ child ∈ body.allOf, P child
  anyOf : ∀ child ∈ body.anyOf, P child
  oneOf : ∀ child ∈ body.oneOf, P child
  properties : (Table.names body.properties).Nodup ∧ ∀ entry ∈ body.properties, P entry.2
  keywords : body.keywords.names.Nodup ∧
    ∀ entry ∈ body.keywords, entry.1 ∉ structural ∧ entry.2.Distinct

variable {P Q : Schema → Prop} {body : SchemaBody Schema}

theorem parts_blank : ({} : SchemaBody Schema).Parts P where
  items := nofun
  not := nofun
  additional := nofun
  allOf := nofun
  anyOf := nofun
  oneOf := nofun
  properties := ⟨List.nodup_nil, nofun⟩
  keywords := ⟨List.nodup_nil, nofun⟩

theorem Parts.imp (parts : body.Parts P) (implies : ∀ child, P child → Q child) :
    body.Parts Q where
  items child member := implies child (parts.items child member)
  not child member := implies child (parts.not child member)
  additional child member := implies child (parts.additional child member)
  allOf child member := implies child (parts.allOf child member)
  anyOf child member := implies child (parts.anyOf child member)
  oneOf child member := implies child (parts.oneOf child member)
  properties := ⟨parts.properties.1, fun entry member =>
    implies entry.2 (parts.properties.2 entry member)⟩
  keywords := parts.keywords

theorem Parts.children (parts : body.Parts P) : ∀ child ∈ body.children.list, P child := by
  intro child member
  simp only [Subschemas.list_eq, SchemaBody.children, List.mem_append, List.mem_map,
    Option.mem_toList] at member
  rcases member with ((((((isItems | isNot) | isAdditional) | inAll) | inAny) | inOne) |
    ⟨entry, inProperties, rfl⟩)
  · exact parts.items child isItems
  · exact parts.not child isNot
  · exact parts.additional child isAdditional
  · exact parts.allOf child inAll
  · exact parts.anyOf child inAny
  · exact parts.oneOf child inOne
  · exact parts.properties.2 entry inProperties

theorem parts_of_children (properties : (Table.names body.properties).Nodup)
    (keywords : body.keywords.names.Nodup ∧
      ∀ entry ∈ body.keywords, entry.1 ∉ structural ∧ entry.2.Distinct)
    (children : ∀ child ∈ body.children.list, P child) : body.Parts P := by
  simp only [Subschemas.list_eq, SchemaBody.children, List.mem_append, List.mem_map,
    Option.mem_toList] at children
  exact {
    items := fun child member => children child (by tauto)
    not := fun child member => children child (by tauto)
    additional := fun child member => children child (by tauto)
    allOf := fun child member => children child (by tauto)
    anyOf := fun child member => children child (by tauto)
    oneOf := fun child member => children child (by tauto)
    properties := ⟨properties, fun entry member => children entry.2 (.inr ⟨entry, member, rfl⟩)⟩
    keywords }

theorem Parts.insert (parts : body.Parts P) {name : String} (isKeyword : name ∉ structural)
    {value : Json} (distinct : value.Distinct) :
    { body with keywords := Table.insert name value body.keywords }.Parts P :=
  { parts with
    keywords := by
      refine ⟨Table.nodup_insert parts.keywords.1 name value, fun entry member => ?_⟩
      rcases Table.mem_of_mem_insert member with rfl | old
      · exact ⟨isKeyword, distinct⟩
      · exact parts.keywords.2 entry old }

end SchemaBody

namespace Schema

/-- The rules for reading with nothing but a count of nodes. -/
def numbering : Rules NodeTable Nat where
  grows := NodeTable.Grows
  refl := NodeTable.Grows.refl
  trans := NodeTable.Grows.trans
  describes nodes count := nodes.Bounded count

theorem decodes_alternative {choice : String} {read : Numbering α} {P : NodeTable → α → Prop}
    {nodes : NodeTable} (decodes : numbering.Decodes read P nodes) :
    numbering.Decodes (alternative choice read) P nodes := by
  intro count value last described ran
  rw [alternative] at ran
  cases run : read count with
  | error => rw [run] at ran; cases ran
  | ok result =>
      rw [run] at ran
      cases ran
      exact decodes count _ _ described run

theorem decodes_value (node : Json.Node) (nodes : NodeTable) :
    numbering.Decodes (liftM node.value) (fun _ value => value.Distinct) nodes :=
  Rules.decodes_lift fun _ read => Json.distinct_of_value node read

/-- What holds of a node that is made of parts of which it holds. -/
structure OfParts (P : NodeTable → Schema → Prop) : Prop where
  stable : numbering.Stable P
  node : ∀ nodes body, body.Parts (P nodes) → numbering.Decodes (number body) P nodes

section

variable {P : NodeTable → Schema → Prop}

mutual

theorem decodes_read (made : OfParts P) : (node : Json.Node) → (nodes : NodeTable) →
    numbering.Decodes (read node) P nodes
  | .object _ members, _ =>
      Rules.decodes_refuseIf ((decodes_readMembers made members [] SchemaBody.parts_blank).bind
        fun later body _ parts => made.node later body parts)
  | .absent _, _ | .brokenWord _, _ | .brokenNumber _, _ | .null, _ | .bool _, _ | .number _, _
  | .quoted _, _ | .array _ _, _ => Rules.decodes_throw

theorem decodes_readMembers (made : OfParts P) : (members : Json.Members) →
    (seen : List String) → {nodes : NodeTable} → {body : SchemaBody Schema} →
    body.Parts (P nodes) →
    numbering.Decodes (readMembers seen body members) (fun nodes body => body.Parts (P nodes)) nodes
  | .stop _, _, _, _, parts => Rules.decodes_check (Rules.decodes_pure parts)
  | .noFirstKey, _, _, _, _ => Rules.decodes_throw
  | .member key value rest, seen, nodes, body, parts => by
      rw [readMembers]
      refine Rules.decodes_outcome.bind fun middle name grows _ => ?_
      have later : ∀ {last}, numbering.grows middle last → body.Parts (P last) := fun growsOn =>
        parts.imp fun _ => made.stable (grows.trans growsOn)
      split
      · refine Rules.decodes_unless ?_
        refine Rules.decodes_outcome.bind fun last reference grows _ => ?_
        exact decodes_readMembers made rest _ { later grows with }
      · refine Rules.decodes_unless (Rules.decodes_unless_null (decodes_read made value middle) ?_)
        exact fun last _ grows items => decodes_readMembers made rest _ { later grows with items }
      · refine Rules.decodes_unless (Rules.decodes_unless_null (decodes_read made value middle) ?_)
        exact fun last _ grows not => decodes_readMembers made rest _ { later grows with not }
      · refine Rules.decodes_unless ((decodes_readList made value middle).bind ?_)
        exact fun last _ grows allOf => decodes_readMembers made rest _ { later grows with allOf }
      · refine Rules.decodes_unless ((decodes_readList made value middle).bind ?_)
        exact fun last _ grows anyOf => decodes_readMembers made rest _ { later grows with anyOf }
      · refine Rules.decodes_unless ((decodes_readList made value middle).bind ?_)
        exact fun last _ grows oneOf => decodes_readMembers made rest _ { later grows with oneOf }
      · refine Rules.decodes_unless ((decodes_readTable made value middle).bind ?_)
        exact fun last _ grows properties =>
          decodes_readMembers made rest _ { later grows with properties }
      · refine Rules.decodes_unless ?_
        refine Rules.decodes_outcome.bind fun current whole growsOn _ => ?_
        split
        · exact decodes_readMembers made rest _ { later growsOn with additional := nofun }
        · exact decodes_readMembers made rest _ { later growsOn with additional := nofun }
        · have schema : numbering.Decodes (Additional.schema <$> read value)
              (fun nodes additional => ∀ child ∈ additional.schema?, P nodes child) current :=
            (decodes_read made value current).map fun last schema holds child member => by
              cases member
              exact holds
          exact (decodes_alternative schema).bind fun last _ growsLast additional =>
            decodes_readMembers made rest _ { later (growsOn.trans growsLast) with additional }
      · rename_i isRef isItems isNot isAll isAny isOne isProperties isAdditional
        have isKeyword : name ∉ SchemaBody.structural := by
          simp only [SchemaBody.structural, List.mem_cons, List.not_mem_nil, or_false, not_or]
          exact ⟨isRef, isItems, isNot, isAll, isAny, isOne, isProperties, isAdditional⟩
        refine Rules.decodes_unless ((decodes_value value middle).bind ?_)
        exact fun last _ grows distinct =>
          decodes_readMembers made rest _ ((later grows).insert isKeyword distinct)

theorem decodes_readList (made : OfParts P) : (node : Json.Node) → (nodes : NodeTable) →
    numbering.Decodes (readList node) (fun nodes list => ∀ schema ∈ list, P nodes schema) nodes
  | .array _ elements, nodes => Rules.decodes_refuseIf (decodes_readElements made elements nodes)
  | .absent _, _ | .brokenWord _, _ | .brokenNumber _, _ | .null, _ | .bool _, _ | .number _, _
  | .quoted _, _ | .object _ _, _ => Rules.decodes_throw

theorem decodes_readElements (made : OfParts P) : (elements : Json.Elements) →
    (nodes : NodeTable) → numbering.Decodes (readElements elements)
      (fun nodes list => ∀ schema ∈ list, P nodes schema) nodes
  | .stop _, _ => Rules.decodes_check (Rules.decodes_pure nofun)
  | .item value rest, nodes =>
      (decodes_read made value nodes).bind fun later _ _ holds =>
        (decodes_readElements made rest later).bind fun _ _ grows others =>
          Rules.decodes_pure (List.forall_mem_cons.mpr ⟨made.stable grows holds, others⟩)

theorem decodes_readTable (made : OfParts P) : (node : Json.Node) → (nodes : NodeTable) →
    numbering.Decodes (readTable node)
      (fun nodes table => table.names.Nodup ∧ ∀ entry ∈ table, P nodes entry.2) nodes
  | .object _ members, nodes =>
      Rules.decodes_refuseIf ((decodes_readEntries made members nodes).bind fun _ entries _ holds =>
        Rules.decodes_pure ⟨Table.nodup_ofEntries entries, fun entry member =>
          holds entry (Table.mem_of_mem_ofEntries member)⟩)
  | .absent _, _ | .brokenWord _, _ | .brokenNumber _, _ | .null, _ | .bool _, _ | .number _, _
  | .quoted _, _ | .array _ _, _ => Rules.decodes_throw

theorem decodes_readEntries (made : OfParts P) : (members : Json.Members) →
    (nodes : NodeTable) → numbering.Decodes (readEntries members)
      (fun nodes entries => ∀ entry ∈ entries, P nodes entry.2) nodes
  | .stop _, _ => Rules.decodes_check (Rules.decodes_pure nofun)
  | .noFirstKey, _ => Rules.decodes_throw
  | .member _ value rest, _ =>
      Rules.decodes_outcome.bind fun middle _ _ _ =>
        (decodes_read made value middle).bind fun later _ _ holds =>
          (decodes_readEntries made rest later).bind fun _ _ grows others =>
            Rules.decodes_pure (List.forall_mem_cons.mpr ⟨made.stable grows holds, others⟩)

end

end

/-- A node that is made gets a number that no other has. -/
theorem decodes_number (nodes : NodeTable) (body : SchemaBody Schema)
    (parts : body.Parts fun schema => schema.IsIn nodes) :
    numbering.Decodes (number body) (fun nodes schema => schema.IsIn nodes) nodes := by
  intro count schema last bounded ran
  cases ran
  have free : nodes count = none := bounded count (Nat.le_refl count)
  have grows := NodeTable.grows_add free (.node count body)
  refine ⟨nodes.add count (.node count body), grows, bounded.add _, ?_⟩
  refine isIn_node.mpr ⟨by simp [NodeTable.add], fun child member => ?_⟩
  exact (parts.children child member).mono grows

theorem decodes_read_isIn (node : Json.Node) (nodes : NodeTable) :
    numbering.Decodes (read node) (fun nodes schema => schema.IsIn nodes) nodes :=
  decodes_read ⟨fun _ _ _ grows isIn => isIn.mono grows, decodes_number⟩ node nodes

/-- In every node the properties and the keywords have different names, and no keyword has the name
of a member that is not kept as it is. -/
inductive Distinct : Schema → Prop where
  | node {id : Nat} {body : SchemaBody Schema} (properties : (Table.names body.properties).Nodup)
      (keywords : body.keywords.names.Nodup ∧
        ∀ entry ∈ body.keywords, entry.1 ∉ SchemaBody.structural ∧ entry.2.Distinct)
      (children : ∀ child ∈ body.children.list, Distinct child) : Distinct (.node id body)

theorem Distinct.of_mem_nodes {schema inner : Schema} (distinct : schema.Distinct)
    (member : inner ∈ schema.nodes) : inner.Distinct := by
  induction schema using induct with
  | node id body ih =>
      rcases mem_nodes_node.mp member with rfl | ⟨child, isChild, inside⟩
      · exact distinct
      · cases distinct with
        | node _ _ children => exact ih child isChild (children child isChild) inside

theorem decodes_read_distinct (node : Json.Node) (nodes : NodeTable) :
    numbering.Decodes (read node) (fun _ schema => schema.Distinct) nodes := by
  refine decodes_read ⟨fun _ _ _ _ distinct => distinct, fun nodes body parts => ?_⟩ node nodes
  intro count schema last bounded ran
  cases ran
  refine ⟨nodes, .refl nodes, fun id above => bounded id (Nat.le_of_succ_le above), ?_⟩
  exact .node parts.properties.1 parts.keywords parts.children

end Schema

end ApiLinker
