import ApiLinker.Proofs.Format.Nested
import ApiLinker.Proofs.Format.Reordered

/-!
Two graphs, written.

A graph mirrors another where the change that relates them leaves references as they are and relates
entities that are held inline to entities that are held inline.  By induction on the level, what is
held in one is then written as what is held in the other, but for the order of members.
-/

namespace ApiLinker

open Codec

/-- Two edges to tags have the same reference, or lead to tags that are the same. -/
inductive Graph.MirrorsTag (graph other : Graph) (before after : Edge) : Prop where
  | named {reference : Reference} (refers : before.reference? = some reference)
      (refersToo : after.reference? = some reference)
  | held {id target : EntityId} {tag : Tag} (isInline : before = .inline id)
      (isInlineToo : after = .inline target) (found : graph.entity? id = some (.tag tag))
      (foundToo : other.entity? target = some (.tag tag))

/-- Whatever is held is related to something that is the same but for its order. -/
structure Graph.Mirrors (graph other : Graph) (change : Change) : Prop where
  reference : ∀ {category : Category} {before after : Edge} {reference : Reference},
    change.edge category before after → before.reference? = some reference →
    after.reference? = some reference
  inline : ∀ {category : Category} {id : EntityId} {after : Edge} {entity : Entity},
    change.edge category (.inline id) after → graph.entity? id = some entity →
    ∃ target counterpart, after = .inline target ∧ other.entity? target = some counterpart ∧
      entity.Reorders change counterpart
  tag : ∀ {bound : Nat} {before after : Edge}, Held.Fits graph bound (.tag before) →
    change.tag before after → graph.MirrorsTag other before after
  schema : ∀ {before after : Schema}, change.schema before after → before.json.Reorders after.json

namespace Graph.Mirrors

variable {graph other : Graph} {change : Change} (mirrors : graph.Mirrors other change)
  (orderly : ∀ id entity, graph.entity? id = some entity → entity.Orderly (Held.Fits graph id))
include mirrors orderly

/-- What a level needs of the level below. -/
theorem reorders_of_inner {depth left right : Nat}
    (agrees : ∀ inner, depth = inner + 1 → (EdgeFormat.nested graph graph left).Reorders
      (.nested other other right) change (Held.Fits graph inner)) :
    (EdgeFormat.nested graph graph (left + 1)).Reorders (.nested other other (right + 1)) change
      (Held.Fits graph depth) where
  edge {category before after} fits changes := by
    cases refers : before.reference? with
    | some reference =>
        exact ⟨reference.json, reference.json, Edge.write_of_reference refers,
          Edge.write_of_reference (mirrors.reference changes refers), .same _⟩
    | none =>
        obtain ⟨id, rfl⟩ := Edge.eq_inline_of_reference? refers
        cases fits with
        | @inline _ _ entity below found filed =>
            cases depth with
            | zero => exact absurd below (Nat.not_lt_zero id)
            | succ depth =>
                obtain ⟨target, counterpart, rfl, foundToo, reorders⟩ :=
                  mirrors.inline changes found
                have fits := (orderly id entity found).mono_bound (Nat.le_of_lt_succ below)
                obtain ⟨leftJson, rightJson, isLeft, isRight, same⟩ :=
                  Format.reorders_entity (agrees depth rfl) fits reorders
                exact ⟨leftJson, rightJson, (Edge.write_of_inline found).trans isLeft,
                  (Edge.write_of_inline foundToo).trans isRight, same⟩
  tagName fits changes := by
    cases mirrors.tag fits changes with
    | @named reference refers refersToo =>
        exact ⟨.string reference.identifier, .string reference.identifier,
          Edge.writeTagName_of_reference refers, Edge.writeTagName_of_reference refersToo, .same _⟩
    | @held id target tag isInline isInlineToo found foundToo =>
        subst isInline isInlineToo
        refine ⟨.string tag.name, .string tag.name, ?_, ?_, .same _⟩
        · simp only [EdgeFormat.nested, Edge.writeTagName, found]
        · simp only [EdgeFormat.nested, Edge.writeTagName, foundToo]
  tag fits changes := by
    cases mirrors.tag fits changes with
    | @named reference refers refersToo =>
        exact ⟨reference.json, reference.json, Edge.write_of_reference refers,
          Edge.write_of_reference refersToo, .same _⟩
    | @held id target tag isInline isInlineToo found foundToo =>
        subst isInline isInlineToo
        obtain ⟨json, written⟩ := Format.total_tag tag
        exact ⟨json, json, (Edge.write_of_inline found).trans written,
          (Edge.write_of_inline foundToo).trans written, .same json⟩
  scheme := mirrors.reference
  schema := mirrors.schema

/-- At no level more is written inline than there is room for. -/
theorem reorders_nested {depth left right : Nat} (leftEnough : depth ≤ left)
    (rightEnough : depth ≤ right) :
    (EdgeFormat.nested graph graph (left + 1)).Reorders (.nested other other (right + 1)) change
      (Held.Fits graph depth) := by
  induction depth generalizing left right with
  | zero => exact reorders_of_inner mirrors orderly nofun
  | succ depth ih =>
      cases left with
      | zero => cases leftEnough
      | succ left =>
          cases right with
          | zero => cases rightEnough
          | succ right =>
              refine reorders_of_inner mirrors orderly ?_
              rintro _ ⟨⟩
              exact ih (Nat.le_of_succ_le_succ leftEnough) (Nat.le_of_succ_le_succ rightEnough)

/-- Documents whose graphs mirror each other have the same written form but for the order of
members.  `bound` is how deep entities nest in them. -/
theorem document_write {document counterpart : Document} {bound : Nat} (enough : bound ≤ graph.size)
    (enoughToo : bound ≤ other.size) (root : document.Orderly (Held.Fits graph bound))
    (reorders : document.Reorders change counterpart) :
    ∃ json otherJson, document.write graph = .ok json ∧ counterpart.write other = .ok otherJson ∧
      json.Reorders otherJson :=
  Format.reorders_document (mirrors.reorders_nested orderly enough enoughToo) root reorders

end Graph.Mirrors

end ApiLinker
