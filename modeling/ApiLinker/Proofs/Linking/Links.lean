import ApiLinker.Linking.Walk
import ApiLinker.Proofs.Linking.Changing

/-!
What a walk makes of edges.

A placeholder becomes a link to the entity that the index gives for its reference, and stays where
the index gives none; all other edges stay.  Tags that the index does not have are made up, if the
linker does so.  `Walked` says that this is what became of a document and of all that can be reached
from it.
-/

namespace ApiLinker

/-- What becomes of an edge that is looked up in an index. -/
inductive Index.Links (index : Index) (category : Category) : Edge → Edge → Prop where
  | linked (reference : Reference) (target : EntityId) :
      Links index category (.linked reference target) (.linked reference target)
  | inline (target : EntityId) : Links index category (.inline target) (.inline target)
  | found {reference : Reference} {target : EntityId} (isLocal : reference.isExternal = false)
      (resolved : index.resolve category reference = .ok target) :
      Links index category (.placeholder reference) (.linked reference target)
  | external {reference : Reference} (isExternal : reference.isExternal = true) :
      Links index category (.placeholder reference) (.placeholder reference)
  | missing {reference : Reference} {problem : Problem}
      (failed : index.resolve category reference = .error problem) :
      Links index category (.placeholder reference) (.placeholder reference)

/-- The reference is to a local tag that the index does not have, and such tags are made up. -/
def Linker.MakesUp (linker : Linker) (reference : Reference) : Prop :=
  linker.synthesizeMissingTags = true ∧ reference.isExternal = false ∧
    ∃ category other, linker.index.resolve .tags reference = .error (.notFound category other)

/-- What becomes of an edge to a tag.  A made-up tag has nothing but its name. -/
inductive Linker.LinksTag (linker : Linker) (graph : Graph) : Edge → Edge → Prop where
  | lookedUp {before after : Edge}
      (known : ∀ reference, before = .placeholder reference → ¬ linker.MakesUp reference)
      (links : linker.index.Links .tags before after) : LinksTag linker graph before after
  | madeUp {reference : Reference} {target : EntityId} (missing : linker.MakesUp reference)
      (bare : graph.entity? target = some (.tag { name := reference.identifier })) :
      LinksTag linker graph (.placeholder reference) (.inline target)

/-- What a walk that ends with `graph` does to edges, with schemas in the relation `R`. -/
def Linker.change (linker : Linker) (graph : Graph) (R : Schema → Schema → Prop) : Change where
  edge := linker.index.Links
  tag := linker.LinksTag graph
  schema := R

/-- An edge that the document holds leads to the entity, or one that an entity so reached holds.
Edges to tags are left out, as tags hold nothing. -/
inductive Graph.Reaches (graph : Graph) (document : Document) : EntityId → Prop where
  | root {category : Category} {edge : Edge} {target : EntityId}
      (holds : document.Holds (.edge category edge)) (leads : edge.target? = some target) :
      Reaches graph document target
  | step {id target : EntityId} {entity : Entity} {category : Category} {edge : Edge}
      (reached : Reaches graph document id) (found : graph.entity? id = some entity)
      (holds : entity.Holds (.edge category edge)) (leads : edge.target? = some target) :
      Reaches graph document target

/-- The document holds it, or an entity that can be reached from the document. -/
inductive Graph.Shows (graph : Graph) (document : Document) (held : Held) : Prop where
  | root (holds : document.Holds held)
  | inside {id : EntityId} {entity : Entity} (reached : graph.Reaches document id)
      (found : graph.entity? id = some entity) (holds : entity.Holds held)

/-- The document holds it, or some entity of the graph, whether it can be reached or not. -/
inductive Graph.Has (graph : Graph) (document : Document) (held : Held) : Prop where
  | root (holds : document.Holds held)
  | inside {id : EntityId} {entity : Entity} (found : graph.entity? id = some entity)
      (holds : entity.Holds held)

/-- All that can be reached afterwards has changed as it should and nothing else, and only tags are
new. -/
structure Walked (change : Change) (graph : Graph) (document : Document) (laterGraph : Graph)
    (later : Document) : Prop where
  root : document.Changes change later
  reached : ∀ id before, laterGraph.Reaches later id → graph.entity? id = some before →
    ∃ after, laterGraph.entity? id = some after ∧ before.Changes change after
  untouched : ∀ id before, ¬ laterGraph.Reaches later id → graph.entity? id = some before →
    laterGraph.entity? id = some before
  added : ∀ id entity, graph.entity? id = none → laterGraph.entity? id = some entity →
    ∃ tag, entity = .tag tag

namespace Walked

variable {change weaker : Change} {graph laterGraph : Graph} {document later : Document}

theorem imp (walked : Walked change graph document laterGraph later)
    (implies : ∀ held, change.Implies weaker held) :
    Walked weaker graph document laterGraph later where
  root := walked.root.imp fun held _ => implies held
  reached id before reaches found := by
    obtain ⟨after, isAfter, changes⟩ := walked.reached id before reaches found
    exact ⟨after, isAfter, changes.imp fun held _ => implies held⟩
  untouched := walked.untouched
  added := walked.added

/-- Whatever is found after a walk has come of something by the change. -/
theorem shown_before (walked : Walked change graph document laterGraph later) {held : Held}
    (shows : laterGraph.Shows later held) :
    ∃ origin, graph.Has document origin ∧ change.Allows origin held := by
  cases shows with
  | root holds =>
      obtain ⟨origin, before, allowed⟩ := walked.root.held_before holds
      exact ⟨origin, .root before, allowed⟩
  | @inside id entity reached found holds =>
      cases old : graph.entity? id with
      | none =>
          obtain ⟨tag, rfl⟩ := walked.added id entity old found
          cases holds
      | some before =>
          obtain ⟨after, isAfter, changes⟩ := walked.reached id before reached old
          cases found.symm.trans isAfter
          obtain ⟨origin, before, allowed⟩ := changes.held_before holds
          exact ⟨origin, .inside old before, allowed⟩

/-- Where edges stay, whatever could be reached still can. -/
theorem reaches_after (walked : Walked change graph document laterGraph later)
    (edges : ∀ category before after, change.edge category before after → before = after)
    {id : EntityId} (reaches : graph.Reaches document id) : laterGraph.Reaches later id := by
  induction reaches with
  | root holds leads =>
      obtain ⟨result, held, allowed⟩ := walked.root.held_after holds
      cases allowed with
      | edge changes => exact .root held (edges _ _ _ changes ▸ leads)
  | step _ found holds leads reached =>
      obtain ⟨after, isAfter, changes⟩ := walked.reached _ _ reached found
      obtain ⟨result, held, allowed⟩ := changes.held_after holds
      cases allowed with
      | edge changes => exact .step reached isAfter held (edges _ _ _ changes ▸ leads)

theorem shown_after (walked : Walked change graph document laterGraph later)
    (edges : ∀ category before after, change.edge category before after → before = after)
    {held : Held} (shows : graph.Shows document held) :
    ∃ result, laterGraph.Shows later result ∧ change.Allows held result := by
  cases shows with
  | root holds =>
      obtain ⟨result, held, allowed⟩ := walked.root.held_after holds
      exact ⟨result, .root held, allowed⟩
  | inside reached found holds =>
      have stillReached := walked.reaches_after edges reached
      obtain ⟨after, isAfter, changes⟩ := walked.reached _ _ stillReached found
      obtain ⟨result, held, allowed⟩ := changes.held_after holds
      exact ⟨result, .inside stillReached isAfter held, allowed⟩

end Walked

namespace Index

variable {index : Index} {category : Category} {before after edge : Edge}

theorem links_link (index : Index) (category : Category) (edge : Edge) :
    index.Links category edge (index.link category edge) := by
  cases edge with
  | linked reference target => exact .linked reference target
  | inline target => exact .inline target
  | placeholder reference =>
      rw [link]
      split
      · rename_i isExternal
        exact .external isExternal
      · rename_i isLocal
        split
        · rename_i resolved
          exact .found (Bool.not_eq_true _ ▸ isLocal) resolved
        · rename_i failed
          exact .missing failed

/-- An edge that has been looked up is looked up to no further effect. -/
theorem Links.link_eq (links : index.Links category before after) :
    index.link category after = after := by
  cases links with
  | linked | inline | found => rfl
  | external isExternal => simp [link, isExternal]
  | missing failed => simp [link, failed]

/-- A placeholder that is left is one that cannot be looked up. -/
theorem Links.unresolved {reference : Reference}
    (links : index.Links category before (.placeholder reference)) :
    reference.isExternal = true ∨ ∃ problem, index.resolve category reference = .error problem := by
  cases links with
  | external isExternal => exact .inl isExternal
  | missing failed => exact .inr ⟨_, failed⟩

theorem Links.eq_link (links : index.Links category before after) :
    after = index.link category before := by
  cases links with
  | linked | inline => rfl
  | found isLocal resolved => simp [link, isLocal, resolved]
  | external isExternal => simp [link, isExternal]
  | missing failed => simp [link, failed]

end Index

namespace Linker

variable {linker : Linker} {graph : Graph} {synthesized : Table EntityId} {before after : Edge}

theorem linkTag_of_makesUp {reference : Reference} {target : EntityId}
    (missing : linker.MakesUp reference)
    (found : Table.find? reference.identifier synthesized = some target) :
    linker.linkTag synthesized (.placeholder reference) = .inline target := by
  obtain ⟨synthesizes, isLocal, category, other, failed⟩ := missing
  simp [linkTag, synthesizes, isLocal, failed, found]

theorem linkTag_of_known
    (known : ∀ reference, before = .placeholder reference → ¬ linker.MakesUp reference) :
    linker.linkTag synthesized before = linker.index.link .tags before := by
  cases before with
  | linked | inline => rfl
  | placeholder reference =>
      have known := known reference rfl
      simp only [linkTag]
      split
      · rfl
      · rename_i asked
        simp only [Bool.or_eq_true, Bool.not_eq_true', not_or, Bool.not_eq_true,
          Bool.not_eq_false] at asked
        simp only [Index.link, asked.1, Bool.false_eq_true, ↓reduceIte]
        split
        · rename_i resolved
          simp only [resolved]
        · rename_i category other failed
          exact absurd ⟨asked.2, asked.1, category, other, failed⟩ known
        · rename_i failed
          simp only [failed]

theorem linksTag_linkTag (made : ∀ reference, before = .placeholder reference →
    linker.MakesUp reference →
    ∃ target, Table.find? reference.identifier synthesized = some target ∧
      graph.entity? target = some (.tag { name := reference.identifier })) :
    linker.LinksTag graph before (linker.linkTag synthesized before) := by
  by_cases known : ∀ reference, before = .placeholder reference → ¬ linker.MakesUp reference
  · rw [linkTag_of_known known]
    exact .lookedUp known (linker.index.links_link .tags before)
  · simp only [not_forall, not_not] at known
    obtain ⟨reference, rfl, missing⟩ := known
    obtain ⟨target, found, bare⟩ := made reference rfl missing
    rw [linkTag_of_makesUp missing found]
    exact .madeUp missing bare

/-- After a walk there is no reference left to a tag that would have to be made up. -/
theorem LinksTag.known (links : linker.LinksTag graph before after) :
    ∀ reference, after = .placeholder reference → ¬ linker.MakesUp reference := by
  intro reference same
  cases links with
  | lookedUp known links =>
      cases links with
      | linked | inline | found => cases same
      | external | missing => exact known reference same
  | madeUp => cases same

theorem LinksTag.links_of_not_synthesizing (links : linker.LinksTag graph before after)
    (plain : linker.synthesizeMissingTags = false) : linker.index.Links .tags before after := by
  cases links with
  | lookedUp _ links => exact links
  | madeUp missing _ => cases plain.symm.trans missing.1

theorem LinksTag.unresolved {reference : Reference}
    (links : linker.LinksTag graph before (.placeholder reference)) :
    reference.isExternal = true ∨
      ∃ problem, linker.index.resolve .tags reference = .error problem := by
  cases links with
  | lookedUp _ links => exact links.unresolved

end Linker

end ApiLinker
