import ApiLinker.Entity

/-!
Graphs: what entity numbers stand for.

A graph only grows: entities get numbers in the order in which they are added, and keep them when
their contents change.  It also counts the schema nodes that have been given a number.
-/

namespace ApiLinker

structure Graph where
  entities : Array Entity := #[]
  schemaCount : Nat := 0

namespace Graph

def size (graph : Graph) : Nat :=
  graph.entities.size

def entity? (graph : Graph) (id : EntityId) : Option Entity :=
  graph.entities[id]?

/-- Adds an entity under the next number. -/
def add (graph : Graph) (entity : Entity) : EntityId × Graph :=
  (graph.size, { graph with entities := graph.entities.push entity })

def replace (graph : Graph) (id : EntityId) (entity : Entity) : Graph :=
  { graph with entities := graph.entities.setIfInBounds id entity }

theorem lt_size_of_entity? {graph : Graph} {id : EntityId} {entity : Entity}
    (found : graph.entity? id = some entity) : id < graph.size :=
  (Array.getElem?_eq_some_iff.mp found).1

theorem size_le_of_entity? {graph : Graph} {id : EntityId}
    (missing : graph.entity? id = none) : graph.size ≤ id :=
  Array.getElem?_eq_none_iff.mp missing

theorem entity?_add (graph : Graph) (entity : Entity) :
    (graph.add entity).2.entity? (graph.add entity).1 = some entity := by
  simp [add, entity?, size]

theorem entity?_add_of_ne {graph : Graph} {id : EntityId} (different : id ≠ graph.size)
    (entity : Entity) : (graph.add entity).2.entity? id = graph.entity? id := by
  simp only [size] at different
  simp [add, entity?, Array.getElem?_push, different]

theorem size_add (graph : Graph) (entity : Entity) :
    (graph.add entity).2.size = graph.size + 1 := by
  simp [add, size]

theorem entity?_replace {graph : Graph} {id : EntityId} (known : id < graph.size)
    (entity : Entity) (other : EntityId) :
    (graph.replace id entity).entity? other =
      if other = id then some entity else graph.entity? other := by
  simp only [size] at known
  simp only [replace, entity?, Array.getElem?_setIfInBounds]
  by_cases same : other = id
  · simp [same, known]
  · simp [same, Ne.symm same]

theorem size_replace (graph : Graph) (id : EntityId) (entity : Entity) :
    (graph.replace id entity).size = graph.size := by
  simp [replace, size]

end Graph

end ApiLinker
