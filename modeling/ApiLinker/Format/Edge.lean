import ApiLinker.Format.Entity

/-!
The format of edges.

Where an entity is expected, an object with a `$ref` is a reference, and anything else is the entity
itself, held in place.  Entities nest, so the format of edges is defined level by level: at a level
below it is what the formats of entities use.  Texts nest less deep than `readingDepth`, and inline
entities of a graph that is no deeper than it is large.
-/

namespace ApiLinker

namespace Edge

variable (inner : EdgeFormat)

/-- Reads a reference or else an entity, which gets a number. -/
def read (category : Category) (node : Json.Node) : Decoder Graph Edge := fun graph => do
  let _ ← node.value
  match Format.reference.read node graph with
  | .ok (reference, _) => return (.placeholder reference, graph)
  | .error _ =>
      match Format.readEntity inner category node graph with
      | .ok (entity, graph) =>
          let (id, graph) := graph.add entity
          return (.inline id, graph)
      | .error _ => throw (.noAlternative "Repr")

def write (graph : Graph) : Edge → Except WriteFault Json
  | .placeholder reference | .linked reference _ => Format.reference.codec.write reference
  | .inline target =>
      match graph.entity? target with
      | some entity => Format.writeEntity inner entity
      | none => .error .missingEntity

def sameTarget (leftGraph rightGraph : Graph) (left right : EntityId) : Bool :=
  match leftGraph.entity? left, rightGraph.entity? right with
  | some left, some right => Format.sameEntity inner left right
  | _, _ => false

def same (leftGraph rightGraph : Graph) : Edge → Edge → Bool
  | .placeholder left, .placeholder right => left == right
  | .linked left leftTarget, .linked right rightTarget =>
      left == right && sameTarget inner leftGraph rightGraph leftTarget rightTarget
  | .inline left, .inline right => sameTarget inner leftGraph rightGraph left right
  | _, _ => false

def readTagName (node : Json.Node) : Decoder Graph Edge := do
  return .placeholder (Reference.toTag (← Codec.readString node))

def writeTagName (graph : Graph) : Edge → Except WriteFault Json
  | .placeholder reference | .linked reference _ => .ok (.string reference.identifier)
  | .inline target =>
      match graph.entity? target with
      | some (.tag tag) => .ok (.string tag.name)
      | _ => .error .missingEntity

end Edge

namespace EdgeFormat

/-- The format at which nothing can be nested any more. -/
def bottom : EdgeFormat where
  edge _ := {
    read _ := throw .tooDeep
    write _ := .error .endlessNesting
    same _ _ := false }
  tagName := {
    read _ := throw .tooDeep
    write _ := .error .endlessNesting
    same _ _ := false }

/-- The format of edges over at most `depth` levels of entities.  It writes edges of the graph
`left` and compares them with edges of the graph `right`. -/
def nested (left right : Graph) : (depth : Nat) → EdgeFormat
  | 0 => bottom
  | depth + 1 =>
      let inner := nested left right depth
      let same := Edge.same inner left right
      { edge := fun category =>
          { read := Edge.read inner category, write := Edge.write inner left, same }
        tagName := { read := Edge.readTagName, write := Edge.writeTagName left, same } }

def readingDepth : Nat :=
  Json.nestingLimit + 1

def reading : EdgeFormat :=
  nested {} {} readingDepth

def writing (graph : Graph) : EdgeFormat :=
  nested graph graph (graph.size + 1)

def comparing (left right : Graph) : EdgeFormat :=
  nested left right (left.size + 1)

end EdgeFormat

end ApiLinker
