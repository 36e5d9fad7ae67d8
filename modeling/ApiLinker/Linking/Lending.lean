import ApiLinker.Linking.Walk

/-!
Walks that borrow what they go through.

`Linker.walk` knows its tour beforehand.  `Linker.lend` finds its way as it goes: right after an edge
it enters the entity that the edge leads to, which is on loan for as long as its places are gone
through and cannot be borrowed a second time before it is given back.
-/

namespace ApiLinker

inductive LendingFault where
  /-- What is to be borrowed is still on loan. -/
  | onLoan (id : EntityId)
  /-- More entities are gone through at once than expected. -/
  | tooDeep
deriving DecidableEq, Repr

structure Lending where
  progress : Progress
  entered : List EntityId
  /-- What is borrowed and not yet given back, the latest first. -/
  onLoan : List EntityId := []
  /-- All that has been borrowed so far, the latest first. -/
  borrowed : List EntityId := []
  visited : List Stop := []
  /-- The new schemas of the stops that were visited. -/
  schemas : List (Option Schema) := []

abbrev Borrowing := StateT Lending (Except LendingFault)

namespace Borrowing

def borrow (id : EntityId) : Borrowing Unit := do
  let lending ← get
  if id ∈ lending.onLoan then throw (.onLoan id)
  set { lending with onLoan := id :: lending.onLoan, borrowed := id :: lending.borrowed }

def giveBack (id : EntityId) : Borrowing Unit :=
  modify fun lending => { lending with onLoan := lending.onLoan.erase id }

/-- Enters an entity, unless it was entered before. -/
def enter (graph : Graph) (id : EntityId) (goThrough : Entity → Borrowing Unit) :
    Borrowing Unit := do
  if id ∈ (← get).entered then return
  match graph.entity? id with
  | none => return
  | some entity =>
      modify fun lending => { lending with entered := id :: lending.entered }
      borrow id
      goThrough entity
      giveBack id

def visit (linker : Linker) (stop : Stop) : Borrowing Unit :=
  modify fun lending =>
    let (schema, progress) := linker.visit stop lending.progress
    { lending with
      progress
      visited := lending.visited ++ [stop]
      schemas := lending.schemas ++ [schema] }

/-- Visits a stop, and enters what it leads to. -/
def follow (linker : Linker) (graph : Graph) (goThrough : List Stop → Borrowing Unit)
    (stop : Stop) : Borrowing Unit := do
  visit linker stop
  match stop.leadsTo? linker.index with
  | none => return
  | some id => enter graph id fun entity =>
      goThrough ((Holder.entity id).stops stop.path entity.places)

/-- Follows stops one after the other.  No more than `depth` holders may be gone through at once. -/
def goThrough (linker : Linker) (graph : Graph) : (depth : Nat) → List Stop → Borrowing Unit
  | 0, _ => throw .tooDeep
  | depth + 1, stops => stops.forM (follow linker graph (goThrough linker graph depth))

end Borrowing

namespace Linker

/-- Goes through a document and all that its edges lead to. -/
def lend (linker : Linker) (graph : Graph) (document : Document) : Except LendingFault Lending := do
  let ((), lending) ← (Borrowing.goThrough linker graph (graph.size + 1)
    (Holder.document.stops [] document.places)).run
      { progress := linker.firstProgress graph, entered := linker.entered }
  return lending

/-- What is left behind by a walk that borrows. -/
def finishLending (linker : Linker) (document : Document) (lending : Lending) :
    Linker × Graph × Document :=
  linker.finish document lending.entered (lending.visited.zip lending.schemas) lending.progress

end Linker

end ApiLinker
