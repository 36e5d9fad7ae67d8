import ApiLinker.Index
import ApiLinker.Linking.Place
import ApiLinker.Search

/-!
Tours: every place a walk visits, in order.

A walk visits the places of the document and, right after an edge that leads to an entity, the
places of that entity, unless it was entered before.  Where an edge leads depends on the index
alone, so the tour is known before anything is linked.
-/

namespace ApiLinker

inductive Holder where
  | document
  | entity (id : EntityId)
deriving DecidableEq, Repr

/-- A place that is visited: who holds it, how it was reached, and what is held there. -/
structure Stop where
  holder : Holder
  path : List String
  held : Held

def Holder.stops (holder : Holder) (path : List String) (places : List Place) : List Stop :=
  places.map fun place => { holder, path := path ++ place.path, held := place.held }

namespace Index

/-- What a local placeholder becomes: a link to the entity that is registered, if there is one. -/
def link (index : Index) (category : Category) (edge : Edge) : Edge :=
  match edge with
  | .placeholder reference =>
      if reference.isExternal then edge
      else match index.resolve category reference with
        | .ok target => .linked reference target
        | .error _ => edge
  | .linked _ _ | .inline _ => edge

end Index

/-- The entity that is entered at a stop, unless it was entered before.  Tags and schemas are not
entered. -/
def Stop.leadsTo? (index : Index) (stop : Stop) : Option EntityId :=
  match stop.held with
  | .edge category edge => (index.link category edge).target?
  | .tag _ | .schema _ | .namedSchema _ _ => none

namespace Graph

def placesOf (graph : Graph) (id : EntityId) : List Place :=
  ((graph.entity? id).map Entity.places).getD []

def tourSearch (graph : Graph) (index : Index) : Search Stop EntityId where
  keys := List.range graph.size
  key? := Stop.leadsTo? index
  contents stop id := (Holder.entity id).stops stop.path (graph.placesOf id)
  size id := (graph.placesOf id).length
  contents_length _ _ := by simp [Holder.stops]

/-- The stops of a walk through a document, and all entities entered by now.  `entered` are those
entered by earlier walks. -/
def tour (graph : Graph) (index : Index) (entered : List EntityId) (document : Document) :
    List Stop × List EntityId :=
  (graph.tourSearch index).run entered (Holder.document.stops [] document.places)

end Graph

end ApiLinker
