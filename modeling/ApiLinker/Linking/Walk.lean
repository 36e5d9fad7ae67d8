import ApiLinker.Linking.Expansion
import ApiLinker.Linking.Relink
import ApiLinker.Linking.Tour

/-!
Walks: linking all that can be reached from a document.

A linker holds what one or several walks share: the tables it looks things up in, the entities it
has entered, the schemas it has expanded and the tags it has made up.  `Linker.walk` visits the
stops of a tour in order, collecting what is wrong, and then relinks the document and the
entities it entered.  `Document.link` is one walk by a linker made from the document itself.
-/

namespace ApiLinker

structure Linker where
  index : Index
  lookup : Lookup
  synthesizeMissingTags : Bool
  entered : List EntityId := []
  /-- Tags that were made up, by name. -/
  synthesized : Table EntityId := []
  expanded : Table Schema := []
  diagnostics : List Diagnostic := []
  /-- The number of edges and schema pointers linked. -/
  linkCount : Nat := 0

namespace Linker

def new (index : Index) (registry : Registry) (settings : Settings) : Linker where
  index := index
  lookup := .ofRegistry registry settings
  synthesizeMissingTags := settings.synthesizeMissingTags

end Linker

/-- What a walk changes while it visits its stops. -/
structure Progress where
  graph : Graph
  synthesized : Table EntityId
  expanded : Table Schema
  diagnostics : List Diagnostic
  linkCount : Nat

abbrev Visiting := StateM Progress

namespace Visiting

def report (path : List String) (problem : Problem) : Visiting Unit :=
  modify fun progress =>
    { progress with diagnostics := progress.diagnostics ++ [{ path, problem }] }

def countLink : Visiting Unit :=
  modify fun progress => { progress with linkCount := progress.linkCount + 1 }

/-- Makes up a tag, unless one of that name was made up before. -/
def synthesizeTag (name : String) : Visiting Unit :=
  modify fun progress =>
    match Table.find? name progress.synthesized with
    | some _ => progress
    | none =>
        let (id, graph) := progress.graph.add (.tag { name })
        { progress with graph, synthesized := Table.insert name id progress.synthesized }

/-- Runs an expansion on the schemas of the graph. -/
def expanding (expand : Expanding α) : Visiting α := fun progress =>
  let (result, expansion) := expand.run {
    schemaCount := progress.graph.schemaCount
    expanded := progress.expanded
    problems := progress.diagnostics
    replaced := progress.linkCount }
  (result, { progress with
    graph := { progress.graph with schemaCount := expansion.schemaCount }
    expanded := expansion.expanded
    diagnostics := expansion.problems
    linkCount := expansion.replaced })

end Visiting

namespace Linker

open Visiting

def visitReference (linker : Linker) (path : List String) (category : Category)
    (reference : Reference) : Visiting Unit := do
  if reference.isExternal then
    if linker.lookup.strict then report path (.externalReference reference)
  else
    match linker.index.resolve category reference with
    | .ok _ => countLink
    | .error problem => report path problem

/-- A local tag that is nowhere declared is made up, if the settings ask for it. -/
def visitTagReference (linker : Linker) (path : List String) (reference : Reference) :
    Visiting Unit := do
  if reference.isExternal || !linker.synthesizeMissingTags then
    linker.visitReference path .tags reference
  else
    match linker.index.resolve .tags reference with
    | .ok _ => countLink
    | .error (.notFound _ _) =>
        synthesizeTag reference.identifier
        countLink
    | .error problem => report path problem

/-- Visits a stop.  The result is the new schema, where the stop holds one. -/
def visit (linker : Linker) (stop : Stop) : Visiting (Option Schema) := do
  match stop.held with
  | .edge category (.placeholder reference) =>
      linker.visitReference stop.path category reference
      return none
  | .tag (.placeholder reference) =>
      linker.visitTagReference stop.path reference
      return none
  | .edge _ _ | .tag _ => return none
  | .schema schema => some <$> expanding (linker.lookup.expand schema stop.path)
  | .namedSchema name schema =>
      some <$> expanding (linker.lookup.expandNamed name schema stop.path)

/-- What a reference to a tag becomes once the missing tags are made up. -/
def linkTag (linker : Linker) (synthesized : Table EntityId) (edge : Edge) : Edge :=
  match edge with
  | .placeholder reference =>
      if reference.isExternal || !linker.synthesizeMissingTags then linker.index.link .tags edge
      else match linker.index.resolve .tags reference with
        | .ok target => .linked reference target
        | .error (.notFound _ _) =>
            match Table.find? reference.identifier synthesized with
            | some target => .inline target
            | none => edge
        | .error _ => edge
  | .linked _ _ | .inline _ => edge

def edgeMap (linker : Linker) (synthesized : Table EntityId) : EdgeMap where
  edge := linker.index.link
  tag := linker.linkTag synthesized

/-- The new schemas of a holder, in the order of its places. -/
def schemasFor (holder : Holder) (results : List (Stop × Option Schema)) : List Schema :=
  results.filterMap fun (stop, schema) => if stop.holder = holder then schema else none

def relinkEntity (edges : EdgeMap) (results : List (Stop × Option Schema)) (graph : Graph)
    (id : EntityId) : Graph :=
  match graph.entity? id with
  | some entity => graph.replace id (entity.relink edges (schemasFor (.entity id) results))
  | none => graph

/-- The state in which a walk visits its first stop. -/
def firstProgress (linker : Linker) (graph : Graph) : Progress where
  graph := graph
  synthesized := linker.synthesized
  expanded := linker.expanded
  diagnostics := []
  linkCount := linker.linkCount

/-- What a walk leaves behind that has entered these entities by now and come to these results. -/
def finish (linker : Linker) (document : Document) (entered : List EntityId)
    (results : List (Stop × Option Schema)) (progress : Progress) : Linker × Graph × Document :=
  let edges := linker.edgeMap progress.synthesized
  let newlyEntered := entered.filter fun id => !linker.entered.contains id
  let diagnostics := progress.diagnostics.map fun diagnostic =>
    { diagnostic with problem := diagnostic.problem.withHost document.location }
  ({ linker with
      entered
      synthesized := progress.synthesized
      expanded := progress.expanded
      diagnostics := linker.diagnostics ++ diagnostics
      linkCount := progress.linkCount },
    newlyEntered.foldl (relinkEntity edges results) progress.graph,
    document.relink edges (schemasFor .document results))

def walk (linker : Linker) (graph : Graph) (document : Document) : Linker × Graph × Document :=
  let (stops, entered) := graph.tour linker.index linker.entered document
  let (schemas, progress) := (stops.mapM linker.visit).run (linker.firstProgress graph)
  linker.finish document entered (stops.zip schemas) progress

end Linker

namespace Document

def registry (document : Document) (authority : String) : Registry :=
  .ofSchemas authority document.namedObjects.schemas

/-- Links a document to its own objects and schemas.  What could not be linked is reported; nothing
reported means that every local reference was linked. -/
def link (document : Document) (graph : Graph) (settings : Settings) :
    List Diagnostic × Graph × Document :=
  let linker := Linker.new (.ofDocument graph document)
    (document.registry settings.schemaAuthority) settings
  let (linker, graph, document) := linker.walk graph document
  (linker.diagnostics, graph, document)

end Document

end ApiLinker
