import ApiLinker.Proofs.Linking.Logging
import ApiLinker.Proofs.Simulation

/-!
Walks by linkers that match.

Two look-ups match when they find, follow and leave the same pointers, though the locators they do it
by may differ, and so may what they report of the pointers that stay.  Walks by linkers with the same
index and with look-ups that match make the same changes, and what they tell is the same.
-/

namespace ApiLinker

/-- What is told of diagnostics: none or one for each, at the same place. -/
def Diagnostic.told (tell : Problem → Option Problem) (diagnostics : List Diagnostic) :
    List Diagnostic :=
  diagnostics.filterMap fun diagnostic =>
    (tell diagnostic.problem).map fun problem => { diagnostic with problem }

theorem Diagnostic.told_concat (tell : Problem → Option Problem) (diagnostics : List Diagnostic)
    (path : List String) (problem : Problem) :
    told tell (diagnostics ++ [⟨path, problem⟩]) =
      told tell diagnostics ++ ((tell problem).map (Diagnostic.mk path)).toList := by
  cases isTold : tell problem <;> simp [told, isTold]

theorem Diagnostic.told_of_none {tell : Problem → Option Problem} {problem : Problem}
    (untold : tell problem = none) (diagnostics : List Diagnostic) (path : List String) :
    told tell (diagnostics ++ [⟨path, problem⟩]) = told tell diagnostics := by
  simp [told_concat, untold]

theorem Diagnostic.told_some (change : Problem → Problem) (diagnostics : List Diagnostic) :
    told (fun problem => some (change problem)) diagnostics =
      diagnostics.map fun diagnostic => { diagnostic with problem := change diagnostic.problem } :=
  congrFun List.filterMap_eq_map diagnostics

theorem Diagnostic.told_map_withHost {tell : Problem → Option Problem} {host : Option String}
    (blind : ∀ problem, tell (problem.withHost host) = (tell problem).map (Problem.withHost host))
    (diagnostics : List Diagnostic) :
    told tell (diagnostics.map (Diagnostic.withHost host)) =
      (told tell diagnostics).map (Diagnostic.withHost host) := by
  simp only [told, List.filterMap_map, List.map_filterMap]
  refine List.filterMap_congr fun diagnostic _ => ?_
  simp only [Function.comp_apply, withHost, blind, Option.map_map]
  rfl

/-- What is told of one problem that is reported, or of none. -/
def Problem.tellIf (reported : Bool) (tell : Problem → Option Problem) (problem : Problem) :
    Option Problem :=
  if reported then tell problem else none

namespace Lookup

variable (tell tellToo : Problem → Option Problem)

structure Matches (left right : Lookup) : Prop where
  depth : left.depth = right.depth
  /-- Two pointers have one locator for both look-ups or for none. -/
  locator : ∀ pointer other,
    Locator.ofPointer left.authority pointer = Locator.ofPointer left.authority other ↔
      Locator.ofPointer right.authority pointer = Locator.ofPointer right.authority other
  registry : ∀ pointer, left.registry.get? (Locator.ofPointer left.authority pointer) =
    right.registry.get? (Locator.ofPointer right.authority pointer)
  isCyclic : ∀ pointer, left.links.isCyclic (Locator.ofPointer left.authority pointer) =
    right.links.isCyclic (Locator.ofPointer right.authority pointer)
  missing : ∀ pointer,
    tell (.schemaNotFound pointer (Locator.ofPointer left.authority pointer)) =
      tellToo (.schemaNotFound pointer (Locator.ofPointer right.authority pointer))
  external : ∀ pointer, Problem.tellIf left.strict tell (.externalSchema pointer) =
    Problem.tellIf right.strict tellToo (.externalSchema pointer)

end Lookup

/-- States of expansion that differ only in the locators of what was expanded, and in reports that
are not told. -/
structure Expansion.Matches (tell tellToo : Problem → Option Problem) (left right : Lookup)
    (before other : Expansion) : Prop where
  schemaCount : before.schemaCount = other.schemaCount
  replaced : before.replaced = other.replaced
  expanded : ∀ pointer,
    Table.find? (Locator.ofPointer left.authority pointer) before.expanded =
      Table.find? (Locator.ofPointer right.authority pointer) other.expanded
  problems : Diagnostic.told tell before.problems = Diagnostic.told tellToo other.problems

section

open Expanding Schema

variable {tell tellToo : Problem → Option Problem} {left right : Lookup}

theorem simulates_report {path : List String} {problem problemToo : Problem}
    (same : tell problem = tellToo problemToo) :
    Simulates (Expansion.Matches tell tellToo left right) (report path problem)
      (report path problemToo) :=
  .modify fun _ _ states => { states with
    problems := by simp only [Diagnostic.told_concat, states.problems, same] }

theorem simulates_reportIf {path : List String} {reported reportedToo : Bool} {problem : Problem}
    {value : α} (same : Problem.tellIf reported tell problem = Problem.tellIf reportedToo tellToo problem) :
    Simulates (Expansion.Matches tell tellToo left right)
      (if reported then do report path problem; return value else return value)
      (if reportedToo then do report path problem; return value else return value) := by
  intro before other states
  cases reported <;> cases reportedToo
  · exact ⟨rfl, states⟩
  · have untold := Diagnostic.told_of_none same.symm other.problems path
    exact ⟨rfl, { states with problems := states.problems.trans untold.symm }⟩
  · have untold := Diagnostic.told_of_none same before.problems path
    exact ⟨rfl, { states with problems := untold.trans states.problems }⟩
  · exact (simulates_report same).bind (fun _ => .pure value) before other states

theorem simulates_addNode (body : SchemaBody Schema) :
    Simulates (Expansion.Matches tell tellToo left right) (addNode body) (addNode body) :=
  fun _ _ states => ⟨by simp only [addNode, states.schemaCount],
    { states with schemaCount := congrArg (· + 1) states.schemaCount }⟩

theorem simulates_expanded? (pointer : String) :
    Simulates (Expansion.Matches tell tellToo left right)
      (expanded? (Locator.ofPointer left.authority pointer))
      (expanded? (Locator.ofPointer right.authority pointer)) :=
  fun _ _ states => ⟨states.expanded pointer, states⟩

section

variable (lookups : left.Matches tell tellToo right)
include lookups

theorem simulates_store (pointer : String) (schema : Schema) :
    Simulates (Expansion.Matches tell tellToo left right)
      (store (Locator.ofPointer left.authority pointer) schema)
      (store (Locator.ofPointer right.authority pointer) schema) := by
  refine .modify fun before other states => { states with expanded := fun sought => ?_ }
  by_cases same : Locator.ofPointer left.authority sought = Locator.ofPointer left.authority pointer
  · simp only [same, (lookups.locator _ _).mp same, Table.find?_insert_self]
  · have sameToo := mt (lookups.locator _ _).mpr same
    simp only [Table.find?_insert_of_ne same, Table.find?_insert_of_ne sameToo, states.expanded]

variable {follow followToo : List String → String → Expanding (Option Schema)}
variable (followed : ∀ path pointer, Simulates (Expansion.Matches tell tellToo left right)
  (follow path pointer) (followToo path pointer))
include followed

omit lookups in
theorem simulates_expandWith (schema : Schema) (path : List String) :
    Simulates (Expansion.Matches tell tellToo left right) (schema.expandWith follow path)
      (schema.expandWith followToo path) := by
  induction schema using induct generalizing path with
  | node id body ih =>
      cases points : body.reference with
      | some pointer =>
          rw [expandWith_pointer points, expandWith_pointer points]
          refine (followed path pointer).bind fun result => ?_
          cases result with
          | none => exact .pure _
          | some target =>
              have counted : Simulates (Expansion.Matches tell tellToo left right)
                  (modify fun state => { state with replaced := state.replaced + 1 })
                  (modify fun state => { state with replaced := state.replaced + 1 }) :=
                .modify fun _ _ states =>
                  { states with replaced := congrArg (· + 1) states.replaced }
              exact counted.bind fun _ => .pure target
      | none =>
          rw [expandWith_plain points, expandWith_plain points]
          refine (Simulates.mapVisits fun slot child member =>
            ih child member (path ++ slot.segments)).bind fun children => ?_
          split
          · exact .pure _
          · exact simulates_addNode _

theorem simulates_expandNamedWith (pointer : String) (schema : Schema) (path : List String) :
    Simulates (Expansion.Matches tell tellToo left right)
      (schema.expandNamedWith follow (Locator.ofPointer left.authority pointer) path)
      (schema.expandNamedWith followToo (Locator.ofPointer right.authority pointer) path) := by
  refine (simulates_expanded? pointer).bind fun found => ?_
  cases found with
  | some known => exact .pure known
  | none =>
      refine (simulates_expandWith followed schema path).bind fun expansion => ?_
      exact (simulates_store lookups pointer expansion).bind fun _ => .pure expansion

end

theorem simulates_follow (lookups : left.Matches tell tellToo right) (depth : Nat)
    (path : List String) (pointer : String) :
    Simulates (Expansion.Matches tell tellToo left right) (left.follow depth path pointer)
      (right.follow depth path pointer) := by
  induction depth generalizing path pointer with
  | zero => exact .pure none
  | succ depth ih =>
      simp only [Lookup.follow, ← lookups.isCyclic, ← lookups.registry]
      split
      · exact simulates_reportIf (lookups.external pointer)
      · split
        · exact .pure none
        · refine (simulates_expanded? pointer).bind fun found => ?_
          cases found with
          | some known => exact .pure _
          | none =>
              cases left.registry.get? (Locator.ofPointer left.authority pointer) with
              | none => exact (simulates_report (lookups.missing pointer)).bind fun _ => .pure none
              | some schema =>
                  exact (simulates_expandNamedWith lookups ih pointer schema path).map some

end

/-- Progress of matching walks. -/
structure Progress.Matches (tell tellToo : Problem → Option Problem) (left right : Lookup)
    (before other : Progress) : Prop where
  graph : before.graph = other.graph
  synthesized : before.synthesized = other.synthesized
  expansion : before.expansion.Matches tell tellToo left right other.expansion

namespace Linker

open Visiting

/-- Linkers that differ in their look-ups only, and match there.  Component references that fail are
told alike, but for external ones. -/
structure Matches (tell tellToo : Problem → Option Problem) (left right : Linker) : Prop where
  index : left.index = right.index
  synthesizeMissingTags : left.synthesizeMissingTags = right.synthesizeMissingTags
  lookup : left.lookup.Matches tell tellToo right.lookup
  external : ∀ reference, Problem.tellIf left.lookup.strict tell (.externalReference reference) =
    Problem.tellIf right.lookup.strict tellToo (.externalReference reference)
  component : ∀ category reference problem,
    left.index.resolve category reference = .error problem → tell problem = tellToo problem

variable {tell tellToo : Problem → Option Problem} {left right : Linker}

theorem simulates_expanding {expand expandToo : Expanding α}
    (simulates : Simulates (Expansion.Matches tell tellToo left.lookup right.lookup) expand
      expandToo) :
    Simulates (Progress.Matches tell tellToo left.lookup right.lookup) (expanding expand)
      (expanding expandToo) := by
  intro before other progress
  obtain ⟨same, after⟩ := simulates before.expansion other.expansion progress.expansion
  refine ⟨same, ?_, progress.synthesized, after⟩
  change { before.graph with schemaCount := (expand before.expansion).2.schemaCount } =
    { other.graph with schemaCount := (expandToo other.expansion).2.schemaCount }
  rw [after.schemaCount, progress.graph]

theorem simulates_reported {path : List String} {problem : Problem}
    (same : tell problem = tellToo problem) :
    Simulates (Progress.Matches tell tellToo left.lookup right.lookup) (report path problem)
      (report path problem) :=
  simulates_expanding (simulates_report same)

theorem simulates_reportedIf {path : List String} {reported reportedToo : Bool} {problem : Problem}
    (same : Problem.tellIf reported tell problem = Problem.tellIf reportedToo tellToo problem) :
    Simulates (Progress.Matches tell tellToo left.lookup right.lookup)
      (if reported then report path problem else Pure.pure ())
      (if reportedToo then report path problem else Pure.pure ()) := by
  have simulates : Simulates (Progress.Matches tell tellToo left.lookup right.lookup)
      (expanding (if reported then do Expanding.report path problem; return () else return ()))
      (expanding (if reportedToo then do Expanding.report path problem; return () else return ())) :=
    simulates_expanding (simulates_reportIf same)
  cases reported <;> cases reportedToo <;> exact simulates

theorem simulates_countLink :
    Simulates (Progress.Matches tell tellToo left.lookup right.lookup) countLink countLink :=
  .modify fun _ _ progress => { progress with
    expansion := { progress.expansion with
      replaced := congrArg (· + 1) progress.expansion.replaced } }

theorem simulates_synthesizeTag (name : String) :
    Simulates (Progress.Matches tell tellToo left.lookup right.lookup) (synthesizeTag name)
      (synthesizeTag name) := by
  refine .modify fun before other progress => ?_
  rw [progress.synthesized]
  cases Table.find? name other.synthesized with
  | some id => exact progress
  | none =>
      obtain ⟨graph, synthesized, expansion⟩ := progress
      exact ⟨by simp only [graph], by simp only [graph], { expansion with }⟩

variable (linkers : left.Matches tell tellToo right)
include linkers

theorem simulates_visitReference (path : List String) (category : Category)
    (reference : Reference) :
    Simulates (Progress.Matches tell tellToo left.lookup right.lookup)
      (left.visitReference path category reference)
      (right.visitReference path category reference) := by
  rw [visitReference, visitReference, ← linkers.index]
  split
  · exact simulates_reportedIf (linkers.external reference)
  · cases resolved : left.index.resolve category reference with
    | ok target => exact simulates_countLink
    | error problem => exact simulates_reported (linkers.component _ _ _ resolved)

theorem simulates_visitTagReference (path : List String) (reference : Reference) :
    Simulates (Progress.Matches tell tellToo left.lookup right.lookup)
      (left.visitTagReference path reference) (right.visitTagReference path reference) := by
  rw [visitTagReference, visitTagReference, ← linkers.synthesizeMissingTags, ← linkers.index]
  split
  · exact simulates_visitReference linkers path .tags reference
  · cases resolved : left.index.resolve .tags reference with
    | ok target => exact simulates_countLink
    | error problem =>
        cases problem with
        | notFound category missing =>
            exact (simulates_synthesizeTag _).bind fun _ => simulates_countLink
        | _ => exact simulates_reported (linkers.component _ _ _ resolved)

theorem simulates_visit (stop : Stop) :
    Simulates (Progress.Matches tell tellToo left.lookup right.lookup) (left.visit stop)
      (right.visit stop) := by
  have depth := linkers.lookup.depth
  have follows := simulates_follow linkers.lookup
  unfold visit
  split
  · exact (simulates_visitReference linkers _ _ _).bind fun _ => .pure none
  · exact (simulates_visitTagReference linkers _ _).bind fun _ => .pure none
  · exact .pure none
  · exact .pure none
  · refine (simulates_expanding ?_).map some
    rw [Lookup.expand, Lookup.expand, depth]
    exact simulates_expandWith (follows _) _ _
  · refine (simulates_expanding ?_).map some
    rw [Lookup.expandNamed, Lookup.expandNamed, depth]
    exact simulates_expandNamedWith linkers.lookup (follows _) _ _ _

theorem Matches.edgeMap_eq (synthesized : Table EntityId) :
    left.edgeMap synthesized = right.edgeMap synthesized := by
  have tags : left.linkTag synthesized = right.linkTag synthesized := by
    funext edge
    cases edge with
    | placeholder reference => simp only [linkTag, linkers.index, linkers.synthesizeMissingTags]
    | _ => rfl
  rw [edgeMap, edgeMap, tags, linkers.index]

/-- Matching linkers, from where nothing is entered or expanded, visit alike. -/
theorem Matches.visits (unentered : left.entered = []) (unenteredToo : right.entered = [])
    (synthesized : left.synthesized = right.synthesized) (unexpanded : left.expanded = [])
    (unexpandedToo : right.expanded = []) (linkCount : left.linkCount = right.linkCount)
    (graph : Graph) (document : Document) :
    (left.visits graph document).1 = (right.visits graph document).1 ∧
      (left.visits graph document).2.Matches tell tellToo left.lookup right.lookup
        (right.visits graph document).2 := by
  have first : (left.firstProgress graph).Matches tell tellToo left.lookup right.lookup
      (right.firstProgress graph) :=
    ⟨rfl, synthesized, rfl, linkCount, fun _ => by
      simp [firstProgress, Progress.expansion, unexpanded, unexpandedToo, Table.find?], rfl⟩
  have visited : Simulates (Progress.Matches tell tellToo left.lookup right.lookup)
      ((graph.tour left.index [] document).1.mapM left.visit)
      ((graph.tour left.index [] document).1.mapM right.visit) :=
    .mapM fun stop _ => simulates_visit linkers stop
  rw [Linker.visits, Linker.visits, unentered, unenteredToo, ← linkers.index]
  exact visited _ _ first

end Linker

/-- Where the linkers match, two settings link a document alike, and what they tell is the same. -/
theorem Document.link_eq_of_matches {tell tellToo : Problem → Option Problem} (graph : Graph)
    (document : Document) (settings other : Settings)
    (linkers : (Linker.ofDocument (.ofDocument graph document) document settings).Matches tell
      tellToo (Linker.ofDocument (.ofDocument graph document) document other))
    (blind : ∀ host problem,
      tell (Problem.withHost host problem) = (tell problem).map (Problem.withHost host))
    (blindToo : ∀ host problem,
      tellToo (Problem.withHost host problem) = (tellToo problem).map (Problem.withHost host)) :
    (document.link graph settings).2 = (document.link graph other).2 ∧
      Diagnostic.told tell (document.link graph settings).1 =
        Diagnostic.told tellToo (document.link graph other).1 := by
  obtain ⟨results, progress⟩ := linkers.visits rfl rfl rfl rfl rfl rfl graph document
  let left := Linker.ofDocument (.ofDocument graph document) document settings
  let right := Linker.ofDocument (.ofDocument graph document) document other
  have answers : left.answers graph document = right.answers graph document := by
    rw [Linker.answers, Linker.answers, results]
    rfl
  have edges := linkers.edgeMap_eq (right.visits graph document).2.synthesized
  have graphs : (left.walk graph document).2.1 = (right.walk graph document).2.1 := by
    rw [Linker.walk_graph rfl, Linker.walk_graph rfl, answers, progress.graph,
      progress.synthesized, edges]
    rfl
  have documents : (left.walk graph document).2.2 = (right.walk graph document).2.2 := by
    rw [Linker.walk_document, Linker.walk_document, answers, progress.synthesized, edges]
  refine ⟨Prod.ext graphs documents, ?_⟩
  change Diagnostic.told tell (left.walk graph document).1.diagnostics =
    Diagnostic.told tellToo (right.walk graph document).1.diagnostics
  rw [Linker.walk_diagnostics, Linker.walk_diagnostics]
  change Diagnostic.told tell (List.map _ _) = Diagnostic.told tellToo (List.map _ _)
  rw [Diagnostic.told_map_withHost (blind _), Diagnostic.told_map_withHost (blindToo _)]
  exact congrArg _ progress.expansion.problems

end ApiLinker
