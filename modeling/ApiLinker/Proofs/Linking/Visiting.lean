import ApiLinker.Proofs.Linking.Links
import ApiLinker.Proofs.Linking.Tour
import ApiLinker.Proofs.Rules

/-!
What a walk knows after its stops.

While the stops are visited the graph only gains made-up tags, each with a name of its own, and no
entity that was there changes.  What is known about the schemas is up to the rules for expansions
that the visits are given.
-/

namespace ApiLinker

/-- The tags made up so far, by name. -/
abbrev MadeUp := String → Option EntityId

def Progress.expansion (progress : Progress) : Expansion where
  schemaCount := progress.graph.schemaCount
  expanded := progress.expanded
  problems := progress.diagnostics
  replaced := progress.linkCount

namespace Visiting

/-- The graph is `graph` with the made-up tags added to it, of which there are none unless
`synthesizes`. -/
structure Describes (graph : Graph) (synthesizes : Bool) (made : MadeUp) (progress : Progress) :
    Prop where
  size : graph.size ≤ progress.graph.size
  kept : ∀ id, id < graph.size → progress.graph.entity? id = graph.entity? id
  added : ∀ id entity, graph.size ≤ id → progress.graph.entity? id = some entity →
    synthesizes = true ∧ ∃ tag, entity = .tag tag
  synthesized : ∀ name, Table.find? name progress.synthesized = made name
  bare : ∀ name id, made name = some id →
    graph.size ≤ id ∧ progress.graph.entity? id = some (.tag { name })

variable {ν : Type}

/-- The rules for visits, from those for expansions. -/
def rules (graph : Graph) (synthesizes : Bool) (inner : Rules ν Expansion) :
    Rules (MadeUp × ν) Progress where
  grows world later :=
    (∀ name id, world.1 name = some id → later.1 name = some id) ∧ inner.grows world.2 later.2
  refl world := ⟨fun _ _ found => found, inner.refl world.2⟩
  trans first second :=
    ⟨fun name id found => second.1 name id (first.1 name id found), inner.trans first.2 second.2⟩
  describes world progress :=
    Describes graph synthesizes world.1 progress ∧ inner.describes world.2 progress.expansion

/-- Rules for expansions that are about schemas only. -/
def Blind (inner : Rules ν Expansion) : Prop :=
  ∀ world state problems replaced, inner.describes world state →
    inner.describes world { state with problems, replaced }

variable {graph : Graph} {synthesizes : Bool} {inner : Rules ν Expansion}
variable {world : MadeUp × ν} {progress : Progress}

section

variable (blind : Blind inner)
include blind

theorem yields_report (described : (rules graph synthesizes inner).describes world progress)
    (path : List String) (problem : Problem) :
    (rules graph synthesizes inner).Yields (report path problem) (fun _ _ => True) world progress :=
  ⟨world, (rules graph synthesizes inner).refl world,
    ⟨{ described.1 with }, blind _ _ (progress.diagnostics ++ [Diagnostic.mk path problem])
      progress.linkCount described.2⟩, trivial⟩

theorem yields_countLink (described : (rules graph synthesizes inner).describes world progress) :
    (rules graph synthesizes inner).Yields countLink (fun _ _ => True) world progress :=
  ⟨world, (rules graph synthesizes inner).refl world,
    ⟨{ described.1 with }, blind _ _ progress.diagnostics (progress.linkCount + 1) described.2⟩,
    trivial⟩

end

theorem Describes.synthesize {made : MadeUp} {name : String}
    (described : Describes graph synthesizes made progress) (fresh : made name = none)
    (asked : synthesizes = true) :
    Describes graph synthesizes
      (fun other => if other = name then some progress.graph.size else made other)
      { progress with
        graph := (progress.graph.add (.tag { name })).2
        synthesized := Table.insert name progress.graph.size progress.synthesized } where
  size := by
    have grown := progress.graph.size_add (.tag { name })
    have size := described.size
    simp only [grown]
    omega
  kept id old := by
    have size := described.size
    have different : id ≠ progress.graph.size := by omega
    rw [← described.kept id old]
    exact Graph.entity?_add_of_ne different _
  added id entity isNew found := by
    by_cases last : id = progress.graph.size
    · subst last
      rw [show progress.graph.size = (progress.graph.add (.tag { name })).1 from rfl,
        Graph.entity?_add] at found
      exact ⟨asked, { name }, (Option.some.inj found).symm⟩
    · rw [Graph.entity?_add_of_ne last] at found
      exact described.added id entity isNew found
  synthesized other := by
    by_cases same : other = name
    · simp only [same, Table.find?_insert_self, ↓reduceIte]
    · simp only [Table.find?_insert_of_ne same, same, ↓reduceIte, described.synthesized]
  bare other id found := by
    by_cases same : other = name
    · simp only [same, ↓reduceIte, Option.some.injEq] at found
      subst found same
      exact ⟨described.size, progress.graph.entity?_add _⟩
    · simp only [same, ↓reduceIte] at found
      obtain ⟨isNew, bare⟩ := described.bare other id found
      have different : id ≠ progress.graph.size := Nat.ne_of_lt (Graph.lt_size_of_entity? bare)
      exact ⟨isNew, (Graph.entity?_add_of_ne different _).trans bare⟩

theorem yields_synthesizeTag (asked : synthesizes = true)
    (described : (rules graph synthesizes inner).describes world progress) (name : String) :
    (rules graph synthesizes inner).Yields (synthesizeTag name)
      (fun later _ => ∃ id, later.1 name = some id) world progress := by
  have known := described.1.synthesized name
  cases found : world.1 name with
  | some id =>
      have same : (synthesizeTag name).run progress = ((), progress) := by
        simp only [synthesizeTag, StateT.run, modify, modifyGet, MonadStateOf.modifyGet,
          StateT.modifyGet, known, found]
        rfl
      refine ⟨world, (rules graph synthesizes inner).refl world, ?_, id, found⟩
      rw [show (synthesizeTag name) progress = ((), progress) from same]
      exact described
  | none =>
      have made : (synthesizeTag name) progress = ((), { progress with
          graph := (progress.graph.add (.tag { name })).2
          synthesized := Table.insert name progress.graph.size progress.synthesized }) := by
        simp only [synthesizeTag, modify, modifyGet, MonadStateOf.modifyGet, StateT.modifyGet,
          known, found]
        rfl
      refine ⟨(fun other => if other = name then some progress.graph.size else world.1 other,
        world.2), ⟨?_, inner.refl world.2⟩, ?_, progress.graph.size, by simp⟩
      · intro other id old
        have different : other ≠ name := by
          intro same
          subst same
          cases found.symm.trans old
        simpa [different] using old
      · rw [made]
        exact ⟨described.1.synthesize found asked, described.2⟩

theorem yields_expanding {expand : Expanding α} {result : ν → α → Prop}
    (described : (rules graph synthesizes inner).describes world progress)
    (yields : inner.Yields expand result world.2 progress.expansion) :
    (rules graph synthesizes inner).Yields (expanding expand) (fun later => result later.2) world
      progress := by
  obtain ⟨later, grows, ends, holds⟩ := yields
  exact ⟨(world.1, later), ⟨fun _ _ found => found, grows⟩, ⟨{ described.1 with }, ends⟩, holds⟩

end Visiting

namespace Linker

open Visiting

variable {ν : Type} {graph : Graph} {inner : Rules ν Expansion}

abbrev visiting (linker : Linker) (graph : Graph) (inner : Rules ν Expansion) :
    Rules (MadeUp × ν) Progress :=
  Visiting.rules graph linker.synthesizeMissingTags inner

/-- A stop is answered with a schema where it holds one.  A tag that is to be made up has been. -/
structure Answers (linker : Linker) (R : ν → Schema → Schema → Prop) (world : MadeUp × ν)
    (stop : Stop) (result : Option Schema) : Prop where
  schema : Option.Rel (R world.2) stop.held.schema? result
  tag : ∀ reference, stop.held = .tag (.placeholder reference) → linker.MakesUp reference →
    ∃ id, world.1 reference.identifier = some id

/-- The rules know how to expand the schemas of these stops. -/
structure Expandable (linker : Linker) (inner : Rules ν Expansion) (R : ν → Schema → Schema → Prop)
    (start : ν) (stops : List Stop) : Prop where
  blind : Blind inner
  stable : ∀ schema, inner.Stable fun world => R world schema
  slot : ∀ stop ∈ stops, ∀ schema, stop.held = .schema schema → ∀ world state,
    inner.grows start world → inner.describes world state →
    inner.Yields (linker.lookup.expand schema stop.path) (fun later => R later schema) world state
  named : ∀ stop ∈ stops, ∀ name schema, stop.held = .namedSchema name schema → ∀ world state,
    inner.grows start world → inner.describes world state →
    inner.Yields (linker.lookup.expandNamed name schema stop.path) (fun later => R later schema)
      world state

variable {linker : Linker} {R : ν → Schema → Schema → Prop} {start : ν}
variable {world : MadeUp × ν} {progress : Progress}

theorem yields_visitReference (blind : Blind inner)
    (described : (linker.visiting graph inner).describes world progress) (path : List String)
    (category : Category) (reference : Reference) :
    (linker.visiting graph inner).Yields (linker.visitReference path category reference)
      (fun _ _ => True) world progress := by
  rw [visitReference]
  split
  · split
    · exact yields_report blind described path _
    · exact Rules.yields_pure described trivial
  · split
    · exact yields_countLink blind described
    · exact yields_report blind described path _

theorem yields_visitTagReference (blind : Blind inner)
    (described : (linker.visiting graph inner).describes world progress) (path : List String)
    (reference : Reference) :
    (linker.visiting graph inner).Yields (linker.visitTagReference path reference)
      (fun later _ => linker.MakesUp reference → ∃ id, later.1 reference.identifier = some id)
      world progress := by
  rw [visitTagReference]
  split
  · rename_i notAsked
    refine (yields_visitReference blind described path .tags reference).imp ?_
    intro later _ _ _ missing
    obtain ⟨synthesizes, isLocal, _⟩ := missing
    simp [synthesizes, isLocal] at notAsked
  · rename_i asked
    simp only [Bool.or_eq_true, Bool.not_eq_true', not_or, Bool.not_eq_false] at asked
    split
    · rename_i target resolved
      refine (yields_countLink blind described).imp ?_
      intro later _ _ _ missing
      obtain ⟨_, _, _, _, failed⟩ := missing
      cases resolved.symm.trans failed
    · refine (yields_synthesizeTag asked.2 described reference.identifier).bind ?_
      intro later state _ _ described made
      exact (yields_countLink blind described).imp fun last _ grows _ _ =>
        made.imp fun id found => grows.1 _ _ found
    · rename_i problem other failed
      refine (yields_report blind described path problem).imp ?_
      intro later _ _ _ missing
      obtain ⟨_, _, category, reference', resolved⟩ := missing
      cases failed.symm.trans resolved
      exact absurd rfl (other category reference')

theorem yields_visit {stops : List Stop} (expandable : linker.Expandable inner R start stops)
    {stop : Stop} (member : stop ∈ stops) (grows : inner.grows start world.2)
    (described : (linker.visiting graph inner).describes world progress) :
    (linker.visiting graph inner).Yields (linker.visit stop)
      (fun later => linker.Answers R later stop) world progress := by
  cases held : stop.held with
  | edge category edge =>
      have answers : ∀ later, linker.Answers R later stop none := fun later =>
        ⟨by rw [held]; exact .none, fun reference same => by cases held.symm.trans same⟩
      cases edge with
      | placeholder reference =>
          simp only [visit, held]
          exact (yields_visitReference expandable.blind described stop.path category reference).bind
            fun later _ _ _ described _ => Rules.yields_pure described (answers later)
      | linked | inline =>
          simp only [visit, held]
          exact Rules.yields_pure described (answers world)
  | tag edge =>
      cases edge with
      | placeholder reference =>
          simp only [visit, held]
          refine (yields_visitTagReference expandable.blind described stop.path reference).bind ?_
          intro later _ _ _ described made
          refine Rules.yields_pure described ⟨by rw [held]; exact .none, ?_⟩
          intro other same missing
          rw [held] at same
          cases same
          exact made missing
      | linked | inline =>
          simp only [visit, held]
          exact Rules.yields_pure described
            ⟨by rw [held]; exact .none, fun _ same => by cases held.symm.trans same⟩
  | schema schema =>
      simp only [visit, held]
      refine (yields_expanding described (expandable.slot stop member schema held world.2 _ grows
        described.2)).map fun later result expands => ?_
      exact ⟨by rw [held]; exact .some expands, fun _ same => by cases held.symm.trans same⟩
  | namedSchema name schema =>
      simp only [visit, held]
      refine (yields_expanding described (expandable.named stop member name schema held world.2 _
        grows described.2)).map fun later result expands => ?_
      exact ⟨by rw [held]; exact .some expands, fun _ same => by cases held.symm.trans same⟩

theorem stable_answers (stable : ∀ schema, inner.Stable fun world => R world schema) (stop : Stop) :
    (linker.visiting graph inner).Stable fun world => linker.Answers R world stop := by
  intro world later result grows answers
  refine ⟨?_, fun reference same missing =>
    (answers.tag reference same missing).imp fun id found => grows.1 _ _ found⟩
  exact OptionRel.imp_of_mem answers.schema fun _ _ _ holds => stable _ grows.2 holds

theorem yields_visits {stops : List Stop}
    (described : (linker.visiting graph inner).describes world progress)
    (expandable : linker.Expandable inner R world.2 stops) :
    (linker.visiting graph inner).Yields (stops.mapM linker.visit)
      (fun later => List.Forall₂ (linker.Answers R later) stops) world progress :=
  Rules.yields_mapM (stable_answers expandable.stable)
    (fun _ member _ _ grows described => yields_visit expandable member grows.2 described) described

end Linker

end ApiLinker
