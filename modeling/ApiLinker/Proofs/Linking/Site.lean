import ApiLinker.Proofs.Linking.HeldAt
import ApiLinker.Proofs.Linking.Reach
import Mathlib.Data.List.Nodup

/-!
Sites: what stands at the paths of a document and of its entities.

A tour stops once at every site of what it enters (`Graph.sites_of_tour`).  Its stops are found at
the end of their paths, in the graph that the walk leaves behind
(`Linker.Toured.follows_of_stopsAt`).  Sites are given by the names of members and not by the order
of a walk, so that a stop under a wrong path would be at no site.
-/

namespace ApiLinker

/-- What stands at the path in the holder.  If several things do, `turn` says how many come before
it. -/
structure Site where
  holder : Holder
  path : List String
  turn : Nat := 0
deriving DecidableEq

def Holder.heldAt (graph : Graph) (document : Document) : Holder → List String → List Held
  | .document => document.heldAt
  | .entity id => fun path => (graph.entity? id).toList.flatMap fun entity => entity.heldAt path

def Site.held? (graph : Graph) (document : Document) (site : Site) : Option Held :=
  (site.holder.heldAt graph document site.path)[site.turn]?

/-- The document, or an entity that can be reached from it. -/
def Graph.Includes (graph : Graph) (document : Document) : Holder → Prop
  | .document => True
  | .entity id => graph.Reaches document id

/-- The path leads to the holder: from the document by the names of members to an edge, and on from
the entity that this is an edge to. -/
inductive Graph.LeadsTo (graph : Graph) (document : Document) : List String → Holder → Prop where
  | root : LeadsTo graph document [] .document
  | step {path segments : List String} {holder : Holder} {category : Category} {edge : Edge}
      {id : EntityId} (leads : LeadsTo graph document path holder)
      (held : .edge category edge ∈ holder.heldAt graph document segments)
      (target : edge.target? = some id) :
      LeadsTo graph document (path ++ segments) (.entity id)

/-- Following the path from the document leads to the site. -/
def Graph.Follows (graph : Graph) (document : Document) (path : List String) (site : Site) : Prop :=
  ∃ base held, graph.LeadsTo document base site.holder ∧
    site.held? graph document = some held ∧ path = base ++ site.path

/-- The path of the stop leads to what the stop has become. -/
def Stop.IsKept (change : Change) (graph : Graph) (document : Document) (stop : Stop) : Prop :=
  ∃ base segments held, graph.LeadsTo document base stop.holder ∧
    held ∈ stop.holder.heldAt graph document segments ∧ stop.path = base ++ segments ∧
    change.Allows stop.held held

namespace Place

/-- The path of each place, and how many of those before it have the same path. -/
def turns (before : List Place) : List Place → List (List String × Nat)
  | [] => []
  | place :: rest =>
      (place.path, (heldsAt before place.path).length) :: turns (before ++ [place]) rest

@[simp] theorem heldsAt_nil (path : List String) : heldsAt [] path = [] := rfl

theorem heldsAt_cons (place : Place) (rest : List Place) (path : List String) :
    heldsAt (place :: rest) path =
      if place.path = path then place.held :: heldsAt rest path else heldsAt rest path := by
  by_cases same : place.path = path <;> simp [heldsAt, helds, same]

theorem mem_turns_iff {before places : List Place} {path : List String} {turn : Nat} :
    (path, turn) ∈ turns before places ↔
      (heldsAt before path).length ≤ turn ∧ turn < (heldsAt (before ++ places) path).length := by
  induction places generalizing before with
  | nil => simp [turns]
  | cons place rest ih =>
      by_cases same : place.path = path
      · subst same
        simp only [turns, List.mem_cons, Prod.mk.injEq, true_and, ih, heldsAt_append, heldsAt_cons,
          heldsAt_nil, ↓reduceIte, List.length_append, List.length_cons, List.length_nil]
        omega
      · simp [turns, ih, heldsAt_cons, same, Ne.symm same]

theorem nodup_turns (before places : List Place) : (turns before places).Nodup := by
  induction places generalizing before with
  | nil => exact List.nodup_nil
  | cons place rest ih =>
      refine List.nodup_cons.mpr ⟨fun again => ?_, ih _⟩
      have later := (mem_turns_iff.mp again).1
      simp only [heldsAt_append, heldsAt_cons, heldsAt_nil, ↓reduceIte, List.length_append,
        List.length_singleton] at later
      omega

/-- Each place is found at its turn. -/
theorem held_of_turns (before places : List Place) :
    List.Forall₂ (fun turn place => turn.1 = place.path ∧
        (heldsAt (before ++ places) turn.1)[turn.2]? = some place.held)
      (turns before places) places := by
  induction places generalizing before with
  | nil => exact .nil
  | cons place rest ih =>
      refine .cons ⟨rfl, by simp [heldsAt_cons]⟩ ?_
      simpa using ih (before ++ [place])

theorem forall₂_heldsAt {change : Change} (keeps : change.KeepsNames) {before after : List Place}
    (related : List.Forall₂ change.AllowsAt before after) (path : List String) :
    List.Forall₂ change.Allows (heldsAt before path) (heldsAt after path) := by
  induction related with
  | nil => exact .nil
  | cons allowed _ ih =>
      simp only [heldsAt_cons, allowed.path keeps]
      split
      · exact .cons allowed.held ih
      · exact ih

end Place

def Holder.places (graph : Graph) (document : Document) : Holder → List Place
  | .document => document.places
  | .entity id => graph.placesOf id

theorem Holder.heldAt_eq (graph : Graph) (document : Document) (holder : Holder)
    (path : List String) :
    holder.heldAt graph document path = Place.heldsAt (holder.places graph document) path := by
  cases holder with
  | document => exact document.heldAt_eq path
  | entity id =>
      cases found : graph.entity? id with
      | none => simp [heldAt, places, Graph.placesOf, found, Place.heldsAt]
      | some entity => simp [heldAt, places, Graph.placesOf, found, entity.heldAt_eq path]

def Holder.sites (graph : Graph) (document : Document) (holder : Holder) : List Site :=
  (Place.turns [] (holder.places graph document)).map fun turn => ⟨holder, turn.1, turn.2⟩

theorem Holder.mem_sites_iff {graph : Graph} {document : Document} {holder : Holder} {site : Site} :
    site ∈ holder.sites graph document ↔
      site.holder = holder ∧ ∃ held, site.held? graph document = some held := by
  obtain ⟨owner, path, turn⟩ := site
  simp only [sites, List.mem_map, Site.mk.injEq, Prod.exists, Site.held?,
    ← Option.isSome_iff_exists, isSome_getElem?, heldAt_eq]
  constructor
  · rintro ⟨_, _, member, rfl, rfl, rfl⟩
    exact ⟨rfl, (Place.mem_turns_iff.mp member).2⟩
  · rintro ⟨rfl, bound⟩
    exact ⟨path, turn, Place.mem_turns_iff.mpr ⟨Nat.zero_le _, bound⟩, rfl, rfl, rfl⟩

namespace Graph

variable {graph : Graph} {index : Index} {already : List EntityId} {document : Document}

/-- The tour enters the holder and comes to its places by paths that start with `base`. -/
inductive Enters (graph : Graph) (index : Index) (already : List EntityId) (document : Document) :
    Holder → (base : List String) → Prop where
  | document : Enters graph index already document .document []
  | entity {stop : Stop} {id : EntityId} (met : stop ∈ (graph.tour index already document).1)
      (leads : stop.leadsTo? index = some id) :
      Enters graph index already document (.entity id) stop.path

/-- The stop is at the site, in a tour. -/
structure StopsAt (graph : Graph) (index : Index) (already : List EntityId) (document : Document)
    (site : Site) (stop : Stop) (held : Held) (base : List String) : Prop where
  enters : graph.Enters index already document site.holder base
  found : site.held? graph document = some held
  same : stop = { holder := site.holder, path := base ++ site.path, held }

/-- The holders that a tour enters, the document first. -/
def holders (graph : Graph) (index : Index) (already : List EntityId) (document : Document) :
    List Holder :=
  .document :: ((graph.tour index already document).2.filter (· ∉ already)).map .entity

theorem mem_holders_iff {holder : Holder} :
    holder ∈ graph.holders index already document ↔ holder = .document ∨
      ∃ id ∈ (graph.tour index already document).2, id ∉ already ∧ holder = .entity id := by
  simp only [holders, List.mem_cons, List.mem_map, List.mem_filter, decide_eq_true_eq]
  constructor
  · rintro (rfl | ⟨id, ⟨entered, isNew⟩, rfl⟩)
    · exact .inl rfl
    · exact .inr ⟨id, entered, isNew, rfl⟩
  · rintro (rfl | ⟨id, entered, isNew, rfl⟩)
    · exact .inl rfl
    · exact .inr ⟨id, ⟨entered, isNew⟩, rfl⟩

theorem document_mem_holders : .document ∈ graph.holders index already document :=
  List.mem_cons_self

theorem entity_mem_holders {id : EntityId} (entered : id ∈ (graph.tour index [] document).2) :
    .entity id ∈ graph.holders index [] document :=
  mem_holders_iff.mpr (.inr ⟨id, entered, List.not_mem_nil, rfl⟩)

theorem nodup_holders (graph : Graph) (index : Index) (already : List EntityId)
    (document : Document) : (graph.holders index already document).Nodup := by
  obtain ⟨new, opened, distinct, fresh⟩ := (runs_tour graph index already document).exists_new
  have entered : (graph.tour index already document).2.filter (· ∉ already) = new := by
    rw [opened, List.filter_append, List.filter_eq_self.mpr (by simpa using fresh),
      List.filter_eq_nil_iff.mpr (by simp), List.append_nil]
  refine List.nodup_cons.mpr ⟨by simp, ?_⟩
  rw [entered]
  exact distinct.map fun _ _ same => by cases same; rfl

/-- The stops of a holder are its places, in order. -/
theorem stopsOf_holder {holder : Holder} (member : holder ∈ graph.holders index already document) :
    ∃ base, graph.Enters index already document holder base ∧
      stopsOf holder (graph.tour index already document).1 =
        holder.stops base (holder.places graph document) := by
  rcases mem_holders_iff.mp member with rfl | ⟨id, entered, isNew, rfl⟩
  · exact ⟨[], .document, stopsOf_document graph index already document⟩
  · obtain ⟨stop, met, leads, stops⟩ := stopsOf_entity entered isNew
    exact ⟨stop.path, .entity met leads, stops⟩

theorem holder_of_stop {stop : Stop} (met : stop ∈ (graph.tour index already document).1) :
    stop.holder ∈ graph.holders index already document := by
  cases holder : stop.holder with
  | document => exact document_mem_holders
  | entity id =>
      refine mem_holders_iff.mpr (.inr ?_)
      by_contra notEntered
      have still : ∀ key, some id = some key → key ∈ already ∨
          key ∉ (graph.tour index already document).2 := by
        intro key same
        cases same
        by_contra entered
        obtain ⟨isNew, entered⟩ := not_or.mp entered
        exact notEntered ⟨id, not_not.mp entered, isNew, rfl⟩
      have runs := runs_tour graph index already document
      have none := runs.filter_of_not_entered owner?_of_mem_contents still
      have owned : stop.owner? = some id := by rw [Stop.owner?, holder]
      have member : stop ∈ (graph.tour index already document).1.filter
          fun stop => stop.owner? = some id := List.mem_filter.mpr ⟨met, decide_eq_true owned⟩
      rw [none] at member
      obtain ⟨isFirst, _⟩ := List.mem_filter.mp member
      cases holder.symm.trans (Holder.holder_of_mem_stops isFirst)

/-- The stops of one holder are at its sites, in order. -/
theorem stopsAt_sites {holder : Holder} {base : List String}
    (enters : graph.Enters index already document holder base) :
    List.Forall₂
      (fun site stop => ∃ held base, graph.StopsAt index already document site stop held base)
      (holder.sites graph document) (holder.stops base (holder.places graph document)) := by
  simp only [Holder.sites, Holder.stops, List.forall₂_map_left_iff, List.forall₂_map_right_iff]
  refine (Place.held_of_turns [] (holder.places graph document)).imp fun turn place isThere => ?_
  refine ⟨place.held, base, enters, ?_, by rw [isThere.1]⟩
  rw [Site.held?, Holder.heldAt_eq]
  exact isThere.2

/-- The parts of a list by the values of a key are together all of the list. -/
theorem perm_flatMap_filter {κ : Type} [DecidableEq κ] (key : α → κ) {keys : List κ}
    (distinct : keys.Nodup) {items : List α} (known : ∀ item ∈ items, key item ∈ keys) :
    (keys.flatMap fun value => items.filter fun item => key item = value).Perm items := by
  induction keys generalizing items with
  | nil =>
      have none : items = [] :=
        List.eq_nil_iff_forall_not_mem.mpr fun item member => by cases known item member
      rw [none, List.flatMap_nil]
  | cons first rest ih =>
      obtain ⟨notAgain, distinct⟩ := List.nodup_cons.mp distinct
      have others : ∀ item ∈ items.filter (fun item => !decide (key item = first)),
          key item ∈ rest := by
        intro item member
        obtain ⟨member, different⟩ := List.mem_filter.mp member
        simp only [Bool.not_eq_true', decide_eq_false_iff_not] at different
        exact (List.mem_cons.mp (known item member)).resolve_left different
      have parts : (rest.flatMap fun value => items.filter fun item => key item = value) =
          rest.flatMap fun value => (items.filter fun item => !decide (key item = first)).filter
            fun item => key item = value := by
        refine List.flatMap_congr fun value isLater => ?_
        rw [List.filter_filter]
        refine List.filter_congr fun item _ => ?_
        by_cases same : key item = value
        · have different : value ≠ first := fun same => notAgain (same ▸ isLater)
          simp [same, different]
        · simp [same]
      rw [List.flatMap_cons, parts]
      exact ((ih distinct others).append_left _).trans (List.filter_append_perm _ _)

theorem nodup_sites (graph : Graph) (index : Index) (already : List EntityId)
    (document : Document) :
    ((graph.holders index already document).flatMap (Holder.sites graph document)).Nodup := by
  refine List.nodup_flatMap.mpr ⟨fun holder _ => ?_, ?_⟩
  · refine (Place.nodup_turns [] _).map fun left right same => ?_
    exact Prod.ext (congrArg Site.path same) (congrArg Site.turn same)
  · refine (nodup_holders graph index already document).imp fun different site left right => ?_
    obtain ⟨rfl, _⟩ := Holder.mem_sites_iff.mp left
    exact different (Holder.mem_sites_iff.mp right).1

theorem mem_sites {site : Site} :
    site ∈ (graph.holders index already document).flatMap (Holder.sites graph document) ↔
      site.holder ∈ graph.holders index already document ∧
        ∃ held, site.held? graph document = some held := by
  simp only [List.mem_flatMap, Holder.mem_sites_iff]
  constructor
  · rintro ⟨_, member, rfl, isThere⟩
    exact ⟨member, isThere⟩
  · rintro ⟨member, isThere⟩
    exact ⟨_, member, rfl, isThere⟩

/-- A tour stops at every site of the holders that it enters, once, and nowhere else. -/
theorem sites_of_tour (graph : Graph) (index : Index) (already : List EntityId)
    (document : Document) :
    ∃ sites : List Site, sites.Nodup ∧
      (∀ site, site ∈ sites ↔ site.holder ∈ graph.holders index already document ∧
        ∃ held, site.held? graph document = some held) ∧
      List.Forall₂
        (fun site stop => ∃ held base, graph.StopsAt index already document site stop held base)
        sites (graph.tour index already document).1 := by
  have related : List.Forall₂
      (fun site stop => ∃ held base, graph.StopsAt index already document site stop held base)
      ((graph.holders index already document).flatMap (Holder.sites graph document))
      ((graph.holders index already document).flatMap fun holder =>
        stopsOf holder (graph.tour index already document).1) := by
    have itself : List.Forall₂
        (fun left right => left = right ∧ left ∈ graph.holders index already document)
        (graph.holders index already document) (graph.holders index already document) :=
      List.forall₂_same.mpr fun holder member => ⟨rfl, member⟩
    refine List.rel_flatMap itself fun holder other both => ?_
    obtain ⟨rfl, member⟩ := both
    obtain ⟨base, enters, stops⟩ := stopsOf_holder member
    simp only [stops]
    exact stopsAt_sites enters
  have perm : ((graph.holders index already document).flatMap fun holder =>
      stopsOf holder (graph.tour index already document).1).Perm (graph.tour index already document).1 :=
    perm_flatMap_filter Stop.holder (nodup_holders graph index already document) fun _ => holder_of_stop
  obtain ⟨sites, same, inOrder⟩ := ListRel.reorder related perm
  refine ⟨sites, same.nodup_iff.mp (nodup_sites graph index already document), fun site => ?_, inOrder⟩
  rw [← same.mem_iff, mem_sites]

theorem exists_stopsAt_of_site {site : Site} {held : Held}
    (member : site.holder ∈ graph.holders index already document)
    (found : site.held? graph document = some held) :
    ∃ stop ∈ (graph.tour index already document).1, ∃ base,
      graph.StopsAt index already document site stop held base := by
  obtain ⟨sites, _, isSite, stops⟩ := sites_of_tour graph index already document
  obtain ⟨stop, met, other, base, stopsAt⟩ :=
    ListRel.exists_of_mem_left stops ((isSite site).mpr ⟨member, held, found⟩)
  cases found.symm.trans stopsAt.found
  exact ⟨stop, met, base, stopsAt⟩

theorem exists_stopsAt_of_stop {stop : Stop} (met : stop ∈ (graph.tour index already document).1) :
    ∃ site held base, site.holder ∈ graph.holders index already document ∧
      graph.StopsAt index already document site stop held base := by
  obtain ⟨sites, _, isSite, stops⟩ := sites_of_tour graph index already document
  obtain ⟨site, member, held, base, stopsAt⟩ := ListRel.exists_of_mem_right stops met
  exact ⟨site, held, base, ((isSite site).mp member).1, stopsAt⟩

theorem holds_of_mem_heldAt {id : EntityId} {held : Held} {path : List String}
    (member : held ∈ (Holder.entity id).heldAt graph document path) :
    ∃ entity, graph.entity? id = some entity ∧ entity.Holds held := by
  obtain ⟨entity, found, member⟩ := List.mem_flatMap.mp member
  exact ⟨entity, Option.mem_toList.mp found, Entity.holds_iff_heldAt.mpr ⟨path, member⟩⟩

/-- What is at a site is held by the document or by an entity. -/
theorem holds_of_held? {site : Site} {held : Held} (found : site.held? graph document = some held) :
    (site.holder = .document ∧ document.Holds held) ∨
      ∃ id entity, site.holder = .entity id ∧ graph.entity? id = some entity ∧
        entity.Holds held := by
  have member := List.mem_of_getElem? found
  cases holder : site.holder with
  | document =>
      rw [holder] at member
      exact .inl ⟨rfl, Document.holds_iff_heldAt.mpr ⟨_, member⟩⟩
  | entity id =>
      rw [holder] at member
      obtain ⟨entity, isEntity, holds⟩ := holds_of_mem_heldAt member
      exact .inr ⟨id, entity, rfl, isEntity, holds⟩

/-- What a path leads to can be reached. -/
theorem LeadsTo.includes {path : List String} {holder : Holder}
    (leads : graph.LeadsTo document path holder) : graph.Includes document holder := by
  induction leads with
  | root => trivial
  | @step path segments holder category edge id _ held target reached =>
      cases holder with
      | document => exact .root (Document.holds_iff_heldAt.mpr ⟨segments, held⟩) target
      | entity outer =>
          obtain ⟨entity, found, holds⟩ := holds_of_mem_heldAt held
          exact .step reached found holds target

end Graph

namespace Linker

open ApiLinker.Graph

variable {linker : Linker} {graph laterGraph : Graph} {document later : Document}
variable {R : Schema → Schema → Prop} {holder : Holder} {site : Site}

theorem keepsNames_change : (linker.change laterGraph R).KeepsNames := by
  intro before after links
  cases links <;> rfl

/-- Where a kept stop leads to an entity, so does its path. -/
theorem leadsTo_of_isKept {stop : Stop} {id : EntityId}
    (kept : stop.IsKept (linker.change laterGraph R) laterGraph later)
    (leads : stop.leadsTo? linker.index = some id) :
    laterGraph.LeadsTo later stop.path (.entity id) := by
  obtain ⟨base, segments, held, leadsTo, isThere, path, allowed⟩ := kept
  obtain ⟨category, edge, origin, target⟩ := Stop.leadsTo?_eq_some.mp leads
  rw [origin] at allowed
  rw [path]
  cases allowed with
  | edge links => exact .step leadsTo isThere (links.eq_link ▸ target)

theorem keepsNames_edgeMap (synthesized : Table EntityId) :
    ((linker.edgeMap synthesized).change R).KeepsNames := by
  intro before after same
  obtain rfl : after = linker.index.link .securitySchemes before := same
  cases before with
  | placeholder reference =>
      rw [Index.link]
      split
      · rfl
      · split <;> rfl
  | linked | inline => rfl

namespace Toured

section

variable {change : Change} (toured : linker.Toured change graph document laterGraph later)
include toured

theorem places_of_holder (member : holder ∈ graph.holders linker.index [] document) :
    List.Forall₂ change.AllowsAt (holder.places graph document)
      (holder.places laterGraph later) := by
  rcases mem_holders_iff.mp member with rfl | ⟨id, entered, _, rfl⟩
  · exact toured.root.places
  · have found : graph.entity? id = some _ :=
      Array.getElem?_eq_getElem (lt_size_of_entered entered)
    obtain ⟨after, isAfter, changes⟩ := toured.entered id entered _ found
    simp only [Holder.places, placesOf, found, isAfter, Option.map_some, Option.getD_some]
    exact changes.places

/-- What stands at a path changes in place. -/
theorem forall₂_heldAt (keeps : change.KeepsNames)
    (member : holder ∈ graph.holders linker.index [] document) (path : List String) :
    List.Forall₂ change.Allows (holder.heldAt graph document path)
      (holder.heldAt laterGraph later path) := by
  rw [Holder.heldAt_eq, Holder.heldAt_eq]
  exact Place.forall₂_heldsAt keeps (toured.places_of_holder member) path

theorem held_after (keeps : change.KeepsNames)
    (member : site.holder ∈ graph.holders linker.index [] document) {before : Held}
    (found : site.held? graph document = some before) :
    ∃ after, site.held? laterGraph later = some after ∧ change.Allows before after :=
  ListRel.exists_getElem? (toured.forall₂_heldAt keeps member site.path) found

theorem held_before (keeps : change.KeepsNames)
    (member : site.holder ∈ graph.holders linker.index [] document) {after : Held}
    (found : site.held? laterGraph later = some after) :
    ∃ before, site.held? graph document = some before ∧ change.Allows before after :=
  ListRel.exists_getElem? (toured.forall₂_heldAt keeps member site.path).flip found

end

variable (toured : linker.Toured (linker.change laterGraph R) graph document laterGraph later)
include toured

/-- Whatever can be reached afterwards and holds something has been entered. -/
theorem holder_of_site {after : Held} (includes : laterGraph.Includes later site.holder)
    (found : site.held? laterGraph later = some after) :
    site.holder ∈ graph.holders linker.index [] document := by
  rcases holds_of_held? found with ⟨isDocument, _⟩ | ⟨id, entity, isEntity, stands, holds⟩
  · rw [isDocument]
    exact document_mem_holders
  · rw [isEntity] at includes ⊢
    refine entity_mem_holders ?_
    by_cases known : id < graph.size
    · exact toured.entered_of_reaches includes known
    · have missing : graph.entity? id = none :=
        Array.getElem?_eq_none_iff.mpr (Nat.le_of_not_lt known)
      obtain ⟨_, tag, rfl⟩ := toured.added id entity missing stands
      cases holds

/-- Whatever held something before and can be reached has been entered. -/
theorem holder_of_includes {before : Held} (includes : laterGraph.Includes later site.holder)
    (found : site.held? graph document = some before) :
    site.holder ∈ graph.holders linker.index [] document := by
  rcases holds_of_held? found with ⟨isDocument, _⟩ | ⟨id, entity, isEntity, stands, _⟩
  · rw [isDocument]
    exact document_mem_holders
  · rw [isEntity] at includes ⊢
    refine entity_mem_holders ?_
    exact toured.entered_of_reaches includes (lt_size_of_entity? stands)

theorem includes_of_holder (member : holder ∈ graph.holders linker.index [] document) :
    laterGraph.Includes later holder := by
  rcases mem_holders_iff.mp member with rfl | ⟨id, entered, _, rfl⟩
  · trivial
  · exact toured.reaches_of_entered entered

/-- What a holder has at a place is kept at the path of that place. -/
theorem isKept_of_place (member : holder ∈ graph.holders linker.index [] document)
    {base : List String} (leads : laterGraph.LeadsTo later base holder) {place : Place}
    (isPlace : place ∈ holder.places graph document) :
    Stop.IsKept (linker.change laterGraph R) laterGraph later
      { holder, path := base ++ place.path, held := place.held } := by
  have isThere : place.held ∈ holder.heldAt graph document place.path := by
    rw [Holder.heldAt_eq, Place.heldsAt, Place.helds]
    exact List.mem_map_of_mem (List.mem_filter.mpr ⟨isPlace, decide_eq_true rfl⟩)
  obtain ⟨after, isAfter, allowed⟩ :=
    ListRel.exists_of_mem_left (toured.forall₂_heldAt keepsNames_change member place.path)
      isThere
  exact ⟨base, place.path, after, leads, isAfter, rfl, allowed⟩

/-- The path of a stop leads through the later graph to where the stop was. -/
theorem isKept_of_stop {stop : Stop} (met : stop ∈ (graph.tour linker.index [] document).1) :
    stop.IsKept (linker.change laterGraph R) laterGraph later := by
  refine (runs_tour graph linker.index [] document).visited_of
    (P := Stop.IsKept (linker.change laterGraph R) laterGraph later) ?_ ?_ stop met
  · intro stop isFirst
    obtain ⟨place, isPlace, rfl⟩ := List.mem_map.mp isFirst
    exact toured.isKept_of_place document_mem_holders .root isPlace
  · intro outer id kept leads isKey _ inner member
    have leadsTo := leadsTo_of_isKept kept leads
    have entered := toured.entered_of_reaches leadsTo.includes (List.mem_range.mp isKey)
    obtain ⟨place, isPlace, rfl⟩ := List.mem_map.mp member
    exact toured.isKept_of_place (entity_mem_holders entered) leadsTo isPlace

theorem leadsTo_of_enters {base : List String}
    (enters : graph.Enters linker.index [] document holder base) :
    laterGraph.LeadsTo later base holder := by
  cases enters with
  | document => exact .root
  | entity met leads => exact leadsTo_of_isKept (toured.isKept_of_stop met) leads

/-- A stop's path leads to its site. -/
theorem follows_of_stopsAt {stop : Stop} {before : Held} {base : List String}
    (stopsAt : graph.StopsAt linker.index [] document site stop before base)
    (member : site.holder ∈ graph.holders linker.index [] document) :
    laterGraph.Follows later stop.path site := by
  obtain ⟨after, isAfter, _⟩ := toured.held_after keepsNames_change member stopsAt.found
  exact ⟨base, after, toured.leadsTo_of_enters stopsAt.enters, isAfter, by rw [stopsAt.same]⟩

end Toured

end Linker

end ApiLinker
