import Mathlib.Data.Set.Finite.Basic
import Mathlib.Logic.Relation
import Mathlib.Order.WellFounded
import ApiLinker.Proofs.Index
import ApiLinker.Proofs.Linking.Links
import ApiLinker.Proofs.Linking.Walk
import ApiLinker.Proofs.Schema.Registered

/-!
Aliases: entries of a table that only refer to another entry of it.

Following aliases from an entry, one comes to an entry with an object of its own, to an entry that
leads nowhere, or round in a loop.  The index knows an entry in the first case only, and as that
object; in which order the entries stand makes no difference.  The passes over the aliases end
without a limit on their number, and a walk links an alias to what the index knows it as.
-/

namespace ApiLinker.Index

open Relation

section

/-! Where aliases lead. -/

variable (category : Category) (entries : Table Edge)

/-- One entry is an alias of the next: a local reference to it, in its own category. -/
def Forwards (name next : String) : Prop :=
  ∃ reference, (name, .placeholder reference) ∈ entries ∧ reference.isExternal = false ∧
    Addresses category reference ∧ reference.identifier = next

def Defines (name : String) (object : EntityId) : Prop :=
  ∃ edge, (name, edge) ∈ entries ∧ edge.target? = some object

/-- A chain of aliases, of any length, leads to an entry that has the object. -/
def EndsAt (name : String) (object : EntityId) : Prop :=
  ∃ last, ReflTransGen (Forwards category entries) name last ∧ Defines entries last object

/-- Nothing comes after this entry, and it has no object. -/
inductive Stuck (name : String) : Prop where
  | dangling (missing : name ∉ entries.names)
  | external {reference : Reference} (member : (name, .placeholder reference) ∈ entries)
      (isExternal : reference.isExternal = true)
  | elsewhere {reference : Reference} (member : (name, .placeholder reference) ∈ entries)
      (unaddressed : ¬ Addresses category reference)

end

section

variable {category : Category} {entries : Table Edge} {name next other : String}
variable {object : EntityId}

theorem EndsAt.head (forwards : Forwards category entries name next)
    (ends : EndsAt category entries next object) : EndsAt category entries name object := by
  obtain ⟨last, chain, defines⟩ := ends
  exact ⟨last, .head forwards chain, defines⟩

/-- The reference that is written for a named object makes an alias of it. -/
theorem forwards_toComponent
    (member : (name, .placeholder (.toComponent category next)) ∈ entries) :
    Forwards category entries name next :=
  ⟨_, member, Reference.isExternal_toComponent category next,
    ⟨by simp [Reference.category?_toComponent], Reference.isNested_toComponent category next⟩,
    Reference.identifier_toComponent category next⟩

theorem EndsAt.of_subset {others : Table Edge} (subset : entries ⊆ others)
    (ends : EndsAt category entries name object) : EndsAt category others name object := by
  obtain ⟨last, chain, edge, member, leads⟩ := ends
  have widens : ∀ earlier later, Forwards category entries earlier later →
      Forwards category others earlier later :=
    fun _ _ ⟨reference, aliased, isAlias⟩ => ⟨reference, subset aliased, isAlias⟩
  exact ⟨last, ReflTransGen.mono widens _ _ chain, edge, subset member, leads⟩

variable (category entries name) in
theorem defines_or_forwards_or_stuck :
    (∃ object, Defines entries name object) ∨ (∃ next, Forwards category entries name next) ∨
      Stuck category entries name := by
  by_cases listed : name ∈ entries.names
  · obtain ⟨⟨_, edge⟩, member, rfl⟩ := List.mem_map.mp listed
    cases edge with
    | inline target => exact .inl ⟨target, _, member, rfl⟩
    | linked reference target => exact .inl ⟨target, _, member, rfl⟩
    | placeholder reference =>
        by_cases isExternal : reference.isExternal = true
        · exact .inr (.inr (.external member isExternal))
        · by_cases addresses : Addresses category reference
          · exact .inr (.inl ⟨_, reference, member, by simpa using isExternal, addresses, rfl⟩)
          · exact .inr (.inr (.elsewhere member addresses))
  · exact .inr (.inr (.dangling listed))

/-- Chains that neither go round nor get stuck end, as there are finitely many entries. -/
theorem exists_endsAt_of_free
    (free : ∀ last, ReflTransGen (Forwards category entries) name last →
      ¬ TransGen (Forwards category entries) last last ∧ ¬ Stuck category entries last) :
    ∃ object, EndsAt category entries name object := by
  let passed := { last // ReflTransGen (Forwards category entries) name last }
  let after : passed → passed → Prop := fun later earlier =>
    TransGen (Forwards category entries) earlier.1 later.1
  have inTable : ∀ last : passed, last.1 ∈ entries.names := fun last => by
    by_contra missing
    exact (free last.1 last.2).2 (.dangling missing)
  have : Finite passed := Finite.of_injective
    (fun last : passed => (⟨last.1, List.mem_toFinset.mpr (inTable last)⟩ :
      { each // each ∈ entries.names.toFinset }))
    fun left right same => Subtype.ext (congrArg (fun each => each.1) same)
  have : IsTrans passed after := ⟨fun _ _ _ later earlier => earlier.trans later⟩
  have : Std.Irrefl after := ⟨fun last => (free last.1 last.2).1⟩
  have founded : WellFounded after := Finite.wellFounded_of_trans_of_irrefl after
  suffices each : ∀ last : passed, ∃ object, EndsAt category entries last.1 object from
    each ⟨name, .refl⟩
  intro last
  induction last using founded.induction with
  | h last ih =>
      rcases defines_or_forwards_or_stuck category entries last.1 with
        ⟨object, defines⟩ | ⟨next, forwards⟩ | stuck
      · exact ⟨object, last.1, .refl, defines⟩
      · obtain ⟨object, ends⟩ := ih ⟨next, .tail last.2 forwards⟩ (.single forwards)
        exact ⟨object, ends.head forwards⟩
      · exact absurd stuck (free last.1 last.2).2

/-! Each entry has one way to go, as its name stands once in the table. -/

variable (distinct : entries.names.Nodup)
include distinct

theorem forwards_unique (left : Forwards category entries name next)
    (right : Forwards category entries name other) : next = other := by
  obtain ⟨reference, member, -, -, rfl⟩ := left
  obtain ⟨again, sameMember, -, -, rfl⟩ := right
  have same := Table.eq_of_mem_of_nodup distinct member sameMember
  rw [Edge.placeholder.inj same]

theorem not_forwards_of_defines (defines : Defines entries name object) :
    ¬ Forwards category entries name next := by
  rintro ⟨reference, aliased, -⟩
  obtain ⟨edge, member, leads⟩ := defines
  cases Table.eq_of_mem_of_nodup distinct member aliased
  cases leads

theorem Stuck.not_forwards (stuck : Stuck category entries name) :
    ¬ Forwards category entries name next := by
  rintro ⟨reference, member, isLocal, addresses, -⟩
  cases stuck with
  | dangling missing => exact missing (List.mem_map_of_mem member)
  | external aliased isExternal =>
      cases Table.eq_of_mem_of_nodup distinct member aliased
      simp [isLocal] at isExternal
  | elsewhere aliased unaddressed =>
      cases Table.eq_of_mem_of_nodup distinct member aliased
      exact unaddressed addresses

theorem Stuck.not_defines (stuck : Stuck category entries name) :
    ¬ Defines entries name object := by
  rintro ⟨edge, member, leads⟩
  cases stuck with
  | dangling missing => exact missing (List.mem_map_of_mem member)
  | external aliased | elsewhere aliased =>
      cases Table.eq_of_mem_of_nodup distinct member aliased
      cases leads

theorem EndsAt.of_forwards (ends : EndsAt category entries name object)
    (forwards : Forwards category entries name next) : EndsAt category entries next object := by
  obtain ⟨last, chain, defines⟩ := ends
  rcases ReflTransGen.cases_head chain with rfl | ⟨second, first, rest⟩
  · exact absurd forwards (not_forwards_of_defines distinct defines)
  · rw [forwards_unique distinct forwards first]
    exact ⟨last, rest, defines⟩

theorem EndsAt.of_chain (ends : EndsAt category entries name object)
    (chain : ReflTransGen (Forwards category entries) name next) :
    EndsAt category entries next object := by
  induction chain with
  | refl => exact ends
  | tail _ forwards ih => exact ih.of_forwards distinct forwards

theorem EndsAt.unique {another : EntityId} (ends : EndsAt category entries name object)
    (again : EndsAt category entries name another) : object = another := by
  obtain ⟨last, chain, edge, member, leads⟩ := ends
  obtain ⟨_, rest, defines⟩ := again.of_chain distinct chain
  rcases ReflTransGen.cases_head rest with rfl | ⟨second, forwards, -⟩
  · obtain ⟨same, inside, also⟩ := defines
    rw [Table.eq_of_mem_of_nodup distinct member inside, also] at leads
    exact (Option.some.inj leads).symm
  · exact absurd forwards (not_forwards_of_defines distinct ⟨edge, member, leads⟩)

theorem EndsAt.not_stuck (ends : EndsAt category entries name object) :
    ¬ Stuck category entries name := by
  intro stuck
  obtain ⟨last, chain, defines⟩ := ends
  rcases ReflTransGen.cases_head chain with rfl | ⟨second, forwards, -⟩
  · exact stuck.not_defines distinct defines
  · exact stuck.not_forwards distinct forwards

/-- A chain that ends passes no entry twice: from a repeated entry on, it would go round. -/
theorem EndsAt.not_loop (ends : EndsAt category entries name object) :
    ¬ TransGen (Forwards category entries) name name := by
  intro loop
  obtain ⟨last, chain, defines⟩ := ends
  induction chain using ReflTransGen.head_induction_on with
  | refl =>
      obtain ⟨second, forwards, -⟩ := TransGen.head'_iff.mp loop
      exact not_forwards_of_defines distinct defines forwards
  | head forwards rest ih =>
      obtain ⟨second, first, back⟩ := TransGen.head'_iff.mp loop
      rw [← forwards_unique distinct forwards first] at back
      exact ih (.tail' back forwards)

theorem not_endsAt_iff :
    (∀ object, ¬ EndsAt category entries name object) ↔
      ∃ last, ReflTransGen (Forwards category entries) name last ∧
        (TransGen (Forwards category entries) last last ∨ Stuck category entries last) := by
  constructor
  · intro endless
    by_contra free
    push Not at free
    obtain ⟨object, ends⟩ := exists_endsAt_of_free free
    exact endless object ends
  · rintro ⟨last, chain, loop | stuck⟩ object ends
    · exact (ends.of_chain distinct chain).not_loop distinct loop
    · exact (ends.of_chain distinct chain).not_stuck distinct stuck

end

/-- The passes over the aliases, made until one settles nothing, lead from an index to another. -/
inductive Settles (category : Category) : Index → List (String × Reference) → Index → Prop where
  | done {index : Index} {aliases : List (String × Reference)}
      (idle : (settleOnce category index aliases).2.length = aliases.length) :
      Settles category index aliases (settleOnce category index aliases).1
  | again {index result : Index} {aliases : List (String × Reference)}
      (progress : (settleOnce category index aliases).2.length ≠ aliases.length)
      (rest : Settles category (settleOnce category index aliases).1
        (settleOnce category index aliases).2 result) : Settles category index aliases result

section

variable {category : Category} {index result : Index} {aliases : List (String × Reference)}

theorem settles_settle {limit : Nat} (enough : aliases.length ≤ limit) :
    Settles category index aliases (settle category limit index aliases) := by
  induction limit generalizing index aliases with
  | zero =>
      cases List.length_eq_zero_iff.mp (Nat.le_zero.mp enough)
      exact .done rfl
  | succ limit ih =>
      rw [settle_succ]
      split
      · exact .done ‹_›
      · refine .again ‹_› (ih ?_)
        have fewer := settleOnce_left_le category index aliases
        omega

theorem Settles.unique {another : Index} (settles : Settles category index aliases result)
    (again : Settles category index aliases another) : result = another := by
  induction settles with
  | done idle =>
      cases again with
      | done => rfl
      | again progress => exact absurd idle progress
  | again progress _ ih =>
      cases again with
      | done idle => exact absurd idle progress
      | again _ rest => exact ih rest

theorem settles_iff {entries : Table Edge} :
    Settles category (index.registerDefinitions category (definitions entries))
      (Index.aliases entries) result ↔ result = index.registerAll category entries := by
  have settled : Settles category (index.registerDefinitions category (definitions entries))
      (Index.aliases entries) (index.registerAll category entries) := by
    rw [registerAll_eq]
    exact settles_settle (Nat.le_refl _)
  constructor
  · exact fun settles => settles.unique settled
  · rintro rfl
    exact settled

end

section

variable {graph : Graph} {document : Document} {category : Category} {name : String}
variable {object : EntityId} (different : category ≠ .tags)
include different

theorem endsAt_of_entity?
    (found : (ofDocument graph document).entity? category name = some object) :
    EndsAt category (document.namedObjects.edgesOf category) name object := by
  refine ofDocument_least different (K := EndsAt category _) ?_ ?_ name object found
  · intro name edge target member leads
    exact ⟨name, .refl, edge, member, leads⟩
  · intro name reference target member isLocal addresses ends
    exact ends.head ⟨reference, member, isLocal, addresses, rfl⟩

variable (distinct : (document.namedObjects.edgesOf category).names.Nodup)
include distinct

theorem entity?_ofDocument_iff :
    (ofDocument graph document).entity? category name = some object ↔
      EndsAt category (document.namedObjects.edgesOf category) name object := by
  refine ⟨endsAt_of_entity? different, fun ends => ?_⟩
  suffices known : (ofDocument graph document).Knows category name by
    obtain ⟨target, found⟩ := known
    rw [found, ends.unique distinct (endsAt_of_entity? different found)]
  obtain ⟨last, chain, edge, member, leads⟩ := ends
  induction chain using ReflTransGen.head_induction_on with
  | refl => exact ofDocument_knows_definition different member leads
  | head forwards rest ih =>
      obtain ⟨reference, aliased, isLocal, addresses, rfl⟩ := forwards
      obtain ⟨target, found⟩ := ih
      exact ofDocument_knows_alias different aliased isLocal
        (resolve_eq_ok_iff.mpr ⟨addresses, found⟩)

/-- The one step of a link agrees with the whole chain: the index knows the next entry as what the
chain from it ends at. -/
theorem link_placeholder_eq_linked_iff {reference : Reference}
    (member : (name, .placeholder reference) ∈ document.namedObjects.edgesOf category) :
    (ofDocument graph document).link category (.placeholder reference) =
        .linked reference object ↔
      (ofDocument graph document).entity? category name = some object := by
  rw [entity?_ofDocument_iff different distinct]
  have links := links_link (ofDocument graph document) category (.placeholder reference)
  generalize (ofDocument graph document).link category (.placeholder reference) = result at links ⊢
  constructor
  · rintro rfl
    cases links with
    | found isLocal resolved =>
        obtain ⟨addresses, found⟩ := resolve_eq_ok_iff.mp resolved
        exact .head ⟨reference, member, isLocal, addresses, rfl⟩
          ((entity?_ofDocument_iff different distinct).mp found)
  · intro ends
    obtain ⟨last, chain, edge, inside, leads⟩ := ends
    rcases ReflTransGen.cases_head chain with rfl | ⟨next, forwards, rest⟩
    · cases Table.eq_of_mem_of_nodup distinct member inside
      cases leads
    · obtain ⟨again, aliased, isLocal, addresses, rfl⟩ := forwards
      cases Table.eq_of_mem_of_nodup distinct member aliased
      have found : (ofDocument graph document).entity? category reference.identifier = some object :=
        (entity?_ofDocument_iff different distinct).mpr ⟨last, rest, edge, inside, leads⟩
      have resolved := resolve_eq_ok_iff.mpr ⟨addresses, found⟩
      cases links with
      | found _ also => rw [Except.ok.inj (also.symm.trans resolved)]
      | external isExternal => simp [isLocal] at isExternal
      | missing failed => cases failed.symm.trans resolved

end

end ApiLinker.Index

namespace ApiLinker.Document

open Index Relation

theorem edgesOf_relink {category : Category} (edges : EdgeMap) (schemas : List Schema)
    (document : Document) :
    (document.relink edges schemas).namedObjects.edgesOf category =
      mapEdges (edges.edge category) (document.namedObjects.edgesOf category) := by
  cases noted : document.components <;> cases category <;>
    simp [relink, namedObjects, noted, Components.edgesOf, Components.relink, mapEdges]

/-- Aliases are settled as their chains end. -/
theorem link_settles_aliases (graph : Graph) (document : Document) (settings : Settings)
    {category : Category} (different : category ≠ .tags)
    (distinct : (document.namedObjects.edgesOf category).names.Nodup) :
    let entries := document.namedObjects.edgesOf category
    let index := Index.ofDocument graph document
    (∀ name object, index.entity? category name = some object ↔
      EndsAt category entries name object) ∧
    (∀ name, index.entity? category name = none ↔
      ∃ last, ReflTransGen (Forwards category entries) name last ∧
        (TransGen (Forwards category entries) last last ∨ Stuck category entries last)) ∧
    (∀ (otherGraph : Graph) (other : Document),
      (other.namedObjects.edgesOf category).Perm entries → ∀ name,
        (Index.ofDocument otherGraph other).entity? category name = index.entity? category name) ∧
    (∀ before result : Index,
      Settles category (before.registerDefinitions category (definitions entries))
        (aliases entries) result ↔ result = before.registerAll category entries) ∧
    (∀ name reference, (name, .placeholder reference) ∈ entries →
      ∃ edge, (name, edge) ∈ (document.link graph settings).2.2.namedObjects.edgesOf category ∧
        ∀ object, edge = .linked reference object ↔ index.entity? category name = some object) := by
  intro entries index
  have settled : ∀ name object, index.entity? category name = some object ↔
      EndsAt category entries name object := fun _ _ => entity?_ofDocument_iff different distinct
  refine ⟨settled, fun name => ?_, fun otherGraph other permuted name => ?_,
    fun _ _ => settles_iff, fun name reference member => ?_⟩
  · rw [← not_endsAt_iff distinct, Option.eq_none_iff_forall_ne_some]
    exact forall_congr' fun object => not_congr (settled name object)
  · have otherDistinct : (other.namedObjects.edgesOf category).names.Nodup :=
      (permuted.map Prod.fst).nodup_iff.mpr distinct
    refine Option.ext fun object => ?_
    rw [settled, entity?_ofDocument_iff different otherDistinct]
    exact ⟨.of_subset permuted.subset, .of_subset permuted.symm.subset⟩
  · refine ⟨index.link category (.placeholder reference), ?_, fun object =>
      link_placeholder_eq_linked_iff different distinct member⟩
    rw [show (document.link graph settings).2.2 = _ from Linker.walk_document, edgesOf_relink]
    exact List.mem_map_of_mem (f := fun entry => (entry.1, index.link category entry.2)) member

/-- A chain of two aliases, listed in the wrong order for one pass, and a loop. -/
def aliasing : Table Edge :=
  [("first", .placeholder (.toComponent .parameters "second")),
    ("second", .placeholder (.toComponent .parameters "first")),
    ("maximum", .placeholder (.toComponent .parameters "ceiling")),
    ("ceiling", .placeholder (.toComponent .parameters "limit")),
    ("limit", .inline 0)]

theorem link_settles_aliases_aliasing :
    let document : Document := { components := some { parameters := aliasing } }
    aliasing.names.Nodup ∧
      (Index.ofDocument {} document).entity? .parameters "maximum" = some 0 ∧
      (Index.ofDocument {} document).entity? .parameters "first" = none := by
  intro document
  have distinct : aliasing.names.Nodup := by decide
  obtain ⟨settled, unsettled, -⟩ := link_settles_aliases {} document {}
    (by decide : Category.parameters ≠ .tags) distinct
  have maximum : Forwards .parameters aliasing "maximum" "ceiling" :=
    forwards_toComponent (by simp [aliasing])
  have ceiling : Forwards .parameters aliasing "ceiling" "limit" :=
    forwards_toComponent (by simp [aliasing])
  have first : Forwards .parameters aliasing "first" "second" :=
    forwards_toComponent (by simp [aliasing])
  have second : Forwards .parameters aliasing "second" "first" :=
    forwards_toComponent (by simp [aliasing])
  exact ⟨distinct,
    (settled _ _).mpr ⟨"limit", .head maximum (.single ceiling), .inline 0,
      by decide, rfl⟩,
    (unsettled _).mpr ⟨"first", .refl, .inl (.tail (.single first) second)⟩⟩

end ApiLinker.Document
