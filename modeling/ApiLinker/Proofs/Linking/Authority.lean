import ApiLinker.Proofs.Index
import ApiLinker.Proofs.Linking.Matching

/-!
The authority of schema locators.

The locator of a pointer is the authority followed by a text that depends on the pointer alone, so
two pointers share a locator under every authority or under none.  Registries, cycles and whatever
else goes by locators are thus the same but for a change of locators, and documents are linked
alike.  Only the locators that reports show tell the authorities apart.
-/

namespace ApiLinker

namespace Locator

/-- What stands in a locator after the authority. -/
def suffix (pointer : String) : List Char :=
  let separator := match path pointer with
    | [] | '/' :: _ => []
    | _ => ['/']
  separator ++ path pointer

theorem ofPointer_eq (authority pointer : String) :
    ofPointer authority pointer =
      String.ofList (dropTrailingSlashes authority.toList ++ suffix pointer) :=
  congrArg String.ofList (List.append_assoc _ _ _)

theorem ofPointer_eq_iff {authority pointer other : String} :
    ofPointer authority pointer = ofPointer authority other ↔ suffix pointer = suffix other := by
  rw [ofPointer_eq, ofPointer_eq, String.ofList_inj, List.append_cancel_left_eq]

end Locator

namespace Table

variable {κ ι : Type} [DecidableEq κ]

theorem length_insert (name : κ) (value : α) (table : List (κ × α)) :
    (insert name value table).length =
      if (find? name table).isSome then table.length else table.length + 1 := by
  induction table with
  | nil => rfl
  | cons entry rest ih =>
      by_cases found : entry.1 = name
      · simp [insert, find?, found]
      · simp only [insert, find?, found, if_false, List.length_cons, ih]
        split <;> rfl

/-- Two tables have the same entries, each under two names for one thing. -/
structure Renamed (left right : ι → κ) (table other : List (κ × α)) : Prop where
  length : table.length = other.length
  find? : ∀ thing, Table.find? (left thing) table = Table.find? (right thing) other

theorem Renamed.insert {left right : ι → κ} {table other : List (κ × α)}
    (renamed : Renamed left right table other)
    (same : ∀ thing another, left thing = left another ↔ right thing = right another) (thing : ι)
    (value : α) :
    Renamed left right (Table.insert (left thing) value table)
      (Table.insert (right thing) value other) where
  length := by rw [length_insert, length_insert, renamed.find?, renamed.length]
  find? sought := by
    by_cases isThing : left sought = left thing
    · rw [isThing, (same _ _).mp isThing, find?_insert_self, find?_insert_self]
    · rw [find?_insert_of_ne isThing, find?_insert_of_ne (mt (same _ _).mpr isThing),
        renamed.find?]

end Table

variable {authority other : String} {document : Document}

theorem Registry.renamed_ofSchemas (authority other : String) (schemas : Table Schema) :
    Table.Renamed (Locator.ofPointer authority) (Locator.ofPointer other)
      (ofSchemas authority schemas).schemas (ofSchemas other schemas).schemas := by
  rw [ofSchemas_eq, ofSchemas_eq]
  have same : ∀ pointer another,
      Locator.ofPointer authority pointer = Locator.ofPointer authority another ↔
        Locator.ofPointer other pointer = Locator.ofPointer other another :=
    fun _ _ => Locator.ofPointer_eq_iff.trans Locator.ofPointer_eq_iff.symm
  have start : Table.Renamed (Locator.ofPointer authority) (Locator.ofPointer other)
      ([] : Table Schema) [] := ⟨rfl, fun _ => rfl⟩
  suffices folded : ∀ (entries : List (String × Schema)) (left right : Table Schema),
      Table.Renamed (Locator.ofPointer authority) (Locator.ofPointer other) left right →
      Table.Renamed (Locator.ofPointer authority) (Locator.ofPointer other)
        (entries.foldl (fun table entry =>
          Table.insert (Locator.ofPointer authority entry.1) entry.2 table) left)
        (entries.foldl (fun table entry =>
          Table.insert (Locator.ofPointer other entry.1) entry.2 table) right) from
    folded _ _ _ start
  intro entries
  induction entries with
  | nil => exact fun _ _ renamed => renamed
  | cons entry rest ih => exact fun _ _ renamed => ih _ _ (renamed.insert same entry.1 entry.2)

namespace Lookup

variable {left right : Lookup}

/-- Steps from one locator to the next are steps between the locators of the same pointers. -/
theorem transGen_leads_renamed
    (registry : ∀ pointer, left.registry.get? (Locator.ofPointer left.authority pointer) =
      right.registry.get? (Locator.ofPointer right.authority pointer))
    {pointer target : String}
    (leads : Relation.TransGen left.Leads (Locator.ofPointer left.authority pointer) target) :
    ∃ last, Locator.ofPointer left.authority last = target ∧
      Relation.TransGen right.Leads (Locator.ofPointer right.authority pointer)
        (Locator.ofPointer right.authority last) := by
  have step : ∀ {pointer target : String},
      left.Leads (Locator.ofPointer left.authority pointer) target →
      ∃ last, Locator.ofPointer left.authority last = target ∧
        right.Leads (Locator.ofPointer right.authority pointer)
          (Locator.ofPointer right.authority last) := by
    rintro pointer target ⟨schema, found, last, member, isLocal, rfl⟩
    exact ⟨last, rfl, schema, (registry pointer).symm.trans found, last, member, isLocal, rfl⟩
  induction leads with
  | single first =>
      obtain ⟨last, named, leadsToo⟩ := step first
      exact ⟨last, named, .single leadsToo⟩
  | tail _ next ih =>
      obtain ⟨middle, rfl, chain⟩ := ih
      obtain ⟨last, named, leadsToo⟩ := step next
      exact ⟨last, named, chain.tail leadsToo⟩

theorem Cyclic.renamed
    (registry : ∀ pointer, left.registry.get? (Locator.ofPointer left.authority pointer) =
      right.registry.get? (Locator.ofPointer right.authority pointer))
    {pointer : String} (cyclic : left.Cyclic (Locator.ofPointer left.authority pointer)) :
    right.Cyclic (Locator.ofPointer right.authority pointer) := by
  obtain ⟨last, same, chain⟩ := transGen_leads_renamed registry cyclic
  rwa [Locator.ofPointer_eq_iff.mpr (Locator.ofPointer_eq_iff.mp same)] at chain

theorem isCyclic_renamed (linked : left.Linked) (linkedToo : right.Linked)
    (registry : ∀ pointer, left.registry.get? (Locator.ofPointer left.authority pointer) =
      right.registry.get? (Locator.ofPointer right.authority pointer))
    (pointer : String) :
    left.links.isCyclic (Locator.ofPointer left.authority pointer) =
      right.links.isCyclic (Locator.ofPointer right.authority pointer) := by
  rw [Bool.eq_iff_iff, isCyclic_iff linked, isCyclic_iff linkedToo]
  exact ⟨.renamed registry, .renamed fun pointer => (registry pointer).symm⟩

end Lookup

/-- The problem as it is reported under another authority. -/
def Problem.under (authority : String) : Problem → Problem
  | .schemaNotFound pointer _ => .schemaNotFound pointer (Locator.ofPointer authority pointer)
  | problem => problem

theorem Problem.under_withHost (authority : String) (host : Option String) (problem : Problem) :
    (problem.withHost host).under authority = (problem.under authority).withHost host := by
  cases host <;> cases problem <;> rfl

theorem Linker.matches_authority (index : Index) (document : Document) (settings : Settings)
    (authority : String) :
    (ofDocument index document settings).Matches
      (fun problem => some (problem.under authority)) some
      (ofDocument index document { settings with schemaAuthority := authority }) := by
  have renamed := Registry.renamed_ofSchemas settings.schemaAuthority authority
    document.namedObjects.schemas
  refine ⟨rfl, rfl, ⟨?_, ?_, renamed.find?, ?_, fun _ => rfl, fun _ => rfl⟩, fun _ => rfl, ?_⟩
  · exact congrArg (· + 1) renamed.length
  · exact fun _ _ => Locator.ofPointer_eq_iff.trans Locator.ofPointer_eq_iff.symm
  · exact Lookup.isCyclic_renamed linked_ofDocument linked_ofDocument renamed.find?
  · intro category reference problem failed
    obtain rfl | rfl := Index.eq_of_resolve_error failed <;> rfl

/-- Another authority changes nothing but the locators in reports. -/
theorem Document.link_authority (graph : Graph) (document : Document) (settings : Settings)
    (authority : String) :
    let one := document.link graph settings
    let other := document.link graph { settings with schemaAuthority := authority }
    one.2 = other.2 ∧
      other.1 = one.1.map fun diagnostic =>
        { diagnostic with problem := diagnostic.problem.under authority } := by
  intro one other
  obtain ⟨linked, told⟩ := link_eq_of_matches graph document _ _
    (Linker.matches_authority (.ofDocument graph document) document settings authority)
    (fun host problem => congrArg some (problem.under_withHost authority host)) (fun _ _ => rfl)
  refine ⟨linked, ?_⟩
  have every : Diagnostic.told some other.1 = other.1 :=
    (Diagnostic.told_some id other.1).trans (List.map_id other.1)
  rw [← every, ← Diagnostic.told_some]
  exact told.symm

end ApiLinker
