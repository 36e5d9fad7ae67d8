import ApiLinker.Reference
import ApiLinker.Schema.Registry
import Mathlib.Data.List.Basic

/-!
Pointer text can be read in one way only.

Splitting a written path at its slashes and taking back the escapes gives the segments again, so
different paths have different pointers, and different pointers of this kind different locators.
-/

namespace ApiLinker

namespace Pointer

theorem unescapeChars_cons {c : Char} (plain : c ≠ '~') (rest : List Char) :
    unescapeChars (c :: rest) = c :: unescapeChars rest := by
  rw [unescapeChars]
  · intro _ same
    exact absurd same plain
  · intro _ same
    exact absurd same plain

theorem unescapeChars_escapeChars (segment : List Char) :
    unescapeChars (escapeChars segment) = segment := by
  induction segment with
  | nil => rfl
  | cons c rest ih =>
      simp only [escapeChars, List.flatMap_cons] at ih ⊢
      by_cases tilde : c = '~'
      · subst tilde
        simp [escapeChar, unescapeChars, ih]
      · by_cases slash : c = '/'
        · subst slash
          simp [escapeChar, unescapeChars, ih]
        · have plain : escapeChar c = [c] := by simp [escapeChar]
          rw [plain, List.singleton_append, unescapeChars_cons tilde, ih]

theorem unescape_escape (segment : String) : unescape (escape segment) = segment := by
  simp [unescape, escape, unescapeChars_escapeChars]

theorem slash_not_mem_escapeChars (segment : List Char) : '/' ∉ escapeChars segment := by
  induction segment with
  | nil => simp [escapeChars]
  | cons c rest ih =>
      simp only [escapeChars, List.flatMap_cons, List.mem_append, not_or] at ih ⊢
      refine ⟨?_, ih⟩
      by_cases tilde : c = '~'
      · subst tilde
        decide
      · by_cases slash : c = '/'
        · subst slash
          decide
        · simp [escapeChar, Ne.symm slash]

theorem length_le_escapeChars (segment : List Char) :
    segment.length ≤ (escapeChars segment).length := by
  induction segment with
  | nil => exact Nat.le_refl _
  | cons c rest ih =>
      have positive : 0 < (escapeChar c).length := by
        unfold escapeChar
        split <;> simp
      simp only [escapeChars, List.flatMap_cons, List.length_append, List.length_cons] at ih ⊢
      omega

/-- A segment is written as it is when it holds nothing to escape. -/
theorem escapeChars_eq_self_iff {segment : List Char} :
    escapeChars segment = segment ↔ '~' ∉ segment ∧ '/' ∉ segment := by
  induction segment with
  | nil => simp [escapeChars]
  | cons c rest ih =>
      simp only [escapeChars, List.flatMap_cons] at ih ⊢
      by_cases tilde : c = '~'
      · subst tilde
        have longer : '0' :: rest.flatMap escapeChar ≠ rest := fun same => by
          have lengths := congrArg List.length same
          have grown := length_le_escapeChars rest
          simp only [escapeChars, List.length_cons] at lengths grown
          omega
        simp [escapeChar, longer]
      · by_cases slash : c = '/'
        · subst slash
          simp [escapeChar]
        · have plain : escapeChar c = [c] := by simp [escapeChar]
          simp [plain, ih, Ne.symm tilde, Ne.symm slash]

theorem escape_eq_self_iff {segment : String} :
    escape segment = segment ↔ '~' ∉ segment.toList ∧ '/' ∉ segment.toList := by
  rw [← escapeChars_eq_self_iff, escape, ← String.toList_inj, String.toList_ofList]

theorem toList_extendWith (segments : List String) :
    (extendWith segments).toList =
      segments.flatMap fun segment => '/' :: escapeChars segment.toList := by
  simp [extendWith, String.toList_join, List.flatMap_map, escape]

theorem extendWith_append (left right : List String) :
    extendWith (left ++ right) = extendWith left ++ extendWith right := by
  apply String.toList_injective
  simp [toList_extendWith]

theorem ofSegments_append (left right : List String) :
    ofSegments (left ++ right) = ofSegments left ++ extendWith right := by
  rw [ofSegments, ofSegments, extendWith_append, String.append_assoc]

theorem splitSlashes_append {piece : List Char} (plain : '/' ∉ piece) (rest : List Char) :
    splitSlashes (piece ++ '/' :: rest) = piece :: splitSlashes rest := by
  induction piece with
  | nil => simp [splitSlashes]
  | cons c piece ih =>
      simp only [List.mem_cons, not_or] at plain
      simp [splitSlashes, ih plain.2, Ne.symm plain.1]

theorem splitSlashes_of_not_mem {piece : List Char} (plain : '/' ∉ piece) :
    splitSlashes piece = [piece] := by
  induction piece with
  | nil => rfl
  | cons c piece ih =>
      simp only [List.mem_cons, not_or] at plain
      simp [splitSlashes, ih plain.2, Ne.symm plain.1]

/-- Splitting a written path gives its segments, escaped, after an empty piece. -/
theorem splitSlashes_extendWith {piece : List Char} (plain : '/' ∉ piece) (segments : List String) :
    splitSlashes (piece ++ (extendWith segments).toList) =
      piece :: segments.map fun segment => escapeChars segment.toList := by
  induction segments generalizing piece with
  | nil => simpa [extendWith, String.join] using splitSlashes_of_not_mem plain
  | cons segment rest ih =>
      rw [toList_extendWith, List.flatMap_cons, ← toList_extendWith, List.cons_append,
        splitSlashes_append plain, ih (slash_not_mem_escapeChars _), List.map_cons]

theorem splitSlashes_ofSegments (segments : List String) :
    splitSlashes (ofSegments segments).toList =
      ['#'] :: segments.map fun segment => escapeChars segment.toList := by
  rw [ofSegments, String.toList_append]
  exact splitSlashes_extendWith (by decide) segments

theorem extendWith_injective {left right : List String}
    (same : extendWith left = extendWith right) : left = right := by
  have pieces : (left.map fun segment => escapeChars segment.toList) =
      right.map fun segment => escapeChars segment.toList := by
    have split := congrArg (fun text => splitSlashes text.toList) same
    have empty : '/' ∉ ([] : List Char) := List.not_mem_nil
    have leftSplit := splitSlashes_extendWith empty left
    have rightSplit := splitSlashes_extendWith empty right
    simp only [List.nil_append] at leftSplit rightSplit
    simp only [leftSplit, rightSplit] at split
    exact (List.cons.inj split).2
  refine List.map_injective_iff.mpr (fun first second equal => ?_) pieces
  have texts := congrArg unescapeChars equal
  simp only [unescapeChars_escapeChars] at texts
  exact String.toList_injective texts

theorem ofSegments_injective {left right : List String}
    (same : ofSegments left = ofSegments right) : left = right := by
  apply extendWith_injective
  apply String.toList_injective
  have texts := congrArg String.toList same
  simpa [ofSegments] using texts

end Pointer

namespace Reference

/-- A written path is found again in a reference to it, still escaped. -/
theorem segments_ofSegments (segment : String) (rest : List String) :
    ({ pointer := Pointer.ofSegments (segment :: rest) } : Reference).segments =
      (segment :: rest).map Pointer.escape := by
  have chars : fragmentChars { pointer := Pointer.ofSegments (segment :: rest) } =
      '/' :: (Pointer.escapeChars segment.toList ++ (Pointer.extendWith rest).toList) := by
    simp [fragmentChars, Pointer.ofSegments, Pointer.splitFragment, Pointer.toList_extendWith]
  rw [segments, chars, Pointer.pieces,
    Pointer.splitSlashes_extendWith (Pointer.slash_not_mem_escapeChars _)]
  simp [Pointer.escape]

theorem segments_toComponent (category : Category) (name : String) :
    (toComponent category name).segments =
      if category = .tags then ["tags", Pointer.escape name]
      else ["components", category.key, Pointer.escape name] := by
  have tags : Pointer.escape "tags" = "tags" := by decide
  have components : Pointer.escape "components" = "components" := by decide
  have key : Pointer.escape category.key = category.key := by cases category <;> decide
  by_cases isTag : category = .tags
  · simp [toComponent, toTag, isTag, segments_ofSegments, tags]
  · simp [toComponent, isTag, segments_ofSegments, components, key]

theorem identifier_toComponent (category : Category) (name : String) :
    (toComponent category name).identifier = name := by
  rw [identifier, segments_toComponent]
  by_cases isTag : category = .tags <;> simp [isTag, Pointer.unescape_escape]

theorem identifier_toTag (name : String) : (toTag name).identifier = name :=
  identifier_toComponent .tags name

theorem category?_toComponent (category : Category) (name : String) :
    (toComponent category name).category? = some category := by
  rw [category?, segments_toComponent]
  by_cases isTag : category = .tags
  · simp [isTag]
  · simp [isTag, Category.ofKey?_key]

theorem isNested_toComponent (category : Category) (name : String) :
    (toComponent category name).isNested = false := by
  rw [isNested, segments_toComponent]
  by_cases isTag : category = .tags <;> simp [isTag]

theorem isExternal_ofSegments (segments : List String) :
    isExternal { pointer := Pointer.ofSegments segments } = false := by
  simp [isExternal, resource?, Pointer.ofSegments, Pointer.splitFragment]

theorem isExternal_toComponent (category : Category) (name : String) :
    (toComponent category name).isExternal = false := by
  rw [toComponent]
  split
  · exact isExternal_ofSegments _
  · exact isExternal_ofSegments _

/-- The last segment of the reference that is written for a name is the name, escaped. -/
theorem getLast?_toComponent (category : Category) (name : String) :
    (Pointer.splitSlashes (toComponent category name).pointer.toList).getLast? =
      some (Pointer.escape name).toList := by
  rw [toComponent]
  split <;> simp [toTag, Pointer.splitSlashes_ofSegments, Pointer.escape]

/-- Category and name are found again in the reference that is written for them. -/
theorem toComponent_injective {category other : Category} {name otherName : String}
    (same : toComponent category name = toComponent other otherName) :
    category = other ∧ name = otherName := by
  have categories := congrArg category? same
  have names := congrArg identifier same
  rw [category?_toComponent, category?_toComponent] at categories
  rw [identifier_toComponent, identifier_toComponent] at names
  exact ⟨Option.some.inj categories, names⟩

end Reference

namespace Locator

theorem ofPointer_ofSegments (authority : String) (segments : List String) :
    ofPointer authority (Pointer.ofSegments segments) =
      String.ofList
        (dropTrailingSlashes authority.toList ++ (Pointer.extendWith segments).toList) := by
  have path : path (Pointer.ofSegments segments) = (Pointer.extendWith segments).toList := by
    simp [Locator.path, Pointer.ofSegments]
  rw [ofPointer, path]
  cases segments with
  | nil => simp [Pointer.extendWith, String.join]
  | cons segment rest => simp [Pointer.toList_extendWith]

/-- Under one authority, different paths have different locators. -/
theorem ofPointer_injective {authority : String} {left right : List String}
    (same : ofPointer authority (Pointer.ofSegments left) =
      ofPointer authority (Pointer.ofSegments right)) : left = right := by
  rw [ofPointer_ofSegments, ofPointer_ofSegments] at same
  exact Pointer.extendWith_injective
    (String.toList_injective (List.append_cancel_left (String.ofList_injective same)))

end Locator

end ApiLinker
