import ApiLinker.Problem
import ApiLinker.Proofs.Schema.Slots

/-!
Pointer text is an encoding of paths.

Escaping and its reverse are two replacements each, one after the other.  They undo each other on
every segment and on every text that could be an escaped one, so the text of a path gives the path
back (`Pointer.encodes_paths`): that of a diagnostic as well as those of registered schemas.
-/

namespace ApiLinker

namespace Pointer

/-- Puts `new` in the place of every occurrence of a pattern that is not empty.  Occurrences are
looked for from left to right, each after the end of the last one. -/
def replace (pattern new : List Char) : List Char → List Char
  | [] => []
  | c :: rest =>
      if pattern.isPrefixOf (c :: rest) then
        new ++ replace pattern new (rest.drop (pattern.length - 1))
      else c :: replace pattern new rest
termination_by text => text.length
decreasing_by all_goals simp only [List.length_drop, List.length_cons]; omega

/-- Every tilde starts an escape. -/
def Escapes (text : List Char) : Prop :=
  ∀ index < text.length, text[index]? = some '~' →
    text[index + 1]? = some '0' ∨ text[index + 1]? = some '1'

/-- The segments that a pointer's text gives: what follows each slash, with the escapes taken back.
-/
def toSegments (text : String) : List String :=
  (splitSlashes text.toList).tail.map fun piece => String.ofList (unescapeChars piece)

section

/-! Replacements. -/

theorem replace_single (c : Char) (new text : List Char) :
    replace [c] new text = text.flatMap fun other => if other = c then new else [other] := by
  induction text with
  | nil => simp [replace]
  | cons other rest ih =>
      rw [replace, List.flatMap_cons]
      by_cases same : other = c
      · simp [same, ih]
      · simp [same, Ne.symm same, ih]

/-- A tilde that the escape makes is no slash, so the second replacement leaves it alone. -/
theorem escapeChars_eq_replace (text : List Char) :
    escapeChars text = replace ['/'] ['~', '1'] (replace ['~'] ['~', '0'] text) := by
  rw [replace_single, replace_single, List.flatMap_assoc, escapeChars]
  refine List.flatMap_congr fun c _ => ?_
  by_cases tilde : c = '~'
  · subst tilde
    rfl
  · by_cases slash : c = '/'
    · subst slash
      rfl
    · simp [escapeChar, tilde, slash]

theorem replace_pair_self (first second new : Char) (rest : List Char) :
    replace [first, second] [new] (first :: second :: rest) =
      new :: replace [first, second] [new] rest := by
  simp [replace]

theorem replace_pair_of_ne {first second new c : Char} {rest : List Char}
    (different : c = first → rest.head? ≠ some second) :
    replace [first, second] [new] (c :: rest) = c :: replace [first, second] [new] rest := by
  have noMatch : [first, second].isPrefixOf (c :: rest) = false := by
    cases rest with
    | nil => simp [List.isPrefixOf]
    | cons next rest =>
        by_cases same : c = first
        · have apart : next ≠ second := by simpa using different same
          simp [List.isPrefixOf, Ne.symm apart]
        · simp [List.isPrefixOf, Ne.symm same]
  rw [replace, noMatch]
  rfl

/-- What a text starts with stays, unless it is the start of an occurrence. -/
theorem head?_replace_pair (first second new : Char) (text : List Char) :
    (replace [first, second] [new] text).head? = text.head? ∨
      (replace [first, second] [new] text).head? = some new := by
  cases text with
  | nil => simp [replace]
  | cons c rest =>
      rw [replace]
      split <;> simp

/-- The first replacement makes nothing but slashes, so no `~0` comes from it.  In the other order
`~01` would become a slash. -/
theorem unescapeChars_eq_replace (text : List Char) :
    unescapeChars text = replace ['~', '0'] ['~'] (replace ['~', '1'] ['/'] text) := by
  fun_induction unescapeChars text with
  | case1 rest ih => rw [replace_pair_self, replace_pair_of_ne (by simp), ih]
  | case2 rest ih =>
      have kept : replace ['~', '1'] ['/'] ('~' :: '0' :: rest) =
          '~' :: '0' :: replace ['~', '1'] ['/'] rest := by
        rw [replace_pair_of_ne (by simp), replace_pair_of_ne (by simp)]
      rw [kept, replace_pair_self, ih]
  | case3 c rest notSlash notTilde ih =>
      have noSlash : c = '~' → rest.head? ≠ some '1' := by
        rintro rfl starts
        obtain ⟨rest, rfl⟩ := List.head?_eq_some_iff.mp starts
        exact notSlash rest rfl rfl
      have noTilde : c = '~' → rest.head? ≠ some '0' := by
        rintro rfl starts
        obtain ⟨rest, rfl⟩ := List.head?_eq_some_iff.mp starts
        exact notTilde rest rfl rfl
      rw [replace_pair_of_ne noSlash, replace_pair_of_ne, ih]
      intro isTilde starts
      rcases head?_replace_pair '~' '1' '/' rest with kept | replaced
      · exact noTilde isTilde (kept ▸ starts)
      · cases replaced.symm.trans starts
  | case4 => simp [replace]

end

section

/-! Segments, and texts that could be escaped ones. -/

theorem Escapes.tail {c : Char} {rest : List Char} (escapes : Escapes (c :: rest)) :
    Escapes rest := fun index below isTilde =>
  escapes (index + 1) (Nat.succ_lt_succ below) isTilde

theorem escapeChars_unescapeChars {text : List Char} (plain : '/' ∉ text) (escapes : Escapes text) :
    escapeChars (unescapeChars text) = text := by
  fun_induction unescapeChars text with
  | case1 rest ih =>
      simp only [List.mem_cons, not_or] at plain
      simpa [escapeChars, escapeChar] using ih plain.2.2 escapes.tail.tail
  | case2 rest ih =>
      simp only [List.mem_cons, not_or] at plain
      simpa [escapeChars, escapeChar] using ih plain.2.2 escapes.tail.tail
  | case3 c rest notSlash notTilde ih =>
      simp only [List.mem_cons, not_or] at plain
      have noTilde : c ≠ '~' := by
        rintro rfl
        rcases escapes 0 (Nat.zero_lt_succ _) rfl with starts | starts
        · obtain ⟨rest, rfl⟩ := List.head?_eq_some_iff.mp (List.head?_eq_getElem? ▸ starts)
          exact notTilde rest rfl rfl
        · obtain ⟨rest, rfl⟩ := List.head?_eq_some_iff.mp (List.head?_eq_getElem? ▸ starts)
          exact notSlash rest rfl rfl
      have itself : escapeChar c = [c] := by
        simp [escapeChar, Ne.symm plain.1]
      have others := ih plain.2 escapes.tail
      rw [escapeChars] at others ⊢
      rw [List.flatMap_cons, itself, others, List.singleton_append]
  | case4 => rfl

theorem escape_unescape {text : String} (plain : '/' ∉ text.toList) (escapes : Escapes text.toList) :
    escape (unescape text) = text := by
  rw [escape, unescape, String.toList_ofList, escapeChars_unescapeChars plain escapes,
    String.ofList_toList]

theorem toSegments_ofSegments (segments : List String) :
    toSegments (ofSegments segments) = segments := by
  simp [toSegments, splitSlashes_ofSegments, unescapeChars_escapeChars, Function.comp_def]

end

/-- Escaping and taking escapes back are two replacements each.  A segment is read again from its
escaped form, which has no slash, and every text without slashes in which every tilde starts an escape
is such a form.  The text of a path gives its segments back, so no other path has the same text; and
the texts of this kind are the locations of diagnostics and the pointers under which the nodes of a
schema are registered. -/
theorem encodes_paths :
    (∀ text, (escape text).toList = replace ['/'] ['~', '1'] (replace ['~'] ['~', '0'] text.toList) ∧
      (unescape text).toList =
        replace ['~', '0'] ['~'] (replace ['~', '1'] ['/'] text.toList)) ∧
    (∀ segment, unescape (escape segment) = segment ∧ '/' ∉ (escape segment).toList) ∧
    (∀ text, '/' ∉ text.toList → Escapes text.toList → escape (unescape text) = text) ∧
    (∀ segments, toSegments (ofSegments segments) = segments) ∧
    Function.Injective ofSegments ∧
    (∀ diagnostic : Diagnostic, toSegments diagnostic.location = diagnostic.path) ∧
    ∀ (schema : Schema) (base : List String),
      ((schema.positions (ofSegments base)).map fun (pointer, inner) => (toSegments pointer, inner)) =
        schema.occurrences.map fun (slots, inner) => (base ++ Schema.segments slots, inner) := by
  refine ⟨fun text => ⟨?_, ?_⟩, fun segment => ⟨unescape_escape segment, ?_⟩,
    fun text => escape_unescape, toSegments_ofSegments, fun _ _ => ofSegments_injective,
    fun diagnostic => toSegments_ofSegments diagnostic.path, fun schema base => ?_⟩
  · rw [escape, String.toList_ofList, escapeChars_eq_replace]
  · rw [unescape, String.toList_ofList, unescapeChars_eq_replace]
  · rw [escape, String.toList_ofList]
    exact slash_not_mem_escapeChars _
  · rw [Schema.positions_eq]
    simp [toSegments_ofSegments]

/-- A tilde in front of a digit is written so that the two are no escape. -/
theorem encodes_paths_tilded :
    '/' ∉ "a~01~1".toList ∧ Escapes "a~01~1".toList ∧ unescape "a~01~1" = "a~1/" ∧
      escape (unescape "a~01~1") = "a~01~1" := by
  have plain : '/' ∉ "a~01~1".toList := by decide
  have escapes : Escapes "a~01~1".toList := by
    unfold Escapes
    decide
  exact ⟨plain, escapes, by decide, encodes_paths.2.2.1 _ plain escapes⟩

end Pointer

end ApiLinker
