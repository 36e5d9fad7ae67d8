import ApiLinker.Proofs.Json.Printing

/-!
Values printed over several lines, read again.

Between tokens blanks and line breaks say nothing, so a value printed over several lines gives the
tokens of its compact text (`Json.tokens_pretty`) and is read as the same tree.
-/

namespace ApiLinker.Json

open Scan

theorem run_blanks (count : Nat) (rest : List Char) :
    run .between (List.replicate count ' ' ++ rest) = run .between rest := by
  induction count with
  | zero => rfl
  | succ count ih =>
      rw [List.replicate_succ, List.cons_append]
      exact ih

theorem run_newLine (depth : Nat) (rest : List Char) :
    run .between (newLine depth ++ rest) = run .between rest :=
  run_blanks (2 * depth) rest

theorem run_name (name : String) {left right : List Char}
    (rests : run .between left = run .between right) :
    run .between (quote name ++ ([':', ' '] ++ left)) = run .between (quote name ++ ':' :: right) := by
  rw [run_quote, run_quote]
  have colon (rest : List Char) : run .between (':' :: rest) = .colon :: run .between rest := rfl
  have blank : run .between (' ' :: left) = run .between left := rfl
  rw [List.cons_append, List.singleton_append, colon, colon, blank, rests]

theorem ends_newLine (depth : Nat) (rest : List Char) : Ends (newLine depth ++ rest) :=
  .mark _ (by decide)

/-- Texts that give the same tokens still do behind a mark. -/
theorem run_mark {c : Char} {token : Token} (isMark : start c = ([token], .between))
    {left right : List Char} (rests : run .between left = run .between right) :
    run .between (c :: left) = run .between (c :: right) := by
  rw [run, run, step, step, isMark]
  simp only [rests]

mutual

/-- What follows may be printed in two ways as well. -/
theorem run_pretty : (json : Json) → {depth : Nat} → Legible depth json → (indent : Nat) →
    {left right : List Char} → Ends left → Ends right → run .between left = run .between right →
    run .between (json.prettyChars indent ++ left) = run .between (json.compactChars ++ right)
  | .null, _, _, _, _, _, _, _, rests => congrArg (Token.null :: ·) rests
  | .bool true, _, _, _, _, _, _, _, rests => congrArg (Token.bool true :: ·) rests
  | .bool false, _, _, _, _, _, _, _, rests => congrArg (Token.bool false :: ·) rests
  | .number (.integer value), _, _, _, _, _, endsLeft, endsRight, rests => by
      rw [prettyChars, compactChars, Number.chars, run_integer value endsLeft,
        run_integer value endsRight, rests]
  | .number (.float _), _, legible, _, _, _, _, _, _ => by cases legible
  | .string value, _, _, _, _, _, _, _, rests => by
      rw [prettyChars, compactChars, run_quote, run_quote, rests]
  | .array [], _, _, _, _, _, _, _, rests =>
      congrArg (Token.openBracket :: Token.closeBracket :: ·) rests
  | .array (first :: others), _, .array each, indent, _, _, _, _, rests => by
      simp only [prettyChars, compactChars, List.cons_append, List.append_assoc, List.nil_append]
      exact run_mark rfl (run_prettyElements (first :: others) each _ indent
        (.mark _ (by decide)) (run_mark rfl rests))
  | .object [], _, _, _, _, _, _, _, rests =>
      congrArg (Token.openBrace :: Token.closeBrace :: ·) rests
  | .object (first :: others), _, .object each, indent, _, _, _, _, rests => by
      simp only [prettyChars, compactChars, List.cons_append, List.append_assoc, List.nil_append]
      exact run_mark rfl (run_prettyMembers (first :: others) each _ indent
        (.mark _ (by decide)) (run_mark rfl rests))

theorem run_prettyElements : (elements : List Json) → {depth : Nat} →
    (∀ element ∈ elements, Legible depth element) → (indent outer : Nat) → {c : Char} →
    {left right : List Char} → Ends (c :: right) →
    run .between (c :: left) = run .between (c :: right) →
    run .between (prettyElements indent elements ++ (newLine outer ++ c :: left)) =
      run .between (compactElements elements ++ c :: right)
  | [], _, _, _, outer, _, _, _, _, rests => (run_newLine outer _).trans rests
  | [last], _, each, indent, outer, _, _, _, ends, rests => by
      rw [prettyElements, compactElements, List.append_assoc, run_newLine]
      exact run_pretty last (each last List.mem_cons_self) indent (ends_newLine outer _) ends
        ((run_newLine outer _).trans rests)
  | first :: second :: others, _, each, indent, outer, _, _, _, ends, rests => by
      obtain ⟨isFirst, each⟩ := List.forall_mem_cons.mp each
      simp only [prettyElements, compactElements, List.append_assoc, List.cons_append]
      rw [run_newLine]
      exact run_pretty first isFirst indent (.mark _ (by decide)) (.mark _ (by decide))
        (run_mark rfl (run_prettyElements (second :: others) each indent outer ends rests))

theorem run_prettyMembers : (members : List (String × Json)) → {depth : Nat} →
    (∀ member ∈ members, Legible depth member.2) → (indent outer : Nat) → {c : Char} →
    {left right : List Char} → Ends (c :: right) →
    run .between (c :: left) = run .between (c :: right) →
    run .between (prettyMembers indent members ++ (newLine outer ++ c :: left)) =
      run .between (compactMembers members ++ c :: right)
  | [], _, _, _, outer, _, _, _, _, rests => (run_newLine outer _).trans rests
  | [(name, last)], _, each, indent, outer, _, _, _, ends, rests => by
      simp only [prettyMembers, compactMembers, List.append_assoc]
      rw [run_newLine]
      exact run_name name (run_pretty last (each _ List.mem_cons_self) indent
        (ends_newLine outer _) ends ((run_newLine outer _).trans rests))
  | (name, first) :: second :: others, _, each, indent, outer, _, _, _, ends, rests => by
      obtain ⟨isFirst, each⟩ := List.forall_mem_cons.mp each
      simp only [prettyMembers, compactMembers, List.append_assoc, List.cons_append]
      rw [run_newLine]
      exact run_name name (run_pretty first isFirst indent (.mark _ (by decide))
        (.mark _ (by decide))
        (run_mark rfl (run_prettyMembers (second :: others) each indent outer ends rests)))

end

theorem tokens_pretty {depth : Nat} {json : Json} (legible : Legible depth json) :
    tokens (json.prettyChars 0) = tokens json.compactChars := by
  have same := run_pretty json legible 0 .endOfText .endOfText rfl
  rwa [List.append_nil, List.append_nil] at same

theorem decode_pretty {json : Json} (legible : Legible nestingLimit json)
    (read : Node → Except Fault α) :
    (Text.ofChars json.pretty.toList).decode read = read json.node := by
  have same : Text.ofChars (json.prettyChars 0) = Text.ofChars json.compactChars :=
    congrArg Text.ofTokens (tokens_pretty legible)
  rw [pretty, String.toList_ofList, same, ← decode_compact legible read, compact,
    String.toList_ofList]

end ApiLinker.Json
