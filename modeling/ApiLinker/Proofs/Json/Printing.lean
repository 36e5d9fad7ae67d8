import ApiLinker.Json.Printer
import ApiLinker.Json.Reading
import ApiLinker.Proofs.Json.Digits
import ApiLinker.Proofs.Json.Distinct
import Mathlib.Data.List.TakeWhile
import Mathlib.Tactic.IntervalCases

/-!
Printed values, read again.

A value that is printed compactly is read as the tree that stands for it (`Json.ofChars_compact`),
provided that its numbers are integers of 64 bits and that it does not nest too deep.  The scan goes
over the text once, so it is followed from one value to what comes after it.
-/

namespace ApiLinker.Json

/-- Integers of 64 bits only, and at most `depth` containers around each other. -/
inductive Legible : (depth : Nat) → Json → Prop where
  | null (depth : Nat) : Legible depth .null
  | bool (depth : Nat) (value : Bool) : Legible depth (.bool value)
  | integer (depth : Nat) {value : Int} (low : -2 ^ 63 ≤ value) (high : value < 2 ^ 64) :
      Legible depth (.number (.integer value))
  | string (depth : Nat) (value : String) : Legible depth (.string value)
  | array {depth : Nat} {elements : List Json} (each : ∀ element ∈ elements, Legible depth element) :
      Legible (depth + 1) (.array elements)
  | object {depth : Nat} {members : List (String × Json)}
      (each : ∀ member ∈ members, Legible depth member.2) : Legible (depth + 1) (.object members)

@[simp] theorem legible_string (depth : Nat) (value : String) : Legible depth (.string value) :=
  .string depth value

@[simp] theorem legible_array {depth : Nat} {elements : List Json} :
    Legible (depth + 1) (.array elements) ↔ ∀ element ∈ elements, Legible depth element :=
  ⟨fun legible => by cases legible; assumption, .array⟩

@[simp] theorem legible_object {depth : Nat} {members : List (String × Json)} :
    Legible (depth + 1) (.object members) ↔ ∀ member ∈ members, Legible depth member.2 :=
  ⟨fun legible => by cases legible; assumption, .object⟩

/-- How a character of a string is printed: below U+0020 by its number, if it has no letter. -/
def pieceOf (c : Char) : Piece :=
  if (escapeChar c).length = 6 then .unit c.toNat else .char c

def Quoted.ofText (text : String) : Quoted :=
  { pieces := text.toList.map pieceOf, ending := .closed }

mutual

/-- The tree of a value. -/
def node : Json → Node
  | .null => .null
  | .bool value => .bool value
  | .number value => .number (Numeral.ofLiteral (Number.chars value))
  | .string value => .quoted (.ofText value)
  | .array elements => .array false (elementNodes elements)
  | .object members => .object false (memberNodes members)

def elementNodes : List Json → Elements
  | [] => .stop .closed
  | first :: rest => .item first.node (elementNodes rest)

def memberNodes : List (String × Json) → Members
  | [] => .stop .closed
  | (name, first) :: rest => .member (.ofText name) first.node (memberNodes rest)

end

section

/-! Integers. -/

/-- What may stand after a value. -/
inductive Ends : List Char → Prop where
  | endOfText : Ends []
  | mark {c : Char} (rest : List Char) (isMark : c ∈ [',', ']', '}', '\n']) : Ends (c :: rest)

theorem toDigits_shape {value : Nat} (positive : 0 < value) :
    ∃ digit rest, Nat.toDigits 10 value = Nat.digitChar digit :: rest ∧ 0 < digit ∧ digit < 10 ∧
      ∀ c ∈ rest, isDigit c = true := by
  induction value using Nat.strongRecOn with
  | ind value ih =>
      by_cases small : value < 10
      · exact ⟨value, [], Nat.toDigits_of_lt_base small, positive, small, nofun⟩
      · obtain ⟨digit, rest, digits, isPositive, below, areRest⟩ :=
          ih (value / 10) (by omega) (by omega)
        refine ⟨digit, rest ++ [(value % 10).digitChar], ?_, isPositive, below, ?_⟩
        · rw [Nat.toDigits_of_base_le (by decide) (Nat.le_of_not_lt small), digits, List.cons_append]
        · intro c member
          rcases List.mem_append.mp member with inRest | isLast
          · exact areRest c inRest
          · rw [List.mem_singleton.mp isLast]
            exact isDigit_digitChar (Nat.mod_lt value (by decide))

theorem isDigit_toDigits (value : Nat) : ∀ c ∈ Nat.toDigits 10 value, isDigit c = true := by
  cases value with
  | zero =>
      intro c member
      rw [show Nat.toDigits 10 0 = ['0'] from rfl, List.mem_singleton] at member
      rw [member]
      rfl
  | succ value =>
      obtain ⟨digit, rest, digits, _, below, areRest⟩ := toDigits_shape (Nat.succ_pos value)
      rw [digits]
      exact List.forall_mem_cons.mpr ⟨isDigit_digitChar below, areRest⟩

theorem run_digits {digits : List Char} (areDigits : ∀ c ∈ digits, isDigit c = true)
    (seen rest : List Char) :
    Scan.run (.number .whole seen) (digits ++ rest) =
      Scan.run (.number .whole (digits.reverse ++ seen)) rest := by
  induction digits generalizing seen with
  | nil => rfl
  | cons c digits ih =>
      obtain ⟨isFirst, areDigits⟩ := List.forall_mem_cons.mp areDigits
      rw [List.cons_append, Scan.run, Scan.step, Phase.next?, if_pos isFirst]
      simp only [List.nil_append]
      rw [ih areDigits, List.reverse_cons, List.append_assoc]
      rfl

/-- A whole number ends where no digit follows. -/
theorem run_ended {phase : Phase} (whole : phase = .whole ∨ phase = .leadingZero) (seen : List Char)
    {rest : List Char} (ends : Ends rest) :
    Scan.run (.number phase seen) rest =
      .number (Numeral.ofLiteral seen.reverse) :: Scan.run .between rest := by
  have complete : phase.isComplete = true := by rcases whole with rfl | rfl <;> rfl
  cases ends with
  | endOfText => simp only [Scan.run, Scan.finish, complete, if_true]
  | @mark c rest isMark =>
      have ended : phase.next? c = none := by
        simp only [List.mem_cons, List.not_mem_nil, or_false] at isMark
        rcases whole with rfl | rfl <;> rcases isMark with rfl | rfl | rfl | rfl <;> decide
      have noDigit : isDigit c = false := by
        simp only [List.mem_cons, List.not_mem_nil, or_false] at isMark
        rcases isMark with rfl | rfl | rfl | rfl <;> decide
      simp only [Scan.run, Scan.step, ended, complete, noDigit]
      simp

/-- A number other than zero, from its first digit on. -/
theorem start_digit {digit : Nat} (positive : 0 < digit) (below : digit < 10) :
    Scan.start digit.digitChar = ([], .number .whole [digit.digitChar]) := by
  interval_cases digit <;> rfl

theorem run_natural (value : Nat) {rest : List Char} (ends : Ends rest) :
    Scan.run .between (Nat.toDigits 10 value ++ rest) =
      .number (Numeral.ofLiteral (Nat.toDigits 10 value)) :: Scan.run .between rest := by
  cases value with
  | zero => exact run_ended (.inr rfl) ['0'] ends
  | succ value =>
      obtain ⟨digit, digits, shape, positive, below, areDigits⟩ :=
        toDigits_shape (Nat.succ_pos value)
      rw [shape, List.cons_append, Scan.run, Scan.step, start_digit positive below]
      simp only [List.nil_append]
      rw [run_digits areDigits, run_ended (.inl rfl) _ ends, List.reverse_append,
        List.reverse_reverse]
      rfl

theorem run_negative {value : Nat} (positive : 0 < value) {rest : List Char} (ends : Ends rest) :
    Scan.run .between ('-' :: Nat.toDigits 10 value ++ rest) =
      .number (Numeral.ofLiteral ('-' :: Nat.toDigits 10 value)) :: Scan.run .between rest := by
  obtain ⟨digit, digits, shape, isPositive, below, areDigits⟩ := toDigits_shape positive
  have next : Phase.sign.next? digit.digitChar = some .whole := by
    interval_cases digit <;> rfl
  have begins : Scan.start '-' = ([], .number .sign ['-']) := rfl
  rw [shape, List.cons_append, List.cons_append, Scan.run, Scan.step, begins]
  simp only [List.nil_append]
  rw [Scan.run, Scan.step, next]
  simp only [List.nil_append]
  rw [run_digits areDigits, run_ended (.inl rfl) _ ends, List.reverse_append,
    List.reverse_reverse]
  rfl

theorem toList_toString (value : Int) :
    (toString value).toList = match value with
      | .ofNat value => Nat.toDigits 10 value
      | .negSucc value => '-' :: Nat.toDigits 10 (value + 1) := by
  cases value with
  | ofNat value => exact Nat.toList_repr
  | negSucc value =>
      change _ = '-' :: Nat.toDigits 10 (value + 1)
      rw [← Nat.toList_repr]
      exact String.toList_append

theorem run_integer (value : Int) {rest : List Char} (ends : Ends rest) :
    Scan.run .between ((toString value).toList ++ rest) =
      .number (Numeral.ofLiteral (toString value).toList) :: Scan.run .between rest := by
  rw [toList_toString]
  cases value with
  | ofNat value => exact run_natural value ends
  | negSucc value => exact run_negative (Nat.succ_pos value) ends

theorem digits_eq {digits : List Char} (areDigits : ∀ c ∈ digits, isDigit c = true) :
    Numeral.digits digits = digits.map digitValue ∧ digits.dropWhile isDigit = [] := by
  rw [Numeral.digits, List.takeWhile_eq_self_iff.mpr areDigits]
  exact ⟨rfl, List.dropWhile_eq_nil_iff.mpr areDigits⟩

theorem ofLiteral_digits {digits : List Char} (areDigits : ∀ c ∈ digits, isDigit c = true) :
    Numeral.ofLiteral digits = { negative := false, whole := digits.map digitValue } := by
  obtain ⟨whole, remaining⟩ := digits_eq areDigits
  have unsigned : ∀ rest, digits ≠ '-' :: rest := by
    rintro rest rfl
    exact absurd (areDigits '-' List.mem_cons_self) (by decide)
  cases digits with
  | nil => rfl
  | cons c rest =>
      simp [Numeral.ofLiteral, whole, remaining]

theorem ofLiteral_negative {digits : List Char} (areDigits : ∀ c ∈ digits, isDigit c = true) :
    Numeral.ofLiteral ('-' :: digits) = { negative := true, whole := digits.map digitValue } := by
  obtain ⟨whole, remaining⟩ := digits_eq areDigits
  simp [Numeral.ofLiteral, whole, remaining]

/-- An integer of 64 bits is the value of what is printed for it. -/
theorem number_ofLiteral {value : Int} (low : -2 ^ 63 ≤ value) (high : value < 2 ^ 64) :
    (Numeral.ofLiteral (toString value).toList).number = .ok (.integer value) := by
  rw [toList_toString]
  cases value with
  | ofNat value =>
      have within : value ≤ Numeral.largestWord := by
        rw [Int.ofNat_eq_natCast] at high
        simp only [Numeral.largestWord, UInt64.size]
        omega
      simp [ofLiteral_digits (isDigit_toDigits value), Numeral.number, Numeral.integer?,
        Numeral.ofDigits_toDigits, within]
  | negSucc value =>
      have within : value + 1 ≤ UInt64.size / 2 := by
        simp only [UInt64.size]
        omega
      simp [ofLiteral_negative (isDigit_toDigits (value + 1)), Numeral.number, Numeral.integer?,
        Numeral.ofDigits_toDigits, within]
      omega

end

section

/-! Strings. -/

theorem hexValue?_hexDigit {digit : Nat} (below : digit < 16) :
    hexValue? (hexDigit digit) = some digit := by
  interval_cases digit <;> rfl

theorem hasFourBytes_zeros (first second : Char) (rest : List Char) :
    hasFourBytes ('0' :: '0' :: first :: second :: rest) = true := by
  have one := first.utf8Size_pos
  have other := second.utf8Size_pos
  have zero : Char.utf8Size '0' = 1 := rfl
  simp only [hasFourBytes, List.take_succ_cons, List.take_zero, List.foldl_cons, List.foldl_nil, zero,
    decide_eq_true_eq]
  omega

theorem run_unit (seen : List Piece) {code : Nat} (below : code < 256) (rest : List Char) :
    Scan.run (.quoted seen) (['\\', 'u', '0', '0', hexDigit (code / 16), hexDigit (code % 16)] ++ rest) =
      Scan.run (.quoted (.unit code :: seen)) rest := by
  have high : hexValue? (hexDigit (code / 16)) = some (code / 16) := hexValue?_hexDigit (by omega)
  have low : hexValue? (hexDigit (code % 16)) = some (code % 16) := hexValue?_hexDigit (by omega)
  have zero : hexValue? '0' = some 0 := rfl
  have whole : code / 16 * 16 + code % 16 = code := by omega
  simp [Scan.run, Scan.step, hasFourBytes_zeros, high, low, zero, whole]

/-- A character is escaped by a letter, or by its number, or stands for itself. -/
theorem escapeChar_cases (c : Char) :
    (∃ letter, escapeChar c = ['\\', letter] ∧ letter ≠ 'u' ∧ escaped? letter = some c) ∨
      (c.toNat < 0x20 ∧ escapeChar c =
        ['\\', 'u', '0', '0', hexDigit (c.toNat / 16), hexDigit (c.toNat % 16)]) ∨
      (escapeChar c = [c] ∧ c ≠ '"' ∧ c ≠ '\\' ∧ ¬ c.toNat < 0x20) := by
  unfold escapeChar
  split_ifs with quote backslash backspace formFeed newLine carriage tab control
  · exact .inl ⟨'"', rfl, by decide, by rw [quote]; rfl⟩
  · exact .inl ⟨'\\', rfl, by decide, by rw [backslash]; rfl⟩
  · exact .inl ⟨'b', rfl, by decide, backspace ▸ rfl⟩
  · exact .inl ⟨'f', rfl, by decide, formFeed ▸ rfl⟩
  · exact .inl ⟨'n', rfl, by decide, newLine ▸ rfl⟩
  · exact .inl ⟨'r', rfl, by decide, carriage ▸ rfl⟩
  · exact .inl ⟨'t', rfl, by decide, tab ▸ rfl⟩
  · exact .inr (.inl ⟨control, rfl⟩)
  · exact .inr (.inr ⟨rfl, quote, backslash, control⟩)

theorem run_escapeChar (seen : List Piece) (c : Char) (rest : List Char) :
    Scan.run (.quoted seen) (escapeChar c ++ rest) =
      Scan.run (.quoted (pieceOf c :: seen)) rest := by
  rcases escapeChar_cases c with ⟨letter, escapes, notUnit, isLetter⟩ | ⟨control, escapes⟩ |
    ⟨plain, notQuote, notBackslash, printable⟩
  · simp [pieceOf, escapes, Scan.run, Scan.step, notUnit, isLetter]
  · have piece : pieceOf c = .unit c.toNat := by simp [pieceOf, escapes]
    rw [escapes, piece]
    exact run_unit seen (Nat.lt_trans control (by decide)) rest
  · simp [pieceOf, plain, Scan.run, Scan.step, notQuote, notBackslash, printable]

theorem run_escaped (seen : List Piece) (text : List Char) (rest : List Char) :
    Scan.run (.quoted seen) (text.flatMap escapeChar ++ '"' :: rest) =
      .quoted { pieces := seen.reverse ++ text.map pieceOf, ending := .closed } ::
        Scan.run .between rest := by
  induction text generalizing seen with
  | nil => simp [Scan.run, Scan.step]
  | cons c text ih =>
      rw [List.flatMap_cons, List.append_assoc, run_escapeChar, ih]
      simp

theorem run_quote (text : String) (rest : List Char) :
    Scan.run .between (quote text ++ rest) =
      .quoted (.ofText text) :: Scan.run .between rest := by
  have whole := run_escaped [] text.toList rest
  simp only [quote, List.cons_append, List.append_assoc]
  exact whole

/-- A unit below U+0020 is a character by itself. -/
theorem chars_control {code : Nat} (control : code < 0x20) (ending : QuotedEnding)
    (rest : List Piece) :
    Quoted.chars ending (.unit code :: rest) =
      (Char.ofNat code :: ·) <$> Quoted.chars ending rest := by
  have notTrailing : Quoted.isTrailingSurrogate code = false := by
    simp only [Quoted.isTrailingSurrogate, Bool.and_eq_false_iff, decide_eq_false_iff_not]
    omega
  have notLeading : Quoted.isLeadingSurrogate code = false := by
    simp only [Quoted.isLeadingSurrogate, Bool.and_eq_false_iff, decide_eq_false_iff_not]
    omega
  rcases rest with _ | ⟨c | trailing, rest⟩ <;> simp [Quoted.chars, notTrailing, notLeading]

theorem chars_pieceOf (text : List Char) :
    Quoted.chars .closed (text.map pieceOf) = .ok text := by
  induction text with
  | nil => rfl
  | cons c text ih =>
      rw [List.map_cons]
      rcases escapeChar_cases c with ⟨letter, escapes, _⟩ | ⟨control, escapes⟩ | ⟨plain, _⟩
      · simp [pieceOf, escapes, Quoted.chars, ih]
      · have piece : pieceOf c = .unit c.toNat := by simp [pieceOf, escapes]
        rw [piece, chars_control control, ih, Char.ofNat_toNat]
        rfl
      · simp [pieceOf, plain, Quoted.chars, ih]

theorem text_ofText (text : String) : (Quoted.ofText text).text = .ok text := by
  simp only [Quoted.ofText, Quoted.text, chars_pieceOf]
  exact congrArg Except.ok String.ofList_toList

end

section

/-! Whole values. -/

open Reading Unclosed

/-- Reading on from a state. -/
def feed (state : Reading) (chars : List Char) : Reading :=
  (tokens chars).foldl step state

theorem feed_of_run (token : Token) {chars rest : List Char}
    (runs : Scan.run .between chars = token :: Scan.run .between rest) (state : Reading) :
    feed state chars = feed (state.step token) rest := by
  rw [feed, tokens, runs]
  rfl

theorem feed_quote (state : Reading) (text : String) (rest : List Char) :
    feed state (quote text ++ rest) = feed (state.step (.quoted (.ofText text))) rest :=
  feed_of_run _ (run_quote text rest) state

/-- A value may begin here, inside these containers. -/
def Expects (state : Reading) (around : List Unclosed) : Prop :=
  ∀ token, token ≠ .closeBracket → state.step token = begin around token

/-- A key may stand here. -/
def ExpectsKey (state : Reading) (before : List (Quoted × Node)) (outer : List Unclosed) : Prop :=
  ∀ key, state.step (.quoted key) = readKey before key outer

theorem expects_value (around : List Unclosed) : Expects (.expectingValue around) around :=
  fun _ _ => rfl

theorem expects_first (outer : List Unclosed) : Expects (.firstElement outer) (.array [] :: outer) := by
  intro token notClosing
  cases token <;> first | rfl | exact absurd rfl notClosing

theorem expects_next (before : List Node) (outer : List Unclosed) :
    Expects (.nextElement before outer) (.array before :: outer) := by
  intro token notClosing
  cases token <;> first | rfl | exact absurd rfl notClosing

theorem not_tooDeep {outer : List Unclosed} (below : outer.length < nestingLimit) :
    isTooDeep outer = false := by
  simp only [isTooDeep, List.length_take, decide_eq_false_iff_not]
  omega

theorem feed_begin (token : Token) {chars rest : List Char} {state : Reading}
    {around : List Unclosed} (runs : Scan.run .between chars = token :: Scan.run .between rest)
    (expects : Expects state around) (opens : token ≠ .closeBracket) :
    feed state chars = feed (begin around token) rest := by
  rw [feed_of_run token runs, expects token opens]

theorem feed_key {state : Reading} {before : List (Quoted × Node)} {outer : List Unclosed}
    (expects : ExpectsKey state before outer) (name : String) (rest : List Char) :
    feed state (quote name ++ ':' :: rest) =
      feed (.expectingValue (.object before (.ofText name) :: outer)) rest := by
  rw [feed_quote, expects]
  exact feed_of_run .colon rfl _

mutual

theorem feed_value : (json : Json) → {depth : Nat} → Legible depth json → {state : Reading} →
    {around : List Unclosed} → Expects state around → depth + around.length ≤ nestingLimit →
    {rest : List Char} → Ends rest →
    feed state (json.compactChars ++ rest) = feed (completed json.node around) rest
  | .null, _, _, _, _, expects, _, _, _ => feed_begin .null rfl expects nofun
  | .bool true, _, _, _, _, expects, _, _, _ => feed_begin (.bool true) rfl expects nofun
  | .bool false, _, _, _, _, expects, _, _, _ => feed_begin (.bool false) rfl expects nofun
  | .number (.integer value), _, _, _, _, expects, _, _, ends =>
      feed_begin _ (run_integer value ends) expects nofun
  | .number (.float _), _, legible, _, _, _, _, _, _ => by cases legible
  | .string value, _, _, _, _, expects, _, rest, _ =>
      feed_begin _ (run_quote value rest) expects nofun
  | .array [], _, legible, _, around, expects, within, rest, _ => by
      cases legible
      have shallow : isTooDeep around = false := not_tooDeep (by omega)
      refine (feed_begin .openBracket rfl expects nofun).trans ?_
      refine (feed_of_run .closeBracket rfl _).trans ?_
      rw [begin, step, arrayNode, shallow]
      rfl
  | .array (first :: others), _, legible, state, around, expects, within, rest, _ => by
      cases legible with
      | array each =>
          have shallow : isTooDeep around = false := not_tooDeep (by omega)
          have inside := feed_elements (first :: others) (List.cons_ne_nil _ _) each
            (expects_first around) (by omega) rest
          rw [arrayNode, shallow] at inside
          have printed : compactChars (.array (first :: others)) ++ rest =
              '[' :: (compactElements (first :: others) ++ ']' :: rest) := by
            simp [compactChars]
          rw [printed, feed_begin .openBracket rfl expects nofun]
          exact inside
  | .object [], _, legible, _, around, expects, within, rest, _ => by
      cases legible
      have shallow : isTooDeep around = false := not_tooDeep (by omega)
      refine (feed_begin .openBrace rfl expects nofun).trans ?_
      refine (feed_of_run .closeBrace rfl _).trans ?_
      rw [begin, step, objectNode, shallow]
      rfl
  | .object (first :: others), _, legible, state, around, expects, within, rest, _ => by
      cases legible with
      | object each =>
          have shallow : isTooDeep around = false := not_tooDeep (by omega)
          have keys : ExpectsKey (.firstKey around) [] around := fun _ => rfl
          have inside := feed_members (first :: others) (List.cons_ne_nil _ _) each keys (by omega)
            rest
          rw [objectNode, shallow] at inside
          have printed : compactChars (.object (first :: others)) ++ rest =
              '{' :: (compactMembers (first :: others) ++ '}' :: rest) := by
            simp [compactChars]
          rw [printed, feed_begin .openBrace rfl expects nofun]
          exact inside

theorem feed_elements : (elements : List Json) → elements ≠ [] → {depth : Nat} →
    (∀ element ∈ elements, Legible depth element) → {state : Reading} → {before : List Node} →
    {outer : List Unclosed} → Expects state (.array before :: outer) →
    depth + outer.length < nestingLimit → (rest : List Char) →
    feed state (compactElements elements ++ ']' :: rest) =
      feed (completed (arrayNode outer before (elementNodes elements)) outer) rest
  | [], never, _, _, _, _, _, _, _, _ => absurd rfl never
  | [last], _, _, each, _, before, outer, expects, within, rest => by
      rw [compactElements, feed_value last (each last List.mem_cons_self) expects
        (by rw [List.length_cons]; omega) (.mark rest (by decide)), completed,
        feed_of_run .closeBracket rfl]
      rfl
  | first :: second :: others, _, _, each, _, before, outer, expects, within, rest => by
      obtain ⟨isFirst, each⟩ := List.forall_mem_cons.mp each
      have printed : compactElements (first :: second :: others) ++ ']' :: rest =
          first.compactChars ++ ',' :: (compactElements (second :: others) ++ ']' :: rest) := by
        simp [compactElements]
      rw [printed, feed_value first isFirst expects (by rw [List.length_cons]; omega)
        (.mark _ (by decide)), completed, feed_of_run .comma rfl, step,
        feed_elements (second :: others) (List.cons_ne_nil _ _) each
        (expects_next (first.node :: before) outer) within rest]
      rfl

theorem feed_members : (members : List (String × Json)) → members ≠ [] → {depth : Nat} →
    (∀ member ∈ members, Legible depth member.2) → {state : Reading} →
    {before : List (Quoted × Node)} → {outer : List Unclosed} → ExpectsKey state before outer →
    depth + outer.length < nestingLimit → (rest : List Char) →
    feed state (compactMembers members ++ '}' :: rest) =
      feed (completed (objectNode outer before (memberNodes members)) outer) rest
  | [], never, _, _, _, _, _, _, _, _ => absurd rfl never
  | [(name, last)], _, _, each, _, before, outer, expects, within, rest => by
      rw [compactMembers, List.append_assoc, List.cons_append, feed_key expects,
        feed_value last (each _ List.mem_cons_self) (expects_value _)
        (by rw [List.length_cons]; omega) (.mark rest (by decide)), completed,
        feed_of_run .closeBrace rfl]
      rfl
  | (name, first) :: second :: others, _, _, each, _, before, outer, expects, within, rest => by
      obtain ⟨isFirst, each⟩ := List.forall_mem_cons.mp each
      have printed : compactMembers ((name, first) :: second :: others) ++ '}' :: rest =
          quote name ++ ':' :: (first.compactChars ++ ',' ::
            (compactMembers (second :: others) ++ '}' :: rest)) := by
        simp [compactMembers]
      have keys : ExpectsKey (.nextKey ((.ofText name, first.node) :: before) outer)
          ((.ofText name, first.node) :: before) outer := fun _ => rfl
      rw [printed, feed_key expects, feed_value first isFirst (expects_value _)
        (by rw [List.length_cons]; omega) (.mark _ (by decide)), completed,
        feed_of_run .comma rfl, step, feed_members (second :: others)
        (List.cons_ne_nil _ _) each keys within rest]
      rfl

end

/-- A legible value is printed so that it is read as its tree. -/
theorem ofChars_compact {json : Json} (legible : Legible nestingLimit json) :
    Text.ofChars json.compactChars = { root := json.node, hasMore := false } := by
  have read := feed_value json legible (expects_value []) (Nat.le_refl _) .endOfText
  rw [List.append_nil] at read
  exact congrArg finish read

theorem decode_compact {json : Json} (legible : Legible nestingLimit json)
    (read : Node → Except Fault α) :
    (Text.ofChars json.compact.toList).decode read = read json.node := by
  rw [compact, String.toList_ofList, ofChars_compact legible, Text.decode]
  cases read json.node <;> rfl

end

section

/-! Trees of values, read without a plan. -/

theorem Legible.mono {depth more : Nat} {json : Json} (legible : Legible depth json)
    (le : depth ≤ more) : Legible more json := by
  induction legible generalizing more with
  | null => exact .null more
  | bool _ value => exact .bool more value
  | integer _ low high => exact .integer more low high
  | string _ value => exact .string more value
  | @array depth elements _ ih =>
      cases more with
      | zero => cases le
      | succ more => exact .array fun element member => ih element member (Nat.le_of_succ_le_succ le)
  | @object depth members _ ih =>
      cases more with
      | zero => cases le
      | succ more => exact .object fun entry member => ih entry member (Nat.le_of_succ_le_succ le)

mutual

theorem exists_value : (json : Json) → {depth : Nat} → Legible depth json →
    ∃ value, json.node.value = .ok value
  | .null, _, _ => ⟨.null, rfl⟩
  | .bool value, _, _ => ⟨.bool value, rfl⟩
  | .number (.integer value), _, .integer _ low high =>
      ⟨_, congrArg (Except.map Json.number) (number_ofLiteral low high)⟩
  | .string value, _, _ => ⟨_, congrArg (Except.map Json.string) (text_ofText value)⟩
  | .array elements, _, .array each => by
      obtain ⟨values, areValues⟩ := exists_values elements each
      exact ⟨_, congrArg (Except.map Json.array) areValues⟩
  | .object members, _, .object each => by
      obtain ⟨entries, areEntries⟩ := exists_entries members each
      exact ⟨_, congrArg (Except.map _) areEntries⟩

theorem exists_values : (elements : List Json) → {depth : Nat} →
    (∀ element ∈ elements, Legible depth element) →
    ∃ values, (elementNodes elements).values = .ok values
  | [], _, _ => ⟨[], rfl⟩
  | first :: rest, _, each => by
      obtain ⟨isFirst, each⟩ := List.forall_mem_cons.mp each
      obtain ⟨value, isValue⟩ := exists_value first isFirst
      obtain ⟨values, areValues⟩ := exists_values rest each
      exact ⟨value :: values, by rw [elementNodes, Elements.values, isValue, areValues]; rfl⟩

theorem exists_entries : (members : List (String × Json)) → {depth : Nat} →
    (∀ member ∈ members, Legible depth member.2) →
    ∃ entries, (memberNodes members).entries = .ok entries
  | [], _, _ => ⟨[], rfl⟩
  | (name, first) :: rest, _, each => by
      obtain ⟨isFirst, each⟩ := List.forall_mem_cons.mp each
      obtain ⟨value, isValue⟩ := exists_value first isFirst
      obtain ⟨entries, areEntries⟩ := exists_entries rest each
      refine ⟨(name, value) :: entries, ?_⟩
      rw [memberNodes, Members.entries, text_ofText, isValue, areEntries]
      rfl

end

mutual

/-- A value whose objects have different names is the value of its tree. -/
theorem value_node : (json : Json) → {depth : Nat} → Legible depth json → Distinct json →
    json.node.value = .ok json
  | .null, _, _, _ | .bool _, _, _, _ => rfl
  | .number (.integer value), _, .integer _ low high, _ =>
      congrArg (Except.map Json.number) (number_ofLiteral low high)
  | .string value, _, _, _ => congrArg (Except.map Json.string) (text_ofText value)
  | .array elements, _, .array each, .array distinct =>
      congrArg (Except.map Json.array) (values_elementNodes elements each distinct)
  | .object members, _, .object each, .object names distinct => by
      refine (congrArg (Except.map _) (entries_memberNodes members each distinct)).trans ?_
      rw [Except.map, Table.ofEntries_of_nodup names]

theorem values_elementNodes : (elements : List Json) → {depth : Nat} →
    (∀ element ∈ elements, Legible depth element) → (∀ element ∈ elements, Distinct element) →
    (elementNodes elements).values = .ok elements
  | [], _, _, _ => rfl
  | first :: rest, _, each, distinct => by
      obtain ⟨isFirst, each⟩ := List.forall_mem_cons.mp each
      obtain ⟨firstDistinct, distinct⟩ := List.forall_mem_cons.mp distinct
      rw [elementNodes, Elements.values, value_node first isFirst firstDistinct,
        values_elementNodes rest each distinct]
      rfl

theorem entries_memberNodes : (members : List (String × Json)) → {depth : Nat} →
    (∀ member ∈ members, Legible depth member.2) → (∀ member ∈ members, Distinct member.2) →
    (memberNodes members).entries = .ok members
  | [], _, _, _ => rfl
  | (name, first) :: rest, _, each, distinct => by
      obtain ⟨isFirst, each⟩ := List.forall_mem_cons.mp each
      obtain ⟨firstDistinct, distinct⟩ := List.forall_mem_cons.mp distinct
      rw [memberNodes, Members.entries, text_ofText, value_node first isFirst firstDistinct,
        entries_memberNodes rest each distinct]
      rfl

end

mutual

theorem skip_node : (json : Json) → json.node.skip = .ok ()
  | .null | .bool _ | .number _ | .string _ => rfl
  | .array elements => skip_elementNodes elements
  | .object members => skip_memberNodes members

theorem skip_elementNodes : (elements : List Json) → (elementNodes elements).skip = .ok ()
  | [] => rfl
  | first :: rest => by
      rw [elementNodes, Elements.skip, skip_node first, skip_elementNodes rest]
      rfl

theorem skip_memberNodes : (members : List (String × Json)) → (memberNodes members).skip = .ok ()
  | [] => rfl
  | (name, first) :: rest => by
      rw [memberNodes, Members.skip, skip_node first, skip_memberNodes rest]
      rfl

end

theorem names_of_entries {members entries : List (String × Json)}
    (areEntries : (memberNodes members).entries = .ok entries) :
    entries.map Prod.fst = members.map Prod.fst := by
  induction members generalizing entries with
  | nil => cases areEntries; rfl
  | cons member members ih =>
      rw [memberNodes, Members.entries, text_ofText] at areEntries
      obtain ⟨_, ⟨⟩, areEntries⟩ := Outcome.bind_eq_ok areEntries
      obtain ⟨value, _, areEntries⟩ := Outcome.bind_eq_ok areEntries
      obtain ⟨others, areOthers, same⟩ := Outcome.bind_eq_ok areEntries
      cases same
      rw [List.map_cons, List.map_cons, ih areOthers]

mutual

theorem unrepeated_node : (json : Json) → Distinct json → json.node.Unrepeated
  | .null, _ | .bool _, _ | .number _, _ | .string _, _ => trivial
  | .array elements, .array each => unrepeated_elementNodes elements each
  | .object members, .object names each =>
      ⟨fun _ areEntries => names_of_entries areEntries ▸ names,
        unrepeated_memberNodes members each⟩

theorem unrepeated_elementNodes : (elements : List Json) →
    (∀ element ∈ elements, Distinct element) → (elementNodes elements).Unrepeated
  | [], _ => trivial
  | first :: rest, each =>
      have ⟨isFirst, others⟩ := List.forall_mem_cons.mp each
      ⟨unrepeated_node first isFirst, unrepeated_elementNodes rest others⟩

theorem unrepeated_memberNodes : (members : List (String × Json)) →
    (∀ member ∈ members, Distinct member.2) → (memberNodes members).Unrepeated
  | [], _ => trivial
  | (_, first) :: rest, each =>
      have ⟨isFirst, others⟩ := List.forall_mem_cons.mp each
      ⟨unrepeated_node first isFirst, unrepeated_memberNodes rest others⟩

end

theorem isNull_node {json : Json} (present : json ≠ .null) : json.node.isNull = false := by
  cases json with
  | null => exact absurd rfl present
  | _ => rfl

end

end ApiLinker.Json
