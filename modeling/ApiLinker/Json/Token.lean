import ApiLinker.Json.Numeral
import ApiLinker.Json.Quoted

/-!
Tokens: the words, numbers, strings and marks of a JSON text.

`tokens` reads a text once from left to right.  A text that breaks off inside a token, or has a
token that cannot be completed, ends with that token; nothing after it can matter.
-/

namespace ApiLinker.Json

inductive Token where
  | openBrace
  | closeBrace
  | openBracket
  | closeBracket
  | colon
  | comma
  | null
  | bool (value : Bool)
  | brokenWord (atEnd : Bool)
  | number (numeral : Numeral)
  | brokenNumber (atEnd : Bool)
  | quoted (literal : Quoted)
  /-- A character with which nothing begins. -/
  | stray
deriving DecidableEq, Repr

/-- Where a scan stands. -/
inductive Scan where
  | between
  /-- Inside a word, with what is still to come. -/
  | word (left : List Char) (token : Token)
  /-- Inside a number, whose characters so far are held last first. -/
  | number (phase : Phase) (seen : List Char)
  /-- Inside a string, whose pieces so far are held last first. -/
  | quoted (seen : List Piece)
  | escape (seen : List Piece)
  | unit (seen : List Piece) (left : Nat) (code : Nat)
  | finished

def isBlank (c : Char) : Bool :=
  c == ' ' || c == '\n' || c == '\t' || c == '\r'

def hexValue? (c : Char) : Option Nat :=
  if isDigit c then some (digitValue c)
  else if 'a' ≤ c ∧ c ≤ 'f' then some (c.toNat - 'a'.toNat + 10)
  else if 'A' ≤ c ∧ c ≤ 'F' then some (c.toNat - 'A'.toNat + 10)
  else none

def escaped? (c : Char) : Option Char :=
  match c with
  | '"' => some '"'
  | '\\' => some '\\'
  | '/' => some '/'
  | 'b' => some '\x08'
  | 'f' => some '\x0c'
  | 'n' => some '\n'
  | 'r' => some '\r'
  | 't' => some '\t'
  | _ => none

/-- Whether the rest of a text is at least four bytes long. -/
def hasFourBytes (rest : List Char) : Bool :=
  4 ≤ (rest.take 4).foldl (fun size c => size + c.utf8Size) 0

namespace Scan

/-- What a character outside of every token gives and begins. -/
def start (c : Char) : List Token × Scan :=
  if isBlank c then ([], .between)
  else match c with
    | '{' => ([.openBrace], .between)
    | '}' => ([.closeBrace], .between)
    | '[' => ([.openBracket], .between)
    | ']' => ([.closeBracket], .between)
    | ':' => ([.colon], .between)
    | ',' => ([.comma], .between)
    | '"' => ([], .quoted [])
    | 'n' => ([], .word ['u', 'l', 'l'] .null)
    | 't' => ([], .word ['r', 'u', 'e'] (.bool true))
    | 'f' => ([], .word ['a', 'l', 's', 'e'] (.bool false))
    | '-' => ([], .number .sign [c])
    | '0' => ([], .number .leadingZero [c])
    | c => if isDigit c then ([], .number .whole [c]) else ([.stray], .between)

def broken (seen : List Piece) (ending : QuotedEnding) : List Token × Scan :=
  ([.quoted ⟨seen.reverse, ending⟩], .finished)

/-- The tokens that the next character completes, and where the scan stands after it. -/
def step (rest : List Char) (c : Char) : Scan → List Token × Scan
  | .between => start c
  | .word [last] token =>
      if c = last then ([token], .between) else ([.brokenWord false], .finished)
  | .word (next :: left) token =>
      if c = next then ([], .word left token) else ([.brokenWord false], .finished)
  | .word [] token => ([token], .between)
  | .number phase seen =>
      match phase.next? c with
      | some next => ([], .number next (c :: seen))
      | none =>
          if phase.isComplete && !(phase == .leadingZero && isDigit c) then
            let (tokens, scan) := start c
            (.number (Numeral.ofLiteral seen.reverse) :: tokens, scan)
          else ([.brokenNumber false], .finished)
  | .quoted seen =>
      if c = '"' then ([.quoted ⟨seen.reverse, .closed⟩], .between)
      else if c = '\\' then ([], .escape seen)
      else if c.toNat < 0x20 then broken seen .controlCharacter
      else ([], .quoted (.char c :: seen))
  | .escape seen =>
      if c = 'u' then
        if hasFourBytes rest then ([], .unit seen 4 0) else broken seen .endOfText
      else match escaped? c with
        | some character => ([], .quoted (.char character :: seen))
        | none => broken seen .invalidEscape
  | .unit seen left code =>
      match hexValue? c with
      | none => broken seen .invalidUnit
      | some digit =>
          if left ≤ 1 then ([], .quoted (.unit (code * 16 + digit) :: seen))
          else ([], .unit seen (left - 1) (code * 16 + digit))
  | .finished => ([], .finished)

/-- The token that is cut off by the end of the text. -/
def finish : Scan → List Token
  | .between | .finished => []
  | .word _ _ => [.brokenWord true]
  | .number phase seen =>
      if phase.isComplete then [.number (Numeral.ofLiteral seen.reverse)] else [.brokenNumber true]
  | .quoted seen | .escape seen | .unit seen _ _ => [.quoted ⟨seen.reverse, .endOfText⟩]

def run : Scan → List Char → List Token
  | scan, [] => scan.finish
  | scan, c :: rest =>
      let (tokens, next) := scan.step rest c
      tokens ++ run next rest

end Scan

def tokens (text : List Char) : List Token :=
  Scan.run .between text

end ApiLinker.Json
