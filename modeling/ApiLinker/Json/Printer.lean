import ApiLinker.Json.FloatText
import ApiLinker.Json.Value

/-!
Printing JSON values, compactly or over several lines.

In a string, only the quote, the backslash and the characters below U+0020 are escaped.
-/

namespace ApiLinker.Json

def hexDigit (value : Nat) : Char :=
  Nat.digitChar value

def escapeChar (c : Char) : List Char :=
  if c = '"' then ['\\', '"']
  else if c = '\\' then ['\\', '\\']
  else if c = '\x08' then ['\\', 'b']
  else if c = '\x0c' then ['\\', 'f']
  else if c = '\n' then ['\\', 'n']
  else if c = '\r' then ['\\', 'r']
  else if c = '\t' then ['\\', 't']
  else if c.toNat < 0x20 then
    ['\\', 'u', '0', '0', hexDigit (c.toNat / 16), hexDigit (c.toNat % 16)]
  else [c]

def quote (text : String) : List Char :=
  '"' :: text.toList.flatMap escapeChar ++ ['"']

def Number.chars : Number → List Char
  | .integer value => (toString value).toList
  | .float value => (floatText value).toList

mutual

def compactChars : Json → List Char
  | .null => ['n', 'u', 'l', 'l']
  | .bool true => ['t', 'r', 'u', 'e']
  | .bool false => ['f', 'a', 'l', 's', 'e']
  | .number value => Number.chars value
  | .string value => quote value
  | .array elements => '[' :: compactElements elements ++ [']']
  | .object members => '{' :: compactMembers members ++ ['}']

def compactElements : List Json → List Char
  | [] => []
  | [last] => compactChars last
  | first :: rest => compactChars first ++ ',' :: compactElements rest

def compactMembers : List (String × Json) → List Char
  | [] => []
  | [(name, last)] => quote name ++ ':' :: compactChars last
  | (name, first) :: rest => quote name ++ ':' :: compactChars first ++ ',' :: compactMembers rest

end

def newLine (depth : Nat) : List Char :=
  '\n' :: List.replicate (2 * depth) ' '

mutual

/-- Each element and member stands on a line of its own, two spaces further in than its container.
-/
def prettyChars (depth : Nat) : Json → List Char
  | .null => compactChars .null
  | .bool value => compactChars (.bool value)
  | .number value => compactChars (.number value)
  | .string value => compactChars (.string value)
  | .array [] => ['[', ']']
  | .array (first :: rest) =>
      '[' :: prettyElements (depth + 1) (first :: rest) ++ newLine depth ++ [']']
  | .object [] => ['{', '}']
  | .object (first :: rest) =>
      '{' :: prettyMembers (depth + 1) (first :: rest) ++ newLine depth ++ ['}']

def prettyElements (depth : Nat) : List Json → List Char
  | [] => []
  | [last] => newLine depth ++ prettyChars depth last
  | first :: rest => newLine depth ++ prettyChars depth first ++ ',' :: prettyElements depth rest

def prettyMembers (depth : Nat) : List (String × Json) → List Char
  | [] => []
  | [(name, last)] => newLine depth ++ quote name ++ [':', ' '] ++ prettyChars depth last
  | (name, first) :: rest =>
      newLine depth ++ quote name ++ [':', ' '] ++ prettyChars depth first ++
        ',' :: prettyMembers depth rest

end

def compact (value : Json) : String :=
  String.ofList (compactChars value)

def pretty (value : Json) : String :=
  String.ofList (prettyChars 0 value)

end ApiLinker.Json
