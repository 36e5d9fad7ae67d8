/-!
Pointer text: a path of segments written after `#`, each with a slash in front.

A segment may hold any character, so `~` and `/` are escaped inside it.  `ofSegments` writes a path
and `pieces` splits a written one again.
-/

namespace ApiLinker.Pointer

def escapeChar : Char → List Char
  | '~' => ['~', '0']
  | '/' => ['~', '1']
  | c => [c]

def escapeChars (segment : List Char) : List Char :=
  segment.flatMap escapeChar

/-- A tilde that starts no escape stands for itself. -/
def unescapeChars : List Char → List Char
  | '~' :: '1' :: rest => '/' :: unescapeChars rest
  | '~' :: '0' :: rest => '~' :: unescapeChars rest
  | c :: rest => c :: unescapeChars rest
  | [] => []

def escape (segment : String) : String :=
  String.ofList (escapeChars segment.toList)

def unescape (segment : String) : String :=
  String.ofList (unescapeChars segment.toList)

/-- The pieces between slashes, of which there is always at least one. -/
def splitSlashes : List Char → List (List Char)
  | [] => [[]]
  | c :: rest =>
      if c = '/' then [] :: splitSlashes rest
      else match splitSlashes rest with
        | [] => [[c]]
        | piece :: pieces => (c :: piece) :: pieces

/-- The pieces of a path, still escaped.  One slash in front of the path separates nothing. -/
def pieces : List Char → List (List Char)
  | '/' :: path => splitSlashes path
  | path => splitSlashes path

/-- The text after which a pointer goes on: each segment escaped, with a slash in front. -/
def extendWith (segments : List String) : String :=
  String.join (segments.map fun segment => "/" ++ escape segment)

def ofSegments (segments : List String) : String :=
  "#" ++ extendWith segments

/-- The part of `text` before the first `#` and, if there is one, the part after it. -/
def splitFragment (text : List Char) : List Char × Option (List Char) :=
  match text.dropWhile (· != '#') with
  | [] => (text, none)
  | _ :: fragment => (text.takeWhile (· != '#'), some fragment)

end ApiLinker.Pointer
