import ApiLinker.Json.Token

/-!
The syntax tree of a JSON text, whole or broken off.

A text is read once into a tree before anything is asked of it.  Where the text goes wrong the tree
ends: the list or object under way gets an ending that says what is missing, and every container
around it is cut off.  Whoever walks the tree in the order of the text meets that place only after
everything in front of it, so that the first fault of a text is found whether it is one of the text
or one of the data.
-/

namespace ApiLinker.Json

/-- What stands after the last element of a list. -/
inductive ListEnding where
  | closed
  | endOfText
  | endAfterComma
  | closedAfterComma
  | noComma
  /-- The last element is itself broken off. -/
  | cutOff
deriving DecidableEq, Repr

/-- What stands after the last member of an object. -/
inductive ObjectEnding where
  | closed
  | endOfText
  | endAfterComma
  | closedAfterComma
  | noKeyAfterComma
  | noComma
  | cutOff
deriving DecidableEq, Repr

mutual

inductive Node where
  /-- No value stands here. -/
  | absent (fault : Fault)
  | brokenWord (atEnd : Bool)
  | brokenNumber (atEnd : Bool)
  | null
  | bool (value : Bool)
  | number (numeral : Numeral)
  | quoted (literal : Quoted)
  | array (tooDeep : Bool) (elements : Elements)
  | object (tooDeep : Bool) (members : Members)

inductive Elements where
  | stop (ending : ListEnding)
  | item (value : Node) (rest : Elements)

inductive Members where
  | stop (ending : ObjectEnding)
  /-- The object begins with something other than a string. -/
  | noFirstKey
  | member (key : Quoted) (value : Node) (rest : Members)

end

def Node.isNull : Node → Bool
  | .null => true
  | _ => false

/-- A whole text: its value, and whether more follows after it. -/
structure Text where
  root : Node
  hasMore : Bool

/-- A container that is being read, with its complete contents so far held last first. -/
inductive Unclosed where
  | array (before : List Node)
  | object (before : List (Quoted × Node)) (key : Quoted)

/-- The number of containers that may stand around each other. -/
def nestingLimit : Nat := 127

namespace Unclosed

/-- Whether a container in these is one too many.  No more than the limit are counted. -/
def isTooDeep (outer : List Unclosed) : Bool :=
  (outer.take nestingLimit).length = nestingLimit

def arrayNode (outer : List Unclosed) (before : List Node) (tail : Elements) : Node :=
  .array (isTooDeep outer) (before.foldl (fun rest value => .item value rest) tail)

def objectNode (outer : List Unclosed) (before : List (Quoted × Node)) (tail : Members) : Node :=
  .object (isTooDeep outer) (before.foldl (fun rest entry => .member entry.1 entry.2 rest) tail)

/-- The whole tree of a text that breaks off in `node`. -/
def breakOff (node : Node) : List Unclosed → Node
  | [] => node
  | .array before :: outer =>
      breakOff (arrayNode outer before (.item node (.stop .cutOff))) outer
  | .object before key :: outer =>
      breakOff (objectNode outer before (.member key node (.stop .cutOff))) outer

end Unclosed

/-- How far a text has been read.  The containers around the place are held innermost first. -/
inductive Reading where
  | expectingValue (around : List Unclosed)
  | firstElement (outer : List Unclosed)
  | nextElement (before : List Node) (outer : List Unclosed)
  | afterElement (before : List Node) (outer : List Unclosed)
  | firstKey (outer : List Unclosed)
  | nextKey (before : List (Quoted × Node)) (outer : List Unclosed)
  | afterKey (before : List (Quoted × Node)) (key : Quoted) (outer : List Unclosed)
  | afterMember (before : List (Quoted × Node)) (outer : List Unclosed)
  | complete (root : Node)
  | finished (text : Text)

namespace Reading

open Unclosed

def broken (node : Node) (around : List Unclosed) : Reading :=
  .finished { root := breakOff node around, hasMore := false }

/-- Goes on after a complete value. -/
def completed (node : Node) : List Unclosed → Reading
  | [] => .complete node
  | .array before :: outer => .afterElement (node :: before) outer
  | .object before key :: outer => .afterMember ((key, node) :: before) outer

/-- Reads the first token of a value. -/
def begin (around : List Unclosed) : Token → Reading
  | .null => completed .null around
  | .bool value => completed (.bool value) around
  | .number numeral => completed (.number numeral) around
  | .quoted literal =>
      if literal.ending = .closed then completed (.quoted literal) around
      else broken (.quoted literal) around
  | .openBracket => .firstElement around
  | .openBrace => .firstKey around
  | .brokenWord atEnd => broken (.brokenWord atEnd) around
  | .brokenNumber atEnd => broken (.brokenNumber atEnd) around
  | .closeBracket | .closeBrace | .colon | .comma | .stray =>
      broken (.absent .valueExpected) around

def readKey (before : List (Quoted × Node)) (key : Quoted) (outer : List Unclosed) : Reading :=
  if key.ending = .closed then .afterKey before key outer
  else broken (objectNode outer before (.member key (.absent .endInValue) (.stop .cutOff))) outer

def step : Reading → Token → Reading
  | .expectingValue around, token => begin around token
  | .firstElement outer, .closeBracket => completed (arrayNode outer [] (.stop .closed)) outer
  | .firstElement outer, token => begin (.array [] :: outer) token
  | .nextElement before outer, .closeBracket =>
      broken (arrayNode outer before (.stop .closedAfterComma)) outer
  | .nextElement before outer, token => begin (.array before :: outer) token
  | .afterElement before outer, .comma => .nextElement before outer
  | .afterElement before outer, .closeBracket =>
      completed (arrayNode outer before (.stop .closed)) outer
  | .afterElement before outer, _ => broken (arrayNode outer before (.stop .noComma)) outer
  | .firstKey outer, .closeBrace => completed (objectNode outer [] (.stop .closed)) outer
  | .firstKey outer, .quoted key => readKey [] key outer
  | .firstKey outer, _ => broken (objectNode outer [] .noFirstKey) outer
  | .nextKey before outer, .quoted key => readKey before key outer
  | .nextKey before outer, .closeBrace =>
      broken (objectNode outer before (.stop .closedAfterComma)) outer
  | .nextKey before outer, _ => broken (objectNode outer before (.stop .noKeyAfterComma)) outer
  | .afterKey before key outer, .colon => .expectingValue (.object before key :: outer)
  | .afterKey before key outer, _ =>
      broken (objectNode outer before (.member key (.absent .colonExpected) (.stop .cutOff))) outer
  | .afterMember before outer, .comma => .nextKey before outer
  | .afterMember before outer, .closeBrace =>
      completed (objectNode outer before (.stop .closed)) outer
  | .afterMember before outer, _ => broken (objectNode outer before (.stop .noComma)) outer
  | .complete root, _ => .finished { root, hasMore := true }
  | .finished text, _ => .finished text

/-- The tree of a text that ends here. -/
def finish : Reading → Text
  | .expectingValue around => { root := breakOff (.absent .endInValue) around, hasMore := false }
  | .firstElement outer =>
      { root := breakOff (arrayNode outer [] (.stop .endOfText)) outer, hasMore := false }
  | .nextElement before outer =>
      { root := breakOff (arrayNode outer before (.stop .endAfterComma)) outer, hasMore := false }
  | .afterElement before outer =>
      { root := breakOff (arrayNode outer before (.stop .endOfText)) outer, hasMore := false }
  | .firstKey outer =>
      { root := breakOff (objectNode outer [] (.stop .endOfText)) outer, hasMore := false }
  | .nextKey before outer =>
      { root := breakOff (objectNode outer before (.stop .endAfterComma)) outer, hasMore := false }
  | .afterKey before key outer =>
      let tail := .member key (.absent .endInObject) (.stop .cutOff)
      { root := breakOff (objectNode outer before tail) outer, hasMore := false }
  | .afterMember before outer =>
      { root := breakOff (objectNode outer before (.stop .endOfText)) outer, hasMore := false }
  | .complete root => { root, hasMore := false }
  | .finished text => text

end Reading

def Text.ofTokens (tokens : List Token) : Text :=
  (tokens.foldl Reading.step (.expectingValue [])).finish

def Text.ofChars (text : List Char) : Text :=
  ofTokens (tokens text)

end ApiLinker.Json
