import ApiLinker.Json.Value
import ApiLinker.Json.FloatText
import ApiLinker.Quotation.Text

/-!
What can be wrong with a JSON text.

A fault is either one of the text, which is then no JSON, or one of the data, which are then not
what the reader asked for.  `Fault.message` words it.
-/

namespace ApiLinker.Json

inductive Expected where
  | string
  | boolean
  | unsigned32
  | unit
  | sequence
  | map
  | record (name : String)
deriving DecidableEq, Repr

def Expected.text : Expected → String
  | .string => "a string"
  | .boolean => "a boolean"
  | .unsigned32 => "u32"
  | .unit => "unit"
  | .sequence => "a sequence"
  | .map => "a map"
  | .record name => "struct " ++ name

inductive Found where
  | null
  | bool (value : Bool)
  | number (value : Number)
  | string (value : String)
  | sequence
  | map
deriving DecidableEq, Repr

def Found.text : Found → String
  | .null => "null"
  | .bool value => "boolean `" ++ toString value ++ "`"
  | .number (.integer value) => "integer `" ++ toString value ++ "`"
  | .number (.float value) => "floating point `" ++ floatText value ++ "`"
  | .string value => "string " ++ Quotation.text value
  | .sequence => "sequence"
  | .map => "map"

inductive Fault where
  | endInValue
  | endInObject
  | endInList
  | endInString
  | valueExpected
  | wordExpected
  | colonExpected
  | commaOrBraceExpected
  | commaOrBracketExpected
  | keyExpected
  | trailingComma
  | trailingCharacters
  | invalidNumber
  | numberOutOfRange
  | invalidEscape
  | loneSurrogate
  | unpairedSurrogate
  | controlCharacter
  | tooDeep
  | mismatch (found : Found) (expected : Expected)
  | outOfRange (found : Int) (expected : Expected)
  | missingField (name : String)
  | duplicateField (name : String)
  | unknownVariant (name : String) (known : List String)
  | missingElement (count : Nat) (record : String) (size : Nat)
  | noAlternative (choice : String)
deriving DecidableEq, Repr

def Fault.message : Fault → String
  | .endInValue => "EOF while parsing a value"
  | .endInObject => "EOF while parsing an object"
  | .endInList => "EOF while parsing a list"
  | .endInString => "EOF while parsing a string"
  | .valueExpected => "expected value"
  | .wordExpected => "expected ident"
  | .colonExpected => "expected `:`"
  | .commaOrBraceExpected => "expected `,` or `\x7d`"
  | .commaOrBracketExpected => "expected `,` or `]`"
  | .keyExpected => "key must be a string"
  | .trailingComma => "trailing comma"
  | .trailingCharacters => "trailing characters"
  | .invalidNumber => "invalid number"
  | .numberOutOfRange => "number out of range"
  | .invalidEscape => "invalid escape"
  | .loneSurrogate => "lone leading surrogate in hex escape"
  | .unpairedSurrogate => "unexpected end of hex escape"
  | .controlCharacter => "control character (\\u0000-\\u001F) found while parsing a string"
  | .tooDeep => "recursion limit exceeded"
  | .mismatch found expected =>
      "invalid type: " ++ found.text ++ ", expected " ++ expected.text
  | .outOfRange found expected =>
      "invalid value: integer `" ++ toString found ++ "`, expected " ++ expected.text
  | .missingField name => "missing field `" ++ name ++ "`"
  | .duplicateField name => "duplicate field `" ++ name ++ "`"
  | .unknownVariant name known =>
      "unknown variant `" ++ name ++ "`, expected one of " ++
        ", ".intercalate (known.map fun variant => "`" ++ variant ++ "`")
  | .missingElement count record size =>
      "invalid length " ++ toString count ++ ", expected struct " ++ record ++ " with " ++
        toString size ++ (if size = 1 then " element" else " elements")
  | .noAlternative choice => "data did not match any variant of untagged enum " ++ choice

end ApiLinker.Json
