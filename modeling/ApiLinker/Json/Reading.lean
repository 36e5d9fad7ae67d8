import ApiLinker.Json.Syntax

/-!
The three ways to read a syntax tree without a plan: for its value, to pass over it, and to say
what it is instead of what was wanted.

A value that is wanted must be sound throughout.  A value that is passed over may nest without
limit, may hold numbers that are too large and strings with unpaired surrogates, and its commas
are judged a little differently.
-/

namespace ApiLinker.Json

/-- The fault of a list that is wanted and ends like this. -/
def ListEnding.fault? : ListEnding → Option Fault
  | .closed => none
  | .endOfText | .cutOff => some .endInList
  | .endAfterComma => some .endInValue
  | .closedAfterComma => some .trailingComma
  | .noComma => some .commaOrBracketExpected

/-- The fault of a list that is passed over and ends like this. -/
def ListEnding.skipFault? : ListEnding → Option Fault
  | .closed => none
  | .endOfText | .cutOff => some .endInList
  | .endAfterComma => some .endInValue
  | .closedAfterComma => some .valueExpected
  | .noComma => some .commaOrBracketExpected

/-- The fault of an object that is wanted and ends like this. -/
def ObjectEnding.fault? : ObjectEnding → Option Fault
  | .closed => none
  | .endOfText | .cutOff => some .endInObject
  | .endAfterComma => some .endInValue
  | .closedAfterComma => some .trailingComma
  | .noKeyAfterComma => some .keyExpected
  | .noComma => some .commaOrBraceExpected

/-- The fault of an object that is passed over and ends like this. -/
def ObjectEnding.skipFault? : ObjectEnding → Option Fault
  | .closed => none
  | .endOfText | .cutOff | .endAfterComma => some .endInObject
  | .closedAfterComma | .noKeyAfterComma => some .keyExpected
  | .noComma => some .commaOrBraceExpected

def Fault.check : Option Fault → Except Fault Unit
  | none => .ok ()
  | some fault => .error fault

def Fault.ofBrokenWord (atEnd : Bool) : Fault :=
  if atEnd then .endInValue else .wordExpected

def Fault.ofBrokenNumber (atEnd : Bool) : Fault :=
  if atEnd then .endInValue else .invalidNumber

mutual

/-- The value of a tree; of members with one name the last counts, at the place of the first. -/
def Node.value : Node → Except Fault Json
  | .absent fault => .error fault
  | .brokenWord atEnd => .error (.ofBrokenWord atEnd)
  | .brokenNumber atEnd => .error (.ofBrokenNumber atEnd)
  | .null => .ok .null
  | .bool value => .ok (.bool value)
  | .number numeral => .number <$> numeral.number
  | .quoted literal => .string <$> literal.text
  | .array tooDeep elements =>
      if tooDeep then .error .tooDeep else .array <$> elements.values
  | .object tooDeep members =>
      if tooDeep then .error .tooDeep
      else (fun entries => .object (Table.ofEntries entries)) <$> members.entries

def Elements.values : Elements → Except Fault (List Json)
  | .stop ending => do
      Fault.check ending.fault?
      return []
  | .item value rest => do
      let first ← value.value
      return first :: (← rest.values)

def Members.entries : Members → Except Fault (List (String × Json))
  | .stop ending => do
      Fault.check ending.fault?
      return []
  | .noFirstKey => .error .keyExpected
  | .member key value rest => do
      let name ← key.text
      let first ← value.value
      return (name, first) :: (← rest.entries)

end

mutual

def Node.skip : Node → Except Fault Unit
  | .absent fault => .error fault
  | .brokenWord atEnd => .error (.ofBrokenWord atEnd)
  | .brokenNumber _ => .error .invalidNumber
  | .null | .bool _ | .number _ => .ok ()
  | .quoted literal => literal.skip
  | .array _ elements => elements.skip
  | .object _ members => members.skip

def Elements.skip : Elements → Except Fault Unit
  | .stop ending => Fault.check ending.skipFault?
  | .item value rest => do
      value.skip
      rest.skip

def Members.skip : Members → Except Fault Unit
  | .stop ending => Fault.check ending.skipFault?
  | .noFirstKey => .error .keyExpected
  | .member key value rest => do
      key.skip
      value.skip
      rest.skip

end

/-- The fault of a tree where something else was expected.  A container is not looked into. -/
def Node.mismatch (expected : Expected) : Node → Fault
  | .absent fault => fault
  | .brokenWord atEnd => .ofBrokenWord atEnd
  | .brokenNumber atEnd => .ofBrokenNumber atEnd
  | .null => .mismatch .null expected
  | .bool value => .mismatch (.bool value) expected
  | .number numeral =>
      match numeral.number with
      | .ok value => .mismatch (.number value) expected
      | .error fault => fault
  | .quoted literal =>
      match literal.text with
      | .ok value => .mismatch (.string value) expected
      | .error fault => fault
  | .array _ _ => .mismatch .sequence expected
  | .object _ _ => .mismatch .map expected

/-- Reads a whole text, after whose value nothing may follow. -/
def Text.decode (read : Node → Except Fault α) (text : Text) : Except Fault α := do
  let value ← read text.root
  if text.hasMore then throw .trailingCharacters
  return value

/-- The value of a text. -/
def parse (text : String) : Except Fault Json :=
  (Text.ofChars text.toList).decode Node.value

end ApiLinker.Json
