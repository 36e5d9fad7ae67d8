import ApiLinker.Json.Reading

/-!
Codecs: how a type of values is read from a syntax tree, written as JSON, and compared.

Reading may build up a state of type `σ` beside the value.  Writing fails only for values that
have no written form.
-/

namespace ApiLinker

inductive WriteFault where
  | inlineSecurityKey
  | missingEntity
  | endlessNesting
deriving DecidableEq, Repr

def WriteFault.message : WriteFault → String
  | .inlineSecurityKey => "security requirement keys must name a security scheme"
  | .missingEntity => "an inline edge has no content"
  | .endlessNesting => "an entity contains itself"

abbrev Decoder (σ : Type) := StateT σ (Except Json.Fault)

structure Codec (σ α : Type) where
  read : Json.Node → Decoder σ α
  write : α → Except WriteFault Json
  same : α → α → Bool

namespace Codec

variable {σ α β : Type}

def refuseIf (tooDeep : Bool) : Decoder σ Unit :=
  if tooDeep then throw .tooDeep else pure ()

def readString : Json.Node → Decoder σ String
  | .quoted literal => literal.text
  | other => throw (other.mismatch .string)

def string : Codec σ String where
  read := readString
  write value := .ok (.string value)
  same left right := left == right

def readBool : Json.Node → Decoder σ Bool
  | .bool value => return value
  | other => throw (other.mismatch .boolean)

def bool : Codec σ Bool where
  read := readBool
  write value := .ok (.bool value)
  same left right := left == right

def readUnsigned32 : Json.Node → Decoder σ UInt32
  | .number numeral => do
      match ← numeral.number with
      | .integer value =>
          if 0 ≤ value ∧ value < UInt32.size then return UInt32.ofNat value.toNat
          else throw (.outOfRange value .unsigned32)
      | .float value => throw (.mismatch (.number (.float value)) .unsigned32)
  | other => throw (other.mismatch .unsigned32)

def unsigned32 : Codec σ UInt32 where
  read := readUnsigned32
  write value := .ok (.number (.integer value.toNat))
  same left right := left == right

def json : Codec σ Json where
  read node := node.value
  write value := .ok value
  same := Json.same

def readElements (read : Json.Node → Decoder σ α) : Json.Elements → Decoder σ (List α)
  | .stop ending => do
      Json.Fault.check ending.fault?
      return []
  | .item value rest => do
      let first ← read value
      return first :: (← readElements read rest)

def readList (read : Json.Node → Decoder σ α) : Json.Node → Decoder σ (List α)
  | .array tooDeep elements => do
      refuseIf tooDeep
      readElements read elements
  | other => throw (other.mismatch .sequence)

def sameList (same : α → α → Bool) : List α → List α → Bool
  | [], [] => true
  | left :: lefts, right :: rights => same left right && sameList same lefts rights
  | _, _ => false

def list (element : Codec σ α) : Codec σ (List α) where
  read := readList element.read
  write values := .array <$> values.mapM element.write
  same := sameList element.same

def readEntries (read : Json.Node → Decoder σ α) : Json.Members → Decoder σ (List (String × α))
  | .stop ending => do
      Json.Fault.check ending.fault?
      return []
  | .noFirstKey => throw .keyExpected
  | .member key value rest => do
      let name ← key.text
      let first ← read value
      return (name, first) :: (← readEntries read rest)

def readTable (read : Json.Node → Decoder σ α) : Json.Node → Decoder σ (Table α)
  | .object tooDeep members => do
      refuseIf tooDeep
      return Table.ofEntries (← readEntries read members)
  | other => throw (other.mismatch .map)

/-- Of entries with one name the last counts, at the place of the first. -/
def table (value : Codec σ α) : Codec σ (Table α) where
  read := readTable value.read
  write entries := .object <$> entries.mapM fun (name, entry) => return (name, ← value.write entry)
  same := Table.same value.same

/-- The same format for a type that is only named differently. -/
def wrap (wrapped : α → β) (unwrapped : β → α) (codec : Codec σ α) : Codec σ β where
  read node := wrapped <$> codec.read node
  write value := codec.write (unwrapped value)
  same left right := codec.same (unwrapped left) (unwrapped right)

section

variable (variants : List (String × α))

def readVariantName (name : String) : Except Json.Fault α :=
  match Table.find? name variants with
  | some variant => .ok variant
  | none => .error (.unknownVariant name (variants.map Prod.fst))

/-- Reads the `null` that stands after the name of a variant. -/
def readUnit : Json.Node → Except Json.Fault Unit
  | .null => .ok ()
  | other => .error (other.mismatch .unit)

/-- Reads a variant that is written as the only member of an object, with `null` for its value. -/
def readVariantMember : Json.Members → Except Json.Fault α
  | .stop .endOfText => .error .endInObject
  | .stop _ => .error .valueExpected
  | .noFirstKey => .error .keyExpected
  | .member key value rest => do
      let variant ← readVariantName variants (← key.text)
      readUnit value
      match rest with
      | .stop .closed => return variant
      | .stop .endOfText => throw .endInObject
      | _ => throw .valueExpected

def readVariant : Json.Node → Except Json.Fault α
  | .quoted literal => do readVariantName variants (← literal.text)
  | .object tooDeep members =>
      if tooDeep then .error .tooDeep else readVariantMember variants members
  | .absent fault => .error fault
  | _ => .error .valueExpected

def variant (name : α → String) (same : α → α → Bool) : Codec σ α where
  read node := readVariant variants node
  write value := .ok (.string (name value))
  same := same

end

end Codec

end ApiLinker
