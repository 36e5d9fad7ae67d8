import ApiLinker.Format.Codec

/-!
Records: structures that are written as objects, field by field.

A record may also be read from an array that holds its fields by position.  Members that are no
fields are passed over.  A field that is given twice, or is required and not given, is a fault.
-/

namespace ApiLinker

structure Field (σ ρ : Type) where
  name : String
  isRequired : Bool
  /-- Reads the field's value and says how a record takes it. -/
  read : Json.Node → Decoder σ (ρ → ρ)
  /-- The field's value, unless it is left out. -/
  write : ρ → Except WriteFault (Option Json)
  same : ρ → ρ → Bool

namespace Field

variable {σ ρ α : Type}

/-- A field whose value is left out where `omitted` says so. -/
def general (name : String) (isRequired : Bool) (omitted : α → Bool) (codec : Codec σ α)
    (get : ρ → α) (set : α → ρ → ρ) : Field σ ρ where
  name := name
  isRequired := isRequired
  read node := set <$> codec.read node
  write record := if omitted (get record) then .ok none else some <$> codec.write (get record)
  same left right := codec.same (get left) (get right)

def required (name : String) : Codec σ α → (ρ → α) → (α → ρ → ρ) → Field σ ρ :=
  general name true fun _ => false

/-- A field that may be missing when read but is always written. -/
def always (name : String) : Codec σ α → (ρ → α) → (α → ρ → ρ) → Field σ ρ :=
  general name false fun _ => false

def flag (name : String) : (ρ → Bool) → (Bool → ρ → ρ) → Field σ ρ :=
  general name false (!·) .bool

def list (name : String) (element : Codec σ α) : (ρ → List α) → (List α → ρ → ρ) → Field σ ρ :=
  general name false List.isEmpty (.list element)

def table (name : String) (value : Codec σ α) : (ρ → Table α) → (Table α → ρ → ρ) → Field σ ρ :=
  general name false List.isEmpty (.table value)

def readOptional (codec : Codec σ α) (node : Json.Node) : Decoder σ (Option α) :=
  if node.isNull then return none else some <$> codec.read node

/-- A field that is written where it has a value, and read as having none where it is `null`. -/
def optional (name : String) (codec : Codec σ α) (get : ρ → Option α) (set : Option α → ρ → ρ) :
    Field σ ρ where
  name := name
  isRequired := false
  read node := set <$> readOptional codec node
  write record := match get record with
    | none => .ok none
    | some value => some <$> codec.write value
  same left right := match get left, get right with
    | none, none => true
    | some left, some right => codec.same left right
    | _, _ => false

end Field

/-- The format of a record: `blank` is the record with no field given. -/
structure Record (σ ρ : Type) where
  name : String
  blank : ρ
  fields : List (Field σ ρ)

namespace Record

variable {σ ρ : Type}

def field? (format : Record σ ρ) (name : String) : Option (Field σ ρ) :=
  format.fields.find? fun field => field.name == name

def missing? (format : Record σ ρ) (given : List String) : Option (Field σ ρ) :=
  format.fields.find? fun field => field.isRequired && !given.contains field.name

def readMembers (format : Record σ ρ) (given : List String) (record : ρ) :
    Json.Members → Decoder σ ρ
  | .stop ending => do
      Json.Fault.check ending.fault?
      match format.missing? given with
      | some field => throw (.missingField field.name)
      | none => return record
  | .noFirstKey => throw .keyExpected
  | .member key value rest => do
      let name ← key.text
      match format.field? name with
      | none =>
          value.skip
          readMembers format given record rest
      | some field =>
          if given.contains name then throw (.duplicateField name)
          let set ← field.read value
          readMembers format (name :: given) (set record) rest

def surplusFault? : Json.ListEnding → Option Json.Fault
  | .closed => none
  | .endOfText | .cutOff => some .endInList
  | .closedAfterComma => some .trailingComma
  | .endAfterComma | .noComma => some .trailingCharacters

/-- Reads fields by position.  The first of `fields` has the position `index`. -/
def readElements (format : Record σ ρ) :
    (index : Nat) → (fields : List (Field σ ρ)) → (record : ρ) → Json.Elements → Decoder σ ρ
  | _, [], record, .stop ending => do
      Json.Fault.check (surplusFault? ending)
      return record
  | _, [], _, .item _ _ => throw .trailingCharacters
  | index, field :: fields, record, .stop ending => do
      Json.Fault.check ending.fault?
      match (field :: fields).findIdx? (·.isRequired) with
      | some skipped =>
          throw (.missingElement (index + skipped) format.name format.fields.length)
      | none => return record
  | index, field :: fields, record, .item value rest => do
      let set ← field.read value
      readElements format (index + 1) fields (set record) rest

def read (format : Record σ ρ) : Json.Node → Decoder σ ρ
  | .object tooDeep members => do
      Codec.refuseIf tooDeep
      format.readMembers [] format.blank members
  | .array tooDeep elements => do
      Codec.refuseIf tooDeep
      format.readElements 0 format.fields format.blank elements
  | other => throw (other.mismatch (.record format.name))

def writeFields (record : ρ) : List (Field σ ρ) → Except WriteFault (List (String × Json))
  | [] => .ok []
  | field :: fields => do
      let value ← field.write record
      let rest ← writeFields record fields
      return match value with
        | none => rest
        | some value => (field.name, value) :: rest

def codec (format : Record σ ρ) : Codec σ ρ where
  read := format.read
  write record := .object <$> writeFields record format.fields
  same left right := format.fields.all fun field => field.same left right

end Record

end ApiLinker
