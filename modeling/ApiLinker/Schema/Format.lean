import ApiLinker.Format.Codec
import ApiLinker.Schema.Basic

/-!
Schemas as JSON.

The members that hold sub-schemas, and the pointer, are written first and in a fixed order; the
other members follow as they are.  Reading accepts members in any order, `null` for a missing
schema, and gives each node that it reads a new number.
-/

namespace ApiLinker

namespace SchemaBody

def listMember (name : String) (json : σ → Json) : List σ → List (String × Json)
  | [] => []
  | children => [(name, .array (children.map json))]

def tableMember (name : String) (json : σ → Json) : Table σ → List (String × Json)
  | [] => []
  | children => [(name, .object (children.map fun (name, child) => (name, json child)))]

def members (json : σ → Json) (body : SchemaBody σ) : List (String × Json) :=
  body.reference.toList.map (fun target => ("$ref", .string target)) ++
    body.items.toList.map (fun child => ("items", json child)) ++
    listMember "allOf" json body.allOf ++
    listMember "anyOf" json body.anyOf ++
    listMember "oneOf" json body.oneOf ++
    body.not.toList.map (fun child => ("not", json child)) ++
    tableMember "properties" json body.properties ++
    (match body.additional with
      | .unspecified => []
      | .allowed value => [("additionalProperties", .bool value)]
      | .schema child => [("additionalProperties", json child)]) ++
    body.keywords

end SchemaBody

namespace Schema

def json : Schema → Json :=
  recurse fun _ body => .object (body.members fun child => child)

/-- Reading that counts the nodes it has given numbers to. -/
abbrev Numbering := Decoder Nat

def number (body : SchemaBody Schema) : Numbering Schema := do
  let next ← get
  set (next + 1)
  return .node next body

/-- Forgets why a choice between several forms failed. -/
def alternative (choice : String) (read : Numbering α) : Numbering α := fun next =>
  match read next with
  | .ok result => .ok result
  | .error _ => .error (.noAlternative choice)

def readPointer : Json.Node → Except Json.Fault (Option String)
  | .null => .ok none
  | .quoted literal => some <$> literal.text
  | other => .error (other.mismatch .string)

mutual

def read : Json.Node → Numbering Schema
  | .object tooDeep members => do
      Codec.refuseIf tooDeep
      number (← readMembers [] {} members)
  | other => throw (other.mismatch (.record "SchemaNode"))

/-- Reads the members of a node.  `seen` are the structural members read so far. -/
def readMembers (seen : List String) (body : SchemaBody Schema) :
    Json.Members → Numbering (SchemaBody Schema)
  | .stop ending => do
      Json.Fault.check ending.fault?
      return body
  | .noFirstKey => throw .keyExpected
  | .member key value rest => do
      let name ← key.text
      if seen.contains name then throw (.duplicateField name)
      match name with
      | "$ref" =>
          let reference ← readPointer value
          readMembers (name :: seen) { body with reference } rest
      | "items" =>
          let items ← if value.isNull then pure none else some <$> read value
          readMembers (name :: seen) { body with items } rest
      | "not" =>
          let not ← if value.isNull then pure none else some <$> read value
          readMembers (name :: seen) { body with not } rest
      | "allOf" =>
          let allOf ← readList value
          readMembers (name :: seen) { body with allOf } rest
      | "anyOf" =>
          let anyOf ← readList value
          readMembers (name :: seen) { body with anyOf } rest
      | "oneOf" =>
          let oneOf ← readList value
          readMembers (name :: seen) { body with oneOf } rest
      | "properties" =>
          let properties ← readTable value
          readMembers (name :: seen) { body with properties } rest
      | "additionalProperties" =>
          let whole ← value.value
          let additional ← match whole with
            | .null => pure .unspecified
            | .bool allowed => pure (.allowed allowed)
            | _ => alternative "AdditionalProperties" (.schema <$> read value)
          readMembers (name :: seen) { body with additional } rest
      | _ =>
          let keyword ← value.value
          readMembers seen { body with keywords := Table.insert name keyword body.keywords } rest

def readList : Json.Node → Numbering (List Schema)
  | .array tooDeep elements => do
      Codec.refuseIf tooDeep
      readElements elements
  | other => throw (other.mismatch .sequence)

def readElements : Json.Elements → Numbering (List Schema)
  | .stop ending => do
      Json.Fault.check ending.fault?
      return []
  | .item value rest => do
      let first ← read value
      return first :: (← readElements rest)

def readTable : Json.Node → Numbering (Table Schema)
  | .object tooDeep members => do
      Codec.refuseIf tooDeep
      return Table.ofEntries (← readEntries members)
  | other => throw (other.mismatch .map)

def readEntries : Json.Members → Numbering (List (String × Schema))
  | .stop ending => do
      Json.Fault.check ending.fault?
      return []
  | .noFirstKey => throw .keyExpected
  | .member key value rest => do
      let name ← key.text
      let first ← read value
      return (name, first) :: (← readEntries rest)

end

/-- Reads what stands for additional properties: a switch or a schema. -/
def readAdditional (node : Json.Node) : Numbering (Additional Schema) := do
  match ← node.value with
  | .bool allowed => return .allowed allowed
  | _ => alternative "AdditionalProperties" (.schema <$> read node)

end Schema

end ApiLinker
