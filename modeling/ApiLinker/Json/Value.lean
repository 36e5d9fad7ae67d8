import ApiLinker.Decimal.Binary64
import ApiLinker.Table

/-!
JSON values.

An integer and a float are different numbers even where they count the same.  The members of an
object are kept in the order in which they stand.
-/

namespace ApiLinker

inductive Number where
  | integer (value : Int)
  | float (value : Decimal.Binary64)
deriving DecidableEq, Repr

def Number.same : Number → Number → Bool
  | .integer left, .integer right => left == right
  | .float left, .float right => left.same right
  | _, _ => false

inductive Json where
  | null
  | bool (value : Bool)
  | number (value : Number)
  | string (value : String)
  | array (elements : List Json)
  | object (members : List (String × Json))
deriving Repr

namespace Json

mutual

/-- Equality of values: the members of objects may stand in any order. -/
def same : Json → Json → Bool
  | .null, .null => true
  | .bool left, .bool right => left == right
  | .number left, .number right => left.same right
  | .string left, .string right => left == right
  | .array left, .array right => sameElements left right
  | .object left, .object right => left.length == right.length && sameMembers left right
  | _, _ => false

def sameElements : List Json → List Json → Bool
  | [], [] => true
  | left :: lefts, right :: rights => same left right && sameElements lefts rights
  | _, _ => false

/-- Whether each member on the left is found on the right with the same value. -/
def sameMembers : List (String × Json) → List (String × Json) → Bool
  | [], _ => true
  | (name, left) :: lefts, rights =>
      (match Table.find? name rights with
        | some right => same left right
        | none => false) && sameMembers lefts rights

end

end Json

end ApiLinker
