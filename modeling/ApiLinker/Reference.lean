import ApiLinker.Category
import ApiLinker.Pointer

/-!
References: the text of a `$ref`, and what that text names.

The text is `<resource>#<fragment>`.  A reference without a resource is local.  The fragment of a
local reference to a named component is `/components/<category>/<name>`, or `/tags/<name>`.
-/

namespace ApiLinker

structure Reference where
  pointer : String
  /-- The document in which the reference was found. -/
  host : Option String := none
deriving DecidableEq, Repr

namespace Reference

def toTag (name : String) : Reference :=
  { pointer := Pointer.ofSegments ["tags", name] }

/-- The reference under which the component `name` of `category` is found.  Tags are not kept among
the components but at the top level. -/
def toComponent (category : Category) (name : String) : Reference :=
  if category = .tags then toTag name
  else { pointer := Pointer.ofSegments ["components", category.key, name] }

def withHost (reference : Reference) (host : String) : Reference :=
  { reference with host := some host }

def resource? (reference : Reference) : Option String :=
  match (Pointer.splitFragment reference.pointer.toList).1 with
  | [] => none
  | resource => some (String.ofList resource)

def isExternal (reference : Reference) : Bool :=
  reference.resource?.isSome

def fragmentChars (reference : Reference) : List Char :=
  (Pointer.splitFragment reference.pointer.toList).2.getD []

def fragment (reference : Reference) : String :=
  String.ofList reference.fragmentChars

/-- The segments of the fragment, still escaped. -/
def segments (reference : Reference) : List String :=
  (Pointer.pieces reference.fragmentChars).map String.ofList

/-- The category that the fragment names, if it names one. -/
def category? (reference : Reference) : Option Category :=
  match reference.segments with
  | "components" :: key :: _ => Category.ofKey? key
  | "tags" :: _ => some .tags
  | _ => none

/-- The name of the target within its category, however deep the pointer reaches.  Where the
fragment names no category, it is the last segment. -/
def identifier (reference : Reference) : String :=
  let segment := match reference.segments with
    | "components" :: rest => rest[1]?
    | "tags" :: rest => rest[0]?
    | segments => segments.getLast?
  Pointer.unescape (segment.getD "")

/-- Whether the pointer reaches inside a component instead of naming it. -/
def isNested (reference : Reference) : Bool :=
  match reference.segments with
  | "components" :: _ :: _ :: _ :: _ => true
  | "tags" :: _ :: _ :: _ => true
  | _ => false

end Reference

end ApiLinker
