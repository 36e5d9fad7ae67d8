import ApiLinker.Format.Record

/-!
Settings: the choices of a project that shape how its documents are linked.

All settings are written, and any of them may be missing when read.
-/

namespace ApiLinker

/-- The authority of schema locators where none is chosen. -/
def defaultAuthority : String := "http://everything.json"

structure Settings where
  version : UInt32 := 1
  /-- Report external references, which are never followed. -/
  strict : Bool := false
  schemaAuthority : String := defaultAuthority
  /-- Replace a tag that is used but nowhere declared by a bare one instead of reporting it. -/
  synthesizeMissingTags : Bool := true
deriving DecidableEq, Repr

namespace Settings

def format : Record σ Settings where
  name := "ResolverConfig"
  blank := {}
  fields := [
    .always "version" .unsigned32 (·.version) fun value record => { record with version := value },
    .always "strict" .bool (·.strict) fun value record => { record with strict := value },
    .always "schema_authority" .string (·.schemaAuthority)
      fun value record => { record with schemaAuthority := value },
    .always "synthesize_missing_tags" .bool (·.synthesizeMissingTags)
      fun value record => { record with synthesizeMissingTags := value }]

def json (settings : Settings) : Json :=
  .object [("version", .number (.integer settings.version.toNat)),
    ("strict", .bool settings.strict),
    ("schema_authority", .string settings.schemaAuthority),
    ("synthesize_missing_tags", .bool settings.synthesizeMissingTags)]

theorem write_format (settings : Settings) :
    (format (σ := σ)).codec.write settings = .ok settings.json := rfl

def parse (text : String) : Except Json.Fault Settings :=
  (Json.Text.ofChars text.toList).decode fun node => do
    let (settings, ()) ← (format.read node).run ()
    return settings

end Settings

end ApiLinker
