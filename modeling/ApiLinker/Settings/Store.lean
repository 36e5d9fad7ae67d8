import ApiLinker.FileSystem
import ApiLinker.Json.Printer
import ApiLinker.Settings.Basic

/-!
Where a project keeps its settings.

They stand in a file of a hidden directory.  A project without that file has the settings that are
given by default.  `save` writes a new file beside it and then moves that into its place, so that at
no time the settings are half written.
-/

namespace ApiLinker.Settings

inductive StoreFault where
  | notRead (path : String) (error : SystemError)
  | invalid (path : String) (fault : Json.Fault)
  | notCreated (directory : String) (error : SystemError)
  | notWritten (path : String) (error : SystemError)
  | notMoved (path : String) (error : SystemError)
deriving DecidableEq, Repr

def StoreFault.message : StoreFault → String
  | .notRead path error => "cannot read '" ++ path ++ "': " ++ error.message
  | .invalid path fault => "invalid resolver settings in '" ++ path ++ "': " ++ fault.message
  | .notCreated directory error => "cannot create '" ++ directory ++ "': " ++ error.message
  | .notWritten path error => "cannot write '" ++ path ++ "': " ++ error.message
  | .notMoved path error => "cannot move settings into '" ++ path ++ "': " ++ error.message

def directory (project : String) : String :=
  FileSystem.entryPath project ".apiref"

def path (project : String) : String :=
  FileSystem.entryPath (directory project) "config.json"

/-- Where settings are written before they take their place. -/
def stagedPath (project : String) : String :=
  FileSystem.entryPath (directory project) "config.json.partial"

section

variable {m : Type → Type} [Monad m] [FileSystem m]

open FileSystem

def load (project : String) : ExceptT StoreFault m Settings := do
  if ← isPresent (m := m) (path project) then
    let text ← attempt (.notRead (path project)) (readText (path project))
    match parse text with
    | .ok settings => return settings
    | .error fault => throw (.invalid (path project) fault)
  else
    return {}

def save (project : String) (settings : Settings) : ExceptT StoreFault m Unit := do
  attempt (.notCreated (directory project)) (createDirectories (directory project))
  attempt (.notWritten (stagedPath project))
    (writeText (stagedPath project) (Json.pretty settings.json))
  attempt (.notMoved (path project)) (rename (stagedPath project) (path project))

end

end ApiLinker.Settings
