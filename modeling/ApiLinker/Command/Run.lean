import ApiLinker.Command.Arguments
import ApiLinker.Linking.Walk
import ApiLinker.Loading

/-!
Running commands.

A command prints to its output, or to its errors if it failed.  Its status is 0 if all is well, 1
if a document has references that could not be linked and 2 if it failed.
-/

namespace ApiLinker

structure Outcome where
  output : String := ""
  errors : String := ""
  status : UInt8
deriving DecidableEq, Repr

namespace Outcome

def usage : Outcome where
  errors := "usage: init [PATH]\n" ++
    "       resolve [-p|--project PATH] [-s|--strict] [-j|--json] FILE\n"
  status := 2

def ofFailure (failure : Failure) : Outcome where
  errors := "Error: " ++ failure.message ++ "\n"
  status := 2

end Outcome

/-- The report on a file, as JSON or as lines for a reader. -/
def Diagnostic.report (file : String) (json : Bool) (diagnostics : List Diagnostic) : String :=
  if json then Json.pretty (.array (diagnostics.map Diagnostic.json)) ++ "\n"
  else if diagnostics.isEmpty then file ++ ": all references resolved\n"
  else String.join (diagnostics.map fun diagnostic => diagnostic.message ++ "\n") ++ "\n" ++
    toString diagnostics.length ++ " unresolved reference(s) in " ++ file ++ "\n"

namespace Command

section

variable {m : Type → Type} [Monad m] [FileSystem m]

/-- The directory of a project, by default the one that the command runs in. -/
def projectPath (project : Option String) : m String :=
  match project with
  | some path => pure path
  | none => FileSystem.workingDirectory

def settingsWork (work : ExceptT Settings.StoreFault m α) : ExceptT Failure m α :=
  ExceptT.mk (Except.mapError .settings <$> work.run)

def saveDefaults (project : Option String) : ExceptT Failure m Outcome := do
  let path ← projectPath (m := m) project
  settingsWork (Settings.save path {})
  return { output := "Initialized apiref config at " ++ path ++ "\n", status := 0 }

def resolveFile (file : String) (project : Option String) (strict json : Bool) :
    ExceptT Failure m Outcome := do
  let path ← projectPath (m := m) project
  let settings ← settingsWork (Settings.load path)
  let (document, graph) ← Document.load file {}
  let (diagnostics, _, _) :=
    document.link graph { settings with strict := settings.strict || strict }
  return {
    output := Diagnostic.report file json diagnostics
    status := if diagnostics.isEmpty then 0 else 1 }

def run (command : Command) : m Outcome := do
  let work : ExceptT Failure m Outcome := match command with
    | .init project => saveDefaults project
    | .resolve file project strict json => resolveFile file project strict json
  match ← work.run with
  | .ok outcome => return outcome
  | .error failure => return .ofFailure failure

def runArguments (arguments : List String) : m Outcome :=
  match ofArguments arguments with
  | some command => command.run
  | none => pure .usage

end

end Command

end ApiLinker
