import ApiLinker.Command.Run

/-!
The command line: runs commands on the files of the machine.
-/

namespace ApiLinker

def numberedError (details : String) (number : UInt32) : SystemError :=
  .other (details ++ " (os error " ++ toString number ++ ")")

def SystemError.ofIO : IO.Error → SystemError
  | .noFileOrDirectory .. => .notFound
  | .alreadyExists _ 17 _ => .alreadyExists
  | .inappropriateType _ 20 _ => .notADirectory
  | .inappropriateType _ 21 _ => .isADirectory
  | .invalidArgument _ 36 _ => .nameTooLong
  | .alreadyExists _ number details | .inappropriateType _ number details
  | .invalidArgument _ number details | .permissionDenied _ number details
  | .resourceExhausted _ number details | .noSuchThing _ number details
  | .interrupted _ number details | .otherError number details | .resourceBusy number details
  | .resourceVanished number details | .unsupportedOperation number details
  | .hardwareFault number details | .unsatisfiedConstraints number details
  | .illegalOperation number details | .protocolError number details
  | .timeExpired number details => numberedError details number
  | .unexpectedEof => .other "failed to fill whole buffer"
  | .userError text => .other text

/-- Does an action on some paths and takes its error, if it throws one, for a result. -/
def settled (paths : List String) (action : IO α) : IO (Except SystemError α) := do
  if paths.any fun path => path.toList.contains '\x00' then return .error .nullInPath
  try
    return .ok (← action)
  catch error =>
    return .error (SystemError.ofIO error)

instance : FileSystem IO where
  workingDirectory := do
    try
      return (← IO.currentDir).toString
    catch _ =>
      return "."
  isPresent path := do ((← IO.currentDir) / path).pathExists
  isDirectory path := do ((← IO.currentDir) / path).isDir
  readText path := do
    match ← settled [path] (IO.FS.readBinFile path) with
    | .error error => return .error error
    | .ok content => match String.fromUTF8? content with
        | some text => return .ok text
        | none => return .error .invalidText
  createDirectory path := settled [path] (IO.FS.createDir path)
  writeText path content := settled [path] (IO.FS.writeFile path content)
  rename source target := settled [source, target] (IO.FS.rename source target)

end ApiLinker

def main (arguments : List String) : IO UInt32 := do
  let outcome : ApiLinker.Outcome ← ApiLinker.Command.runArguments arguments
  IO.print outcome.output
  IO.eprint outcome.errors
  return outcome.status.toUInt32
