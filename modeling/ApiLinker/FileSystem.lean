import ApiLinker.Pointer

/-!
File systems: what keeping settings and loading documents ask of the system.

`FileSystem` lists the operations, each of which may fail with a `SystemError`.  Paths are texts
with slashes between names.
-/

namespace ApiLinker

inductive SystemError where
  | notFound
  | alreadyExists
  | notADirectory
  | isADirectory
  | nameTooLong
  | nullInPath
  | invalidText
  | other (description : String)
deriving DecidableEq, Repr

def SystemError.message : SystemError → String
  | .notFound => "No such file or directory (os error 2)"
  | .alreadyExists => "File exists (os error 17)"
  | .notADirectory => "Not a directory (os error 20)"
  | .isADirectory => "Is a directory (os error 21)"
  | .nameTooLong => "File name too long (os error 36)"
  | .nullInPath => "file name contained an unexpected NUL byte"
  | .invalidText => "stream did not contain valid UTF-8"
  | .other description => description

class FileSystem (m : Type → Type) where
  workingDirectory : m String
  isPresent (path : String) : m Bool
  isDirectory (path : String) : m Bool
  readText (path : String) : m (Except SystemError String)
  /-- Creates one directory.  It must be new, and the one it stands in must exist. -/
  createDirectory (path : String) : m (Except SystemError Unit)
  writeText (path content : String) : m (Except SystemError Unit)
  /-- Moves a file, in one step, to where another may stand. -/
  rename (source target : String) : m (Except SystemError Unit)

namespace FileSystem

/-- The number of bytes that a name in a path may have. -/
def nameLimit : Nat := 255

/-- The number of bytes that a whole path may have. -/
def pathLimit : Nat := 4095

def entryPath (directory name : String) : String :=
  match directory.toList.getLast? with
  | none | some '/' => directory ++ name
  | some _ => directory ++ "/" ++ name

/-- The names in a path, which may be empty where slashes meet. -/
def pieces (path : String) : List String :=
  (Pointer.splitSlashes path.toList).map String.ofList

/-- The paths that end at each of the given pieces, which start with the last. -/
def upward : List String → List String
  | [] => []
  | last :: above => "/".intercalate (last :: above).reverse :: upward above

/-- A path and what stands above it, the longest path first. -/
def ancestors (path : String) : List String :=
  (upward (pieces path).reverse).filter (· ≠ "")

section

variable {m : Type → Type} [Monad m] [FileSystem m]

/-- Creates a directory unless it is there already. -/
def ensureDirectory (path : String) : m (Except SystemError Unit) := do
  match ← createDirectory path with
  | .error .alreadyExists =>
      if ← isDirectory path then return .ok () else return .error .alreadyExists
  | result => return result

/-- Ensures the first of some paths, and the others as far as it needs them. -/
def ensureFirst : List String → m (Except SystemError Unit)
  | [] => return .ok ()
  | path :: above => do
      match ← ensureDirectory path with
      | .error .notFound =>
          match ← ensureFirst above with
          | .ok () => ensureDirectory path
          | failed => return failed
      | result => return result

/-- Creates a directory and all above it that are missing. -/
def createDirectories (path : String) : m (Except SystemError Unit) :=
  ensureFirst (ancestors path)

/-- Does an operation of the file system, and says what it was for if it fails. -/
def attempt (cause : SystemError → ε) (operation : m (Except SystemError α)) : ExceptT ε m α :=
  ExceptT.mk (Except.mapError cause <$> operation)

end

end FileSystem

end ApiLinker
