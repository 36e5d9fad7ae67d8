import ApiLinker.FileNode
import ApiLinker.FileSystem

/-!
File trees: a directory, from which paths go out, as a value.

`locate` finds the place that a path leads to: every piece but the last must lead to a directory,
and what stands at the last is up to the operation.  A failed operation leaves a tree as it was.
-/

namespace ApiLinker

structure FileTree where
  root : FileNode := .empty
  workingDirectory : List String := []

namespace FileTree

def put (tree : FileTree) (place : List String) (node : FileNode) : FileTree :=
  { tree with root := node.put place tree.root }

def erase (tree : FileTree) (place : List String) : FileTree :=
  { tree with root := tree.root.erase place }

def files (tree : FileTree) : List (List String × ByteArray) :=
  tree.root.files []

/-- A place, and what stands there. -/
abbrev Location := List String × Option FileNode

/-- Follows the pieces of a path from a place, whose names are given innermost first. -/
def follow (root : FileNode) (place : List String) (node : Option FileNode) :
    List String → Except SystemError Location
  | [] => .ok (place.reverse, node)
  | piece :: rest =>
      match node with
      | none => .error .notFound
      | some (.file _) => .error .notADirectory
      | some (.directory entries) =>
          if piece = "" || piece = "." then
            follow root place (some (.directory entries)) rest
          else if piece = ".." then
            follow root place.tail (root.at? place.tail.reverse) rest
          else if FileSystem.nameLimit < piece.utf8ByteSize then .error .nameTooLong
          else follow root (piece :: place) (Table.find? piece entries) rest

/-- Where a path leads to.  A path that starts with a slash goes out from the root. -/
def locate (tree : FileTree) (path : String) : Except SystemError Location :=
  if path.toList.contains '\x00' then .error .nullInPath
  else if FileSystem.pathLimit < path.utf8ByteSize then .error .nameTooLong
  else match path.toList.head? with
    | none => .error .notFound
    | some '/' => follow tree.root [] (some tree.root) (FileSystem.pieces path)
    | some _ =>
        follow tree.root tree.workingDirectory.reverse (tree.root.at? tree.workingDirectory)
          (FileSystem.pieces path)

def lookup (tree : FileTree) (path : String) : Except SystemError FileNode := do
  match ← tree.locate path with
  | (_, none) => .error .notFound
  | (_, some node) => .ok node

def read (tree : FileTree) (path : String) : Except SystemError ByteArray := do
  match ← tree.lookup path with
  | .directory _ => .error .isADirectory
  | .file content => .ok content

def readText (tree : FileTree) (path : String) : Except SystemError String := do
  match String.fromUTF8? (← tree.read path) with
  | none => .error .invalidText
  | some text => .ok text

def createDirectory (tree : FileTree) (path : String) : Except SystemError FileTree := do
  match ← tree.locate path with
  | (_, some _) => .error .alreadyExists
  | (place, none) => .ok (tree.put place .empty)

def write (tree : FileTree) (path : String) (content : ByteArray) :
    Except SystemError FileTree := do
  match ← tree.locate path with
  | (_, some (.directory _)) => .error .isADirectory
  | (place, some (.file _)) | (place, none) => .ok (tree.put place (.file content))

def rename (tree : FileTree) (source target : String) : Except SystemError FileTree := do
  let content ← tree.read source
  let (origin, _) ← tree.locate source
  match ← tree.locate target with
  | (_, some (.directory _)) => .error .isADirectory
  | (place, some (.file _)) | (place, none) =>
      .ok ((tree.erase origin).put place (.file content))

/-- The text of the path from the root to a place. -/
def pathOf (place : List String) : String :=
  if place = [] then "/" else String.join (place.map ("/" ++ ·))

/-- Lets an operation change the tree, if it succeeds. -/
def change (operation : FileTree → Except SystemError FileTree) :
    StateM FileTree (Except SystemError Unit) := fun tree =>
  match operation tree with
  | .ok changed => (.ok (), changed)
  | .error error => (.error error, tree)

instance : FileSystem (StateM FileTree) where
  workingDirectory := return pathOf (← get).workingDirectory
  isPresent path := return (← get).lookup path matches .ok _
  isDirectory path := return (← get).lookup path matches .ok (.directory _)
  readText path := return (← get).readText path
  createDirectory path := change fun tree => tree.createDirectory path
  writeText path content := change fun tree => tree.write path content.toUTF8
  rename source target := change fun tree => tree.rename source target

end FileTree

end ApiLinker
