import ApiLinker.Table

/-!
File nodes: a file, or a directory of named nodes.

`FileNode.at?` is what stands at a place, given by the names that lead to it, and `put` and `erase`
change what stands there.
-/

namespace ApiLinker

inductive FileNode where
  | directory (entries : List (String × FileNode))
  | file (content : ByteArray)

namespace FileNode

def empty : FileNode :=
  .directory []

/-- A file has no entries. -/
def entries : FileNode → Table FileNode
  | .directory entries => entries
  | .file _ => []

def child? (name : String) (node : FileNode) : Option FileNode :=
  Table.find? name node.entries

def at? (node : FileNode) : List String → Option FileNode
  | [] => some node
  | name :: rest => (node.child? name).bind fun child => child.at? rest

/-- The node with a new one at a place, and with directories on the way there. -/
def put (new : FileNode) : List String → FileNode → FileNode
  | [], _ => new
  | name :: rest, node =>
      .directory (Table.insert name (put new rest ((node.child? name).getD empty)) node.entries)

def erase : List String → FileNode → FileNode
  | [], node => node
  | name :: rest, node =>
      match node.child? name with
      | none => node
      | some child =>
          if rest = [] then .directory (Table.erase name node.entries)
          else .directory (Table.insert name (child.erase rest) node.entries)

theorem child?_put_self (new : FileNode) (name : String) (rest : List String) (node : FileNode) :
    (put new (name :: rest) node).child? name =
      some (put new rest ((node.child? name).getD empty)) :=
  Table.find?_insert_self ..

theorem child?_put_of_ne (new : FileNode) {name other : String} (different : other ≠ name)
    (rest : List String) (node : FileNode) :
    (put new (name :: rest) node).child? other = node.child? other :=
  Table.find?_insert_of_ne different ..

mutual

/-- The files at and below a place, whose names are given innermost first. -/
def files (place : List String) : FileNode → List (List String × ByteArray)
  | .file content => [(place.reverse, content)]
  | .directory entries => filesAmong place entries

def filesAmong (place : List String) : List (String × FileNode) → List (List String × ByteArray)
  | [] => []
  | (name, node) :: rest => node.files (name :: place) ++ filesAmong place rest

end

end FileNode

end ApiLinker
