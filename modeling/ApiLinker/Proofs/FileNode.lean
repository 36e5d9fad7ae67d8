import ApiLinker.FileNode
import Mathlib.Logic.Function.Basic

/-!
What is seen in a file node: at each place a directory or the content of a file.

Putting a file or an empty directory somewhere, and erasing it, changes what is seen at its own place
only (`FileNode.view_put`, `FileNode.view_erase`).
-/

namespace ApiLinker

/-- What stands at a place, apart from what stands below it. -/
inductive Sight where
  | directory
  | file (content : ByteArray)

def Sight.content? : Sight → Option ByteArray
  | .directory => none
  | .file content => some content

abbrev View := List String → Option Sight

namespace FileNode

def sight : FileNode → Sight
  | .directory _ => .directory
  | .file content => .file content

theorem at?_append (node : FileNode) (place rest : List String) :
    node.at? (place ++ rest) = (node.at? place).bind (·.at? rest) := by
  induction place generalizing node with
  | nil => rfl
  | cons name place ih =>
      rw [List.cons_append, at?, at?]
      cases node.child? name with
      | none => rfl
      | some child => exact ih child

theorem at?_singleton (node : FileNode) (name : String) : node.at? [name] = node.child? name := by
  rw [at?]
  cases node.child? name <;> rfl

/-- What is seen at each place. -/
def view (node : FileNode) : View :=
  fun place => (node.at? place).map sight

@[simp] theorem view_nil (node : FileNode) : node.view [] = some node.sight := rfl

theorem view_cons (node : FileNode) (name : String) (rest : List String) :
    node.view (name :: rest) = (node.child? name).bind (·.view rest) := by
  rw [view, at?]
  cases node.child? name <;> rfl

theorem at?_of_view {node : FileNode} {place : List String} {content : ByteArray}
    (seen : node.view place = some (.file content)) : node.at? place = some (.file content) := by
  obtain ⟨found, stands, isFile⟩ := Option.map_eq_some_iff.mp seen
  rw [stands]
  cases found with
  | directory => cases isFile
  | file =>
      cases isFile
      rfl

theorem sight_of_child? {node child : FileNode} {name : String}
    (found : node.child? name = some child) : node.sight = .directory := by
  cases node with
  | directory => rfl
  | file => cases found

theorem child?_of_view_cons {node : FileNode} {name : String} {rest : List String} {sight : Sight}
    (seen : node.view (name :: rest) = some sight) :
    ∃ child, node.child? name = some child ∧ child.view rest = some sight := by
  rw [view_cons] at seen
  exact Option.bind_eq_some_iff.mp seen

/-- Whatever stands somewhere stands in directories. -/
theorem view_above {node : FileNode} {place rest : List String} (inside : rest ≠ [])
    (seen : node.view (place ++ rest) ≠ none) : node.view place = some .directory := by
  induction place generalizing node with
  | nil =>
      obtain ⟨name, rest, rfl⟩ := List.exists_cons_of_ne_nil inside
      obtain ⟨sight, seen⟩ := Option.ne_none_iff_exists'.mp seen
      obtain ⟨child, found, _⟩ := child?_of_view_cons seen
      rw [view_nil, sight_of_child? found]
  | cons name place ih =>
      rw [List.cons_append, view_cons] at seen
      cases found : node.child? name with
      | none => exact absurd (by rw [found]; rfl) seen
      | some child =>
          rw [found] at seen
          rw [view_cons, found]
          exact ih seen

theorem view_dropLast {node : FileNode} {place : List String}
    (isDirectory : node.view place = some .directory) :
    node.view place.dropLast = some .directory := by
  rcases List.eq_nil_or_concat place with rfl | ⟨above, name, rfl⟩
  · exact isDirectory
  · rw [List.concat_eq_append, List.dropLast_concat]
    rw [List.concat_eq_append] at isDirectory
    exact view_above (List.cons_ne_nil name []) (by rw [isDirectory]; nofun)

theorem view_below {node : FileNode} {place rest : List String} (inside : rest ≠ [])
    (unseen : node.view place ≠ some .directory) : node.view (place ++ rest) = none :=
  by_contra fun seen => unseen (view_above inside seen)

/-- Nothing stands in the node. -/
def Bare (node : FileNode) : Prop :=
  ∀ name, node.child? name = none

theorem bare_empty : empty.Bare := fun _ => rfl

theorem bare_file (content : ByteArray) : (file content).Bare := fun _ => rfl

theorem Bare.view {node : FileNode} (bare : node.Bare) (name : String) (rest : List String) :
    node.view (name :: rest) = none := by
  rw [view_cons, bare name]
  rfl

/-- A change in one of the entries changes what is seen below that entry. -/
theorem view_of_child {node changed child inner : FileNode} {first : String} {place : List String}
    {sight : Option Sight} (found : node.child? first = some child)
    (isDirectory : changed.sight = .directory) (becomes : changed.child? first = some inner)
    (others : ∀ name, name ≠ first → changed.child? name = node.child? name)
    (below : inner.view = Function.update child.view place sight) :
    changed.view = Function.update node.view (first :: place) sight := by
  funext other
  cases other with
  | nil =>
      rw [Function.update_of_ne (by simp), view_nil, view_nil, isDirectory, sight_of_child? found]
  | cons name rest =>
      by_cases same : name = first
      · subst same
        rw [view_cons, becomes, Option.bind_some, below]
        by_cases here : rest = place
        · rw [here, Function.update_self, Function.update_self]
        · rw [Function.update_of_ne here, Function.update_of_ne (by simpa using here), view_cons,
            found, Option.bind_some]
      · rw [view_cons, others name same, Function.update_of_ne (by simp [same]), view_cons]

/-- A change of an entry in which nothing stands. -/
theorem view_of_entry {node changed : FileNode} {name : String} {sight : Option Sight}
    (above : node.view [] = some .directory) (isDirectory : changed.sight = .directory)
    (others : ∀ other, other ≠ name → changed.child? other = node.child? other)
    (free : node.view [name] ≠ some .directory) (here : changed.view [name] = sight)
    (bare : ∀ second rest, changed.view (name :: second :: rest) = none) :
    changed.view = Function.update node.view [name] sight := by
  funext other
  match other with
  | [] => rw [Function.update_of_ne (by simp), above, view_nil, isDirectory]
  | first :: rest =>
      by_cases same : first = name
      · subst same
        cases rest with
        | nil => rw [Function.update_self, here]
        | cons second rest =>
            have unseen : node.view ([first] ++ second :: rest) = none :=
              view_below (List.cons_ne_nil second rest) free
            rw [Function.update_of_ne (by simp), bare]
            exact unseen.symm
      · rw [view_cons, others first same, Function.update_of_ne (by simp [same]), view_cons]

/-- A node that is put in a directory, where no other directory stands, is seen at its place and
changes nothing else. -/
theorem view_put {new node : FileNode} (bare : new.Bare) {place : List String} {name : String}
    (above : node.view place = some .directory)
    (free : node.view (place ++ [name]) ≠ some .directory) :
    (put new (place ++ [name]) node).view =
      Function.update node.view (place ++ [name]) (some new.sight) := by
  induction place generalizing node with
  | nil =>
      refine view_of_entry above rfl (fun other different => child?_put_of_ne new different _ node)
        free ?_ fun second rest => ?_
      · rw [List.nil_append, view_cons, child?_put_self]
        rfl
      · rw [List.nil_append, view_cons, child?_put_self]
        exact bare.view second rest
  | cons first place ih =>
      obtain ⟨child, found, inside⟩ := child?_of_view_cons above
      have unoccupied : child.view (place ++ [name]) ≠ some .directory := by
        rwa [List.cons_append, view_cons, found] at free
      refine view_of_child found rfl (child?_put_self new first _ node)
        (fun other different => child?_put_of_ne new different _ node) ?_
      rw [found]
      exact ih inside unoccupied

/-- A file that is erased is no longer seen, and nothing else changes. -/
theorem view_erase {node : FileNode} {place : List String} {name : String}
    (above : node.view place = some .directory)
    (free : node.view (place ++ [name]) ≠ some .directory) :
    (erase (place ++ [name]) node).view = Function.update node.view (place ++ [name]) none := by
  induction place generalizing node with
  | nil =>
      cases found : node.child? name with
      | none =>
          have unseen : node.view [name] = none := by rw [view_cons, found]; rfl
          have kept : erase [name] node = node := by simp [erase, found]
          rw [List.nil_append, kept, ← unseen, Function.update_eq_self]
      | some child =>
          have gone : (directory (Table.erase name node.entries)).child? name = none :=
            Table.find?_erase_self name node.entries
          have erased : erase [name] node = .directory (Table.erase name node.entries) := by
            simp [erase, found]
          rw [List.nil_append, erased]
          refine view_of_entry above rfl (fun other different =>
            Table.find?_erase_of_ne different node.entries) free ?_ fun second rest => ?_
          · rw [view_cons, gone]
            rfl
          · rw [view_cons, gone]
            rfl
  | cons first place ih =>
      obtain ⟨child, found, inside⟩ := child?_of_view_cons above
      have unoccupied : child.view (place ++ [name]) ≠ some .directory := by
        rwa [List.cons_append, view_cons, found] at free
      have erased : erase (first :: place ++ [name]) node =
          .directory (Table.insert first (child.erase (place ++ [name])) node.entries) := by
        simp [erase, found]
      rw [erased]
      exact view_of_child found rfl (Table.find?_insert_self ..)
        (fun other different => Table.find?_insert_of_ne different ..) (ih inside unoccupied)

end FileNode

end ApiLinker
