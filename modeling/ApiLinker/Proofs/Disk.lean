import ApiLinker.Proofs.FileTree

/-!
Disks: file trees whose operations may fail for no reason of theirs.

A mishap makes a change fail that the tree would allow.  A directory that is not created and a file
that is not moved leave the tree as it was; a file that is not written completely may hold anything
afterwards, but no other file does.  Looking never fails.
-/

namespace ApiLinker

structure Mishap where
  error : SystemError
  /-- What is left in the file that was to be written, if it was opened at all. -/
  remains : Option ByteArray := none

/-- A file tree, with the mishaps that befall the changes to come, one after the other. -/
structure Disk where
  tree : FileTree
  mishaps : List (Option Mishap) := []

/-- The tree after a write that failed. -/
def FileTree.torn (tree : FileTree) (path : String) : (remains : Option ByteArray) → FileTree
  | none => tree
  | some content =>
      match tree.write path content with
      | .ok torn => torn
      | .error _ => tree

namespace Disk

def look (action : StateM FileTree α) : StateM Disk α := fun disk =>
  ((action disk.tree).1, disk)

/-- Lets an operation change the tree unless a mishap befalls it. -/
def perform (operation : StateM FileTree (Except SystemError Unit))
    (spoil : Mishap → FileTree → FileTree) : StateM Disk (Except SystemError Unit) := fun disk =>
  let mishaps := disk.mishaps.tail
  match disk.mishaps.head?.join with
  | some mishap => (.error mishap.error, { tree := spoil mishap disk.tree, mishaps })
  | none =>
      let (result, tree) := operation disk.tree
      (result, { tree, mishaps })

instance : FileSystem (StateM Disk) where
  workingDirectory := look FileSystem.workingDirectory
  isPresent path := look (FileSystem.isPresent path)
  isDirectory path := look (FileSystem.isDirectory path)
  readText path := look (FileSystem.readText path)
  createDirectory path := perform (FileSystem.createDirectory path) fun _ tree => tree
  writeText path content :=
    perform (FileSystem.writeText path content) fun mishap tree => tree.torn path mishap.remains
  rename source target := perform (FileSystem.rename source target) fun _ tree => tree

open FileSystem

variable {disk after : Disk} {path source content : String} {result : Except SystemError Unit}

theorem isPresent_eq (path : String) (disk : Disk) :
    (isPresent path : StateM Disk Bool) disk = (disk.tree.lookup path matches .ok _, disk) := rfl

theorem readText_eq (path : String) (disk : Disk) :
    (readText path : StateM Disk _) disk = (disk.tree.readText path, disk) := rfl

/-- What has become of an operation: it is done, or it has failed and left the tree as `spoiled`
says. -/
theorem perform_cases {operation : FileTree → Except SystemError FileTree}
    {spoil : Mishap → FileTree → FileTree}
    (ran : perform (FileTree.change operation) spoil disk = (result, after)) :
    (result = .ok () ∧ operation disk.tree = .ok after.tree) ∨
      (∃ error, result = .error error) ∧
        (after.tree = disk.tree ∨ ∃ mishap, after.tree = spoil mishap disk.tree) := by
  rw [perform] at ran
  cases befalls : disk.mishaps.head?.join with
  | some mishap =>
      rw [befalls] at ran
      cases ran
      exact .inr ⟨⟨_, rfl⟩, .inr ⟨mishap, rfl⟩⟩
  | none =>
      rw [befalls] at ran
      cases done : operation disk.tree with
      | ok changed =>
          simp only [FileTree.change, done] at ran
          cases ran
          exact .inl ⟨rfl, rfl⟩
      | error error =>
          simp only [FileTree.change, done] at ran
          cases ran
          exact .inr ⟨⟨error, rfl⟩, .inl rfl⟩

theorem createDirectory_cases
    (ran : (createDirectory path : StateM Disk _) disk = (result, after)) :
    after.tree = disk.tree ∨ disk.tree.createDirectory path = .ok after.tree := by
  rcases perform_cases ran with ⟨_, created⟩ | ⟨_, same | ⟨_, same⟩⟩
  · exact .inr created
  · exact .inl same
  · exact .inl same

/-- What the creation of any directory above keeps is kept by the creation of all that are
missing. -/
theorem createDirectories_keeps {P : FileTree → Prop}
    (creates : ∀ above ∈ ancestors path, ∀ tree after, P tree →
      tree.createDirectory above = .ok after → P after) :
    Keeps (fun disk : Disk => P disk.tree) (createDirectories path : StateM Disk _) := by
  refine ensureFirst_keeps (fun above member disk holds => ?_) (fun _ _ _ holds => holds)
  rcases ran : (createDirectory above : StateM Disk _) disk with ⟨result, after⟩
  rcases createDirectory_cases ran with same | created
  · rwa [same]
  · exact creates above member _ _ holds created

/-- A failed write either changes nothing or writes something else. -/
theorem writeText_cases
    (ran : (writeText path content : StateM Disk _) disk = (result, after)) :
    (result = .ok () ∧ disk.tree.write path content.toUTF8 = .ok after.tree) ∨
      (∃ error, result = .error error) ∧
        (after.tree = disk.tree ∨ ∃ torn, disk.tree.write path torn = .ok after.tree) := by
  rcases perform_cases ran with done | ⟨failed, same | ⟨mishap, same⟩⟩
  · exact .inl done
  · exact .inr ⟨failed, .inl same⟩
  · refine .inr ⟨failed, ?_⟩
    rw [same]
    cases mishap.remains with
    | none => exact .inl rfl
    | some torn =>
        rw [FileTree.torn]
        cases written : disk.tree.write path torn with
        | ok tree => exact .inr ⟨torn, written⟩
        | error => exact .inl rfl

theorem rename_cases
    (ran : (rename source path : StateM Disk _) disk = (result, after)) :
    (result = .ok () ∧ disk.tree.rename source path = .ok after.tree) ∨
      (∃ error, result = .error error) ∧ after.tree = disk.tree := by
  rcases perform_cases ran with done | ⟨failed, same | ⟨_, same⟩⟩
  · exact .inl done
  · exact .inr ⟨failed, same⟩
  · exact .inr ⟨failed, same⟩

end Disk

end ApiLinker
