import ApiLinker.Proofs.Disk
import ApiLinker.Proofs.Settings.Restored
import ApiLinker.Settings.Store

/-!
Saving settings is all or nothing, but for one kind of path (`Settings.load_save`).

On a disk each directory may fail to be created, the staged file may be written in part or not at
all, and the move into place may fail.  What answers `load` is what is seen in the place of the
settings (`Settings.run_load`).  Writing does not change that (`Settings.write_staged`), and after
the move it is the staged text (`Settings.rename_staged`), which is read back as the settings that
were saved.

Directories that were made stay when a save fails.  They change what is seen only where the path of
the project steps back out of one of them (`Settings.seen_createDirectories`): nothing could be
found there before, and then something may be (`Settings.load_save_detoured`).
-/

namespace ApiLinker.Settings

open FileSystem FileTree

/-- The name of the file that holds settings. -/
def fileName : String := "config.json"

/-- The name of the file that settings are first written to. -/
def stagedName : String := "config.json.partial"

section

/-! Paths. -/

variable (project : String)

theorem entryPath_directory (name : String) :
    entryPath (directory project) name = directory project ++ "/" ++ name := by
  have last : (directory project).toList.getLast? = some 'f' := by
    rw [directory, entryPath]
    split <;> simp [String.toList_append]
  rw [entryPath, last]
  rfl

theorem path_eq : path project = directory project ++ "/" ++ fileName :=
  entryPath_directory project _

theorem stagedPath_eq : stagedPath project = directory project ++ "/" ++ stagedName :=
  entryPath_directory project _

theorem directory_ne_empty : directory project ≠ "" := by
  rw [directory, entryPath]
  split <;> simp

end

/-- The directory of the settings stands at `place`. -/
structure Home (tree : FileTree) (project : String) (place : List String) : Prop where
  isDirectory : tree.root.view place = some .directory
  walks : tree.root.view.walk (tree.start (directory project)) (pieces (directory project)) =
    .ok place
  fits : '\x00' ∉ (stagedPath project).toList ∧
    (stagedPath project).utf8ByteSize ≤ pathLimit

section

variable {tree after : FileTree} {project : String} {place : List String}

theorem start_entry (tree : FileTree) (project name : String) :
    tree.start (directory project ++ "/" ++ name) = tree.start (directory project) := by
  rw [String.append_assoc, start_append tree _ (directory_ne_empty project)]

theorem home_of_target (leads : tree.target (stagedPath project) = .ok place) :
    ∃ above, place = above ++ [stagedName] ∧ Home tree project above := by
  obtain ⟨⟨nullFree, fits, _⟩, walks⟩ := target_eq_ok.mp leads
  have plain : '/' ∉ stagedName.toList := by decide
  rw [stagedPath_eq, start_entry, pieces_append_slash, pieces_of_not_mem plain,
    View.walk_append] at walks
  obtain ⟨above, walks, rest⟩ := Outcome.bind_eq_ok walks
  rw [View.walk_cons] at rest
  obtain ⟨_, entered, same⟩ := Outcome.bind_eq_ok rest
  cases same
  exact ⟨above, View.enter_proper (by decide) entered, View.directory_of_enter entered, walks,
    nullFree, fits⟩

/-- Entries of the settings' directory are where their names say. -/
theorem Home.target (home : Home tree project place) {name : String} (plain : '/' ∉ name.toList)
    (proper : name ∉ ["", ".", ".."]) (short : name.utf8ByteSize ≤ nameLimit)
    (fits : '\x00' ∉ (directory project ++ "/" ++ name).toList ∧
      (directory project ++ "/" ++ name).utf8ByteSize ≤ pathLimit) :
    tree.target (directory project ++ "/" ++ name) = .ok (place ++ [name]) := by
  refine target_eq_ok.mpr ⟨⟨fits.1, fits.2, by simp⟩, ?_⟩
  rw [start_entry, pieces_append_slash, pieces_of_not_mem plain, View.walk_append, home.walks]
  change tree.root.view.walk place [name] = _
  rw [View.walk_cons, View.enter_name home.isDirectory proper short]
  rfl

theorem Home.stagedPath (home : Home tree project place) :
    tree.target (stagedPath project) = .ok (place ++ [stagedName]) := by
  have fits := home.fits
  rw [stagedPath_eq] at fits ⊢
  exact home.target (by decide) (by decide) (by decide) fits

theorem Home.path (home : Home tree project place) :
    tree.target (path project) = .ok (place ++ [fileName]) := by
  have longer : Settings.stagedPath project = Settings.path project ++ ".partial" := by
    have name : stagedName = fileName ++ ".partial" := rfl
    rw [stagedPath_eq, path_eq, name, String.append_assoc, String.append_assoc, String.append_assoc]
  have fits := home.fits
  rw [longer, String.toList_append, String.utf8ByteSize_append, path_eq, List.mem_append,
    not_or] at fits
  rw [path_eq]
  exact home.target (by decide) (by decide) (by decide) ⟨fits.1.1, Nat.le_of_add_right_le fits.2⟩

theorem Home.of_directories (home : Home tree project place)
    (starts : after.workingDirectory = tree.workingDirectory)
    (stay : ∀ other, tree.root.view other = some .directory →
      after.root.view other = some .directory) : Home after project place where
  isDirectory := stay place home.isDirectory
  walks := by
    rw [start, starts]
    exact View.walk_of_directories stay home.walks
  fits := home.fits

/-- Changing what is in the place of a file keeps the settings' directory where it is. -/
theorem Home.shows {changed : List String} {sight : Option Sight} (home : Home tree project place)
    (shown : Shows tree after changed sight) (free : tree.root.view changed ≠ some .directory) :
    Home after project place :=
  home.of_directories shown.workingDirectory fun _ => shown.directory free

end

section

/-! Loading. -/

/-- What is answered for what stands in the place of the settings. -/
def answer (project : String) : Option Sight → Except StoreFault Settings
  | none => .ok {}
  | some .directory => .error (.notRead (path project) .isADirectory)
  | some (.file content) =>
      match String.fromUTF8? content with
      | none => .error (.notRead (path project) .invalidText)
      | some text => (parse text).mapError (.invalid (path project))

theorem run_load (project : String) (disk : Disk) :
    (load project : ExceptT StoreFault (StateM Disk) Settings).run disk =
      (answer project (disk.tree.seen (path project)), disk) := by
  have reads := Disk.readText_eq (path project) disk
  rw [load, run_lift_bind, Disk.isPresent_eq]
  rcases lookup_cases disk.tree (path project) with ⟨node, found, seen⟩ | ⟨⟨error, missing⟩, seen⟩
  · rw [found, seen, if_pos rfl]
    cases node with
    | directory entries =>
        rw [readText_directory found] at reads
        rw [run_attempt_bind_error _ _ reads]
        rfl
    | file content =>
        rw [readText_file found] at reads
        cases decoded : String.fromUTF8? content with
        | none =>
            rw [decoded] at reads
            rw [run_attempt_bind_error _ _ reads]
            simp [FileNode.sight, answer, decoded]
        | some text =>
            rw [decoded] at reads
            rw [run_attempt_bind_ok _ _ reads]
            simp only [FileNode.sight, answer, decoded]
            cases parse text <;> rfl
  · rw [missing, seen, if_neg (by simp)]
    rfl

end

section

/-! The steps of saving. -/

variable {project : String} {tree after : FileTree} {place : List String}

theorem Home.seen_path (home : Home tree project place) :
    tree.seen (Settings.path project) = tree.root.view (place ++ [fileName]) := by
  rw [seen, home.path]

/-- Creating directories does not bring settings about, or take them away. -/
theorem seen_createDirectories {disk : Disk} (straight : disk.tree.Straight (directory project)) :
    ((createDirectories (directory project) : StateM Disk _) disk).2.tree.seen (path project) =
      disk.tree.seen (path project) := by
  refine (Disk.createDirectories_keeps (P := fun tree => tree.Straight (directory project) ∧
    tree.seen (path project) = disk.tree.seen (path project)) ?_ disk ⟨straight, rfl⟩).2
  rintro above member tree after ⟨straight, same⟩ created
  have plain : '/' ∉ fileName.toList := by decide
  obtain ⟨before, now, straight⟩ := seen_createDirectory straight member created plain (by decide)
  rw [path_eq] at same ⊢
  exact ⟨straight, by rw [now, ← same, before]⟩

theorem fileAt_createDirectories (disk : Disk) (path : String) :
    ((createDirectories path : StateM Disk _) disk).2.tree.fileAt = disk.tree.fileAt :=
  Disk.createDirectories_keeps (P := fun tree => tree.fileAt = disk.tree.fileAt)
    (fun _ _ _ _ same created => by rw [fileAt_createDirectory created, same]) disk rfl

/-- Whatever is written to the staged file, the settings stay. -/
theorem write_staged {content : ByteArray}
    (written : tree.write (stagedPath project) content = .ok after) :
    ∃ place, Home after project place ∧
      Shows tree after (place ++ [stagedName]) (some (.file content)) ∧
      after.seen (path project) = tree.seen (path project) := by
  obtain ⟨_, leads, free, shown⟩ := shows_write written
  obtain ⟨place, rfl, before⟩ := home_of_target leads
  have now := before.shows shown free
  refine ⟨place, now, shown, ?_⟩
  rw [now.seen_path, before.seen_path, shown.view, Function.update_of_ne]
  simp [fileName, stagedName]

/-- Moving the staged file puts its content in the place of the settings. -/
theorem rename_staged {content : ByteArray} (home : Home tree project place)
    (staged : tree.root.view (place ++ [stagedName]) = some (.file content))
    (renamed : tree.rename (stagedPath project) (path project) = .ok after) :
    Home after project place ∧
      after.root.view (place ++ [fileName]) = some (.file content) ∧
      after.root.view (place ++ [stagedName]) = none ∧
      ∀ other, other ≠ place ++ [fileName] → other ≠ place ++ [stagedName] →
        after.fileAt other = tree.fileAt other := by
  obtain ⟨origin, aim, moved, leaves, stood, leads, free, middle, erased, put⟩ :=
    shows_rename renamed
  rw [home.stagedPath] at leaves
  rw [home.path] at leads
  cases leaves
  cases leads
  rw [staged] at stood
  cases stood
  have apart : place ++ [stagedName] ≠ place ++ [fileName] := by simp [fileName, stagedName]
  have erasable : tree.root.view (place ++ [stagedName]) ≠ some .directory := by simp [staged]
  have stillFree : middle.root.view (place ++ [fileName]) ≠ some .directory := by
    rwa [erased.view, Function.update_of_ne apart.symm]
  refine ⟨(home.shows erased erasable).shows put stillFree, ?_, ?_, fun other notHere notThere => ?_⟩
  · rw [put.view, Function.update_self]
  · rw [put.view, Function.update_of_ne apart, erased.view, Function.update_self]
  · rw [put.fileAt notHere, erased.fileAt notThere]

end

section

/-! Saving. -/

variable {project : String} {settings : Settings} {disk after : Disk}
  {result : Except StoreFault Unit}

/-- Where a run of `save` ends. -/
theorem save_cases
    (ran : (save project settings : ExceptT StoreFault (StateM Disk) Unit).run disk =
      (result, after)) :
    ∃ made, ((createDirectories (directory project) : StateM Disk _) disk).2 = made ∧
      (((∃ fault, result = .error fault) ∧ after = made) ∨
        ((∃ fault, result = .error fault) ∧ ∃ error,
          (writeText (stagedPath project) settings.json.pretty : StateM Disk _) made =
            (.error error, after)) ∨
        ∃ staged moved,
          (writeText (stagedPath project) settings.json.pretty : StateM Disk _) made =
            (.ok (), staged) ∧
          (rename (stagedPath project) (path project) : StateM Disk _) staged = (moved, after) ∧
          result = moved.mapError (.notMoved (path project))) := by
  rw [save] at ran
  refine ⟨_, rfl, ?_⟩
  rcases created : (createDirectories (directory project) : StateM Disk _) disk with
    ⟨error | _, made⟩
  · rw [run_attempt_bind_error _ _ created] at ran
    cases ran
    exact .inl ⟨⟨_, rfl⟩, rfl⟩
  · rw [run_attempt_bind_ok _ _ created] at ran
    refine .inr ?_
    rcases written : (writeText (stagedPath project) settings.json.pretty : StateM Disk _) made with
      ⟨error | _, staged⟩
    · rw [run_attempt_bind_error _ _ written] at ran
      cases ran
      exact .inl ⟨⟨_, rfl⟩, error, rfl⟩
    · rw [run_attempt_bind_ok _ _ written] at ran
      rcases renamed : (rename (stagedPath project) (path project) : StateM Disk _) staged with
        ⟨moved, last⟩
      rw [run_attempt _ renamed] at ran
      cases ran
      exact .inr ⟨staged, moved, rfl, renamed, rfl⟩

theorem answer_written (project : String) (settings : Settings) :
    answer project (some (.file settings.json.pretty.toUTF8)) = .ok settings := by
  have decodes : String.fromUTF8? settings.json.pretty.toUTF8 = some settings.json.pretty := by
    simp [String.fromUTF8?, String.fromUTF8, settings.json.pretty.isValidUTF8]
  rw [answer, decodes]
  change (parse settings.json.pretty).mapError _ = _
  rw [parse_pretty]
  rfl

/-- The settings have taken their place, and no other file has changed. -/
structure Replaced (project : String) (settings : Settings) (before after : Disk) : Prop where
  loads : ((load project : ExceptT StoreFault (StateM Disk) Settings).run after).1 = .ok settings
  places : ∃ stored staged content,
    after.tree.locate (path project) = .ok (stored, some (.file content)) ∧
    after.tree.locate (stagedPath project) = .ok (staged, none) ∧
    ∀ place, place ≠ stored → place ≠ staged → after.tree.fileAt place = before.tree.fileAt place

theorem replaced_of_moved {made staged : Disk} {place : List String}
    (created : made.tree.fileAt = disk.tree.fileAt)
    (written : Shows made.tree staged.tree (place ++ [stagedName])
      (some (.file settings.json.pretty.toUTF8)))
    (home : Home staged.tree project place)
    (renamed : staged.tree.rename (stagedPath project) (path project) = .ok after.tree) :
    Replaced project settings disk after := by
  have stands : staged.tree.root.view (place ++ [stagedName]) =
      some (.file settings.json.pretty.toUTF8) := by
    rw [written.view, Function.update_self]
  obtain ⟨now, stored, gone, others⟩ := rename_staged home stands renamed
  refine ⟨?_, place ++ [fileName], place ++ [stagedName], settings.json.pretty.toUTF8, ?_, ?_, ?_⟩
  · rw [run_load, now.seen_path, stored, answer_written]
  · rw [locate_eq_ok now.path, FileNode.at?_of_view stored]
  · rw [locate_eq_ok now.stagedPath, Option.map_eq_none_iff.mp gone]
  · intro other notStored notStaged
    rw [others other notStored notStaged, written.fileAt notStaged, created]

/-- What is loaded is what was loaded before, unless the project could not be found before, and no
file has changed but the staged one. -/
structure Retained (project : String) (before after : Disk) : Prop where
  /-- A path that steps back out of a missing directory leads nowhere until that directory is made. -/
  loads : ((load project : ExceptT StoreFault (StateM Disk) Settings).run after).1 =
      ((load project : ExceptT StoreFault (StateM Disk) Settings).run before).1 ∨
    ¬ before.tree.Straight project ∧
      ((load project : ExceptT StoreFault (StateM Disk) Settings).run before).1 = .ok {}
  places : ∀ place, after.tree.fileAt place ≠ before.tree.fileAt place →
    ∃ node, after.tree.locate (stagedPath project) = .ok (place, node)

theorem retained_of_seen {made : Disk}
    (created : ((createDirectories (directory project) : StateM Disk _) disk).2 = made)
    (same : after.tree.seen (path project) = made.tree.seen (path project))
    (places : ∀ place, after.tree.fileAt place ≠ made.tree.fileAt place →
      ∃ node, after.tree.locate (stagedPath project) = .ok (place, node)) :
    Retained project disk after where
  loads := by
    rw [run_load, run_load, same, ← created]
    by_cases straight : disk.tree.Straight (directory project)
    · exact .inl (by rw [seen_createDirectories straight])
    · refine .inr ⟨fun isStraight => straight (isStraight.entryPath (by decide) (by decide)), ?_⟩
      have unseen : disk.tree.seen (path project) = none := by
        by_contra present
        rw [path_eq] at present
        exact straight ((straight_of_seen present).of_append_slash (directory_ne_empty project))
      rw [unseen]
      rfl
  places := by rwa [← created, fileAt_createDirectories] at places

theorem retained_of_staged {made : Disk} {content : ByteArray}
    (created : ((createDirectories (directory project) : StateM Disk _) disk).2 = made)
    (written : made.tree.write (stagedPath project) content = .ok after.tree) :
    Retained project disk after := by
  obtain ⟨place, home, shown, same⟩ := write_staged written
  refine retained_of_seen created same fun other changed => ?_
  have here : other = place ++ [stagedName] := by
    by_contra apart
    exact changed (shown.fileAt apart)
  exact ⟨_, here ▸ locate_eq_ok home.stagedPath⟩

/-- Saving replaces the settings, or retains what is loaded. -/
theorem load_save (project : String) (settings : Settings) (disk : Disk) :
    match (save project settings : ExceptT StoreFault (StateM Disk) Unit).run disk with
    | (.ok (), after) => Replaced project settings disk after
    | (.error _, after) => Retained project disk after := by
  cases ran : (save project settings : ExceptT StoreFault (StateM Disk) Unit).run disk with
  | mk result after =>
  obtain ⟨made, created, ended⟩ := save_cases ran
  rcases ended with ⟨⟨_, rfl⟩, rfl⟩ | ⟨⟨_, rfl⟩, error, written⟩ |
    ⟨staged, moved, written, renamed, rfl⟩
  · exact retained_of_seen created rfl fun _ changed => absurd rfl changed
  -- A failed write may have left anything in the staged file, but nowhere else.
  · rcases Disk.writeText_cases written with ⟨done, _⟩ | ⟨_, same | ⟨torn, changed⟩⟩
    · cases done
    · exact retained_of_seen created (by rw [same]) fun _ changed => absurd (by rw [same]) changed
    · exact retained_of_staged created changed
  · rcases Disk.writeText_cases written with ⟨_, changed⟩ | ⟨⟨_, failed⟩, _⟩
    · rcases Disk.rename_cases renamed with ⟨rfl, moved⟩ | ⟨⟨_, rfl⟩, still⟩
      · obtain ⟨place, home, shown, _⟩ := write_staged changed
        have files : made.tree.fileAt = disk.tree.fileAt := by
          rw [← created, fileAt_createDirectories]
        exact replaced_of_moved files shown home moved
      · exact retained_of_staged created (still ▸ changed)
    · cases failed

section

/-! A save that is done, one that fails, and one whose failure shows. -/

/-- A project without settings. -/
def emptyDisk : Disk where
  tree := { root := .directory [("shop", .empty)] }

/-- A project with settings, on a disk without room for others. -/
def fullDisk : Disk where
  tree := { root := .directory [("shop", .directory [(".apiref", .directory
    [("config.json", .file "\x7b\"strict\": true\x7d".toUTF8)])])] }
  mishaps := [none, some { error := .other "No space left on device (os error 28)"
                           remains := some "\x7b".toUTF8 }]

/-- Settings beside which a directory stands where they are staged. -/
def blockedDisk : Disk where
  tree := { root := .directory [(".apiref", .directory
    [("config.json", .file "\x7b\"strict\": true\x7d".toUTF8),
     ("config.json.partial", .empty)])] }

theorem load_save_shop :
    (∃ after, (save "shop" { strict := true } : ExceptT StoreFault (StateM Disk) Unit).run
        emptyDisk = (.ok (), after) ∧ Replaced "shop" { strict := true } emptyDisk after) ∧
      ∃ after, (save "shop" {} : ExceptT StoreFault (StateM Disk) Unit).run fullDisk =
          (.error (.notWritten "shop/.apiref/config.json.partial"
            (.other "No space left on device (os error 28)")), after) ∧
        Retained "shop" fullDisk after ∧
        ((load "shop" : ExceptT StoreFault (StateM Disk) Settings).run after).1 =
          ((load "shop" : ExceptT StoreFault (StateM Disk) Settings).run fullDisk).1 := by
  have saved := load_save "shop" { strict := true } emptyDisk
  have failed : Retained "shop" fullDisk _ := load_save "shop" {} fullDisk
  have straight : fullDisk.tree.Straight "shop" := straight_of_not_mem (by decide)
  exact ⟨⟨_, rfl, saved⟩, _, rfl, failed, failed.loads.resolve_right fun lost => lost.1 straight⟩

/-- A project that is reached through a directory that is missing has no settings, until a save that
fails has made the directory. -/
theorem load_save_detoured :
    ¬ ∀ (project : String) (settings : Settings) (disk : Disk),
      match (save project settings : ExceptT StoreFault (StateM Disk) Unit).run disk with
      | (.ok (), after) => Replaced project settings disk after
      | (.error _, after) =>
          ((load project : ExceptT StoreFault (StateM Disk) Settings).run after).1 =
            ((load project : ExceptT StoreFault (StateM Disk) Settings).run disk).1 := by
  intro unchanged
  have same : (.ok { strict := true } : Except StoreFault Settings) = .ok {} :=
    unchanged "missing/.." {} blockedDisk
  cases same

end

end

end ApiLinker.Settings
