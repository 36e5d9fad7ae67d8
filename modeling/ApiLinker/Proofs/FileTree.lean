import ApiLinker.FileTree
import ApiLinker.Proofs.FileNode
import ApiLinker.Proofs.FileSystem
import ApiLinker.Proofs.Outcome

/-!
Paths in file trees.

A path goes by what is seen (`FileTree.locate_eq`), and every operation that succeeds changes what is
seen at one place, or at two if it moves a file.  A path that does not step back out of a missing
directory leads to nothing new when such a directory is made (`FileTree.seen_createDirectory`).
-/

namespace ApiLinker

/-- The place to which a piece of a path leads on. -/
def View.enter (view : View) (place : List String) (piece : String) :
    Except SystemError (List String) :=
  match view place with
  | none => .error .notFound
  | some (.file _) => .error .notADirectory
  | some .directory =>
      if piece = "" || piece = "." then .ok place
      else if piece = ".." then .ok place.dropLast
      else if FileSystem.nameLimit < piece.utf8ByteSize then .error .nameTooLong
      else .ok (place ++ [piece])

/-- The place to which pieces lead on, one after the other. -/
def View.walk (view : View) (place : List String) (pieces : List String) :
    Except SystemError (List String) :=
  pieces.foldlM view.enter place

namespace View

variable {view later : View} {start place : List String} {piece : String} {pieces : List String}

theorem walk_cons (view : View) (start : List String) (piece : String) (rest : List String) :
    view.walk start (piece :: rest) = view.enter start piece >>= fun place => view.walk place rest :=
  List.foldlM_cons

theorem walk_append (view : View) (start front back : List String) :
    view.walk start (front ++ back) = view.walk start front >>= fun place => view.walk place back :=
  List.foldlM_append

/-- Only directories are entered. -/
theorem directory_of_enter (entered : view.enter start piece = .ok place) :
    view start = some .directory := by
  cases seen : view start with
  | none => simp [enter, seen] at entered
  | some sight =>
      cases sight with
      | directory => rfl
      | file => simp [enter, seen] at entered

/-- A piece leads on by its name, unless it leads to a directory that stands above or here. -/
theorem enter_eq_ok (entered : view.enter start piece = .ok place) :
    place = start ++ [piece] ∨ (piece = "" ∨ piece = ".") ∧ place = start ∨
      piece = ".." ∧ place = start.dropLast := by
  rw [enter, directory_of_enter entered] at entered
  simp only [Bool.or_eq_true, decide_eq_true_eq] at entered
  split at entered
  · next stays =>
      cases entered
      exact .inr (.inl ⟨stays, rfl⟩)
  · split at entered
    · next leaves =>
        cases entered
        exact .inr (.inr ⟨leaves, rfl⟩)
    · split at entered
      · cases entered
      · cases entered
        exact .inl rfl

theorem enter_proper (proper : piece ∉ ["", ".", ".."])
    (entered : view.enter start piece = .ok place) : place = start ++ [piece] := by
  simp only [List.mem_cons, List.not_mem_nil, or_false, not_or] at proper
  rcases enter_eq_ok entered with same | ⟨stays | stays, _⟩ | ⟨leaves, _⟩
  · exact same
  · exact absurd stays proper.1
  · exact absurd stays proper.2.1
  · exact absurd leaves proper.2.2

theorem enter_name (isDirectory : view place = some .directory) (proper : piece ∉ ["", ".", ".."])
    (short : piece.utf8ByteSize ≤ FileSystem.nameLimit) :
    view.enter place piece = .ok (place ++ [piece]) := by
  simp only [List.mem_cons, List.not_mem_nil, or_false, not_or] at proper
  simp [enter, isDirectory, proper, Nat.not_lt.mpr short]

/-- What is not a directory is not left. -/
theorem walk_of_not_directory (unseen : view start = none) (more : pieces ≠ []) :
    view.walk start pieces = .error .notFound := by
  obtain ⟨piece, rest, rfl⟩ := List.exists_cons_of_ne_nil more
  rw [walk_cons, enter, unseen]
  rfl

/-- Without a step back a path leads to what stands below. -/
theorem walk_below (straight : ".." ∉ pieces) (walks : view.walk start pieces = .ok place) :
    ∃ rest, place = start ++ rest := by
  induction pieces generalizing start with
  | nil =>
      cases walks
      exact ⟨[], (List.append_nil _).symm⟩
  | cons piece rest ih =>
      simp only [List.mem_cons, not_or] at straight
      rw [walk_cons] at walks
      obtain ⟨next, entered, walks⟩ := Outcome.bind_eq_ok walks
      obtain ⟨names, rfl⟩ := ih straight.2 walks
      rcases enter_eq_ok entered with rfl | ⟨_, rfl⟩ | ⟨back, _⟩
      · exact ⟨piece :: names, by simp⟩
      · exact ⟨names, rfl⟩
      · exact absurd back.symm straight.1

/-- The pieces lead to nothing. -/
def Missing (view : View) (start : List String) (pieces : List String) : Prop :=
  view.walk start pieces = .error .notFound ∨
    ∃ place, view.walk start pieces = .ok place ∧ view place = none

theorem Missing.append {front back : List String} (missing : view.Missing start front)
    (more : back ≠ []) : view.walk start (front ++ back) = .error .notFound := by
  rw [walk_append]
  rcases missing with failed | ⟨place, walks, unseen⟩
  · rw [failed]
    rfl
  · rw [walks]
    exact walk_of_not_directory unseen more

theorem Missing.extend {front : List String} (missing : view.Missing start front)
    (back : List String) : view.Missing start (front ++ back) := by
  cases back with
  | nil => rwa [List.append_nil]
  | cons piece rest => exact .inl (missing.append (List.cons_ne_nil piece rest))

/-- Where directories stay, paths still lead to where they led. -/
theorem walk_of_directories
    (stay : ∀ place, view place = some .directory → later place = some .directory)
    (walks : view.walk start pieces = .ok place) : later.walk start pieces = .ok place := by
  induction pieces generalizing start with
  | nil => exact walks
  | cons piece rest ih =>
      rw [walk_cons] at walks ⊢
      obtain ⟨next, entered, walks⟩ := Outcome.bind_eq_ok walks
      have isDirectory := directory_of_enter entered
      have enters : later.enter start piece = .ok next := by
        rw [← entered, enter, enter, isDirectory, stay start isDirectory]
      rw [enters]
      exact ih walks

/-- Where nothing goes that is there, paths lead as they did unless they led nowhere. -/
theorem walk_of_present (stay : ∀ place, view place ≠ none → later place = view place)
    (found : view.walk start pieces ≠ .error .notFound) :
    later.walk start pieces = view.walk start pieces := by
  induction pieces generalizing start with
  | nil => rfl
  | cons piece rest ih =>
      rw [walk_cons] at found ⊢
      have present : view start ≠ none := fun missing => found (by rw [enter, missing]; rfl)
      have enters : later.enter start piece = view.enter start piece := by
        rw [enter, enter, stay start present]
      rw [walk_cons, enters]
      cases entered : view.enter start piece with
      | error => rfl
      | ok next =>
          rw [entered] at found
          exact ih found

end View

namespace FileTree

/-- Where a path goes out from. -/
def start (tree : FileTree) (path : String) : List String :=
  if path.toList.head? = some '/' then [] else tree.workingDirectory

/-- The place to which a path leads. -/
def target (tree : FileTree) (path : String) : Except SystemError (List String) :=
  if path.toList.contains '\x00' then .error .nullInPath
  else if FileSystem.pathLimit < path.utf8ByteSize then .error .nameTooLong
  else if path = "" then .error .notFound
  else tree.root.view.walk (tree.start path) (FileSystem.pieces path)

/-- What stands where a path leads. -/
def seen (tree : FileTree) (path : String) : Option Sight :=
  match tree.target path with
  | .ok place => tree.root.view place
  | .error _ => none

/-- The content of the file at a place. -/
def fileAt (tree : FileTree) (place : List String) : Option ByteArray :=
  (tree.root.view place).bind Sight.content?

theorem follow_eq (root : FileNode) (place : List String) (pieces : List String) :
    follow root place (root.at? place.reverse) pieces =
      (fun found => (found, root.at? found)) <$> root.view.walk place.reverse pieces := by
  induction pieces generalizing place with
  | nil => rfl
  | cons piece rest ih =>
      rw [View.walk_cons, View.enter, FileNode.view]
      cases found : root.at? place.reverse with
      | none => rfl
      | some node =>
          cases node with
          | file => rfl
          | directory entries =>
              have below : Table.find? piece entries = root.at? (piece :: place).reverse := by
                rw [List.reverse_cons, FileNode.at?_append, found, Option.bind_some,
                  FileNode.at?_singleton]
                rfl
              have above : place.tail.reverse = place.reverse.dropLast := by simp
              rw [follow, ← found, ih, ih, below, ih, above, List.reverse_cons]
              simp only [found, Option.map_some, FileNode.sight]
              split
              · rfl
              · split
                · rfl
                · split <;> rfl

theorem locate_eq (tree : FileTree) (path : String) :
    tree.locate path = (fun found => (found, tree.root.at? found)) <$> tree.target path := by
  rw [locate, target]
  split
  · rfl
  · split
    · rfl
    · cases first : path.toList.head? with
      | none =>
          have empty : path = "" := by simpa using first
          rw [if_pos empty]
          rfl
      | some c =>
          have present : path ≠ "" := fun empty => by simp [empty] at first
          rw [if_neg present, start, first]
          by_cases isSlash : c = '/'
          · subst isSlash
            exact follow_eq tree.root [] _
          · have leaves := follow_eq tree.root tree.workingDirectory.reverse
              (FileSystem.pieces path)
            rw [List.reverse_reverse] at leaves
            simpa [isSlash] using leaves

section

/-! Changes. -/

variable {tree after : FileTree} {path : String} {place : List String}

theorem target_eq_ok : tree.target path = .ok place ↔
    ('\x00' ∉ path.toList ∧ path.utf8ByteSize ≤ FileSystem.pathLimit ∧ path ≠ "") ∧
      tree.root.view.walk (tree.start path) (FileSystem.pieces path) = .ok place := by
  rw [target]
  split
  · next null => simp [List.contains_iff_mem.mp null]
  · next plain =>
      split
      · next long => simp [Nat.not_le.mpr long]
      · next fits =>
          split
          · next empty => simp [empty]
          · next present =>
              have nullFree : '\x00' ∉ path.toList := fun null =>
                plain (List.contains_iff_mem.mpr null)
              simp [nullFree, Nat.not_lt.mp fits, present]

theorem locate_eq_ok (leads : tree.target path = .ok place) :
    tree.locate path = .ok (place, tree.root.at? place) := by
  rw [locate_eq, leads]
  rfl

/-- Where no directory stands, a path leads from a directory by a name. -/
theorem exists_above (leads : tree.target path = .ok place)
    (free : tree.root.view place ≠ some .directory) :
    ∃ above name, place = above ++ [name] ∧ tree.root.view above = some .directory := by
  have walks := (target_eq_ok.mp leads).2
  have some : FileSystem.pieces path ≠ [] := by
    simpa [FileSystem.pieces] using Pointer.splitSlashes_ne_nil path.toList
  rw [← List.dropLast_concat_getLast some, View.walk_append] at walks
  obtain ⟨above, _, walks⟩ := Outcome.bind_eq_ok walks
  rw [View.walk_cons] at walks
  obtain ⟨next, entered, walks⟩ := Outcome.bind_eq_ok walks
  cases walks
  have isDirectory := View.directory_of_enter entered
  rcases View.enter_eq_ok entered with split | ⟨_, rfl⟩ | ⟨_, rfl⟩
  · exact ⟨above, _, split, isDirectory⟩
  · exact absurd isDirectory free
  · exact absurd (FileNode.view_dropLast isDirectory) free

/-- The tree `after` shows something else at one place. -/
structure Shows (before after : FileTree) (place : List String) (sight : Option Sight) : Prop where
  workingDirectory : after.workingDirectory = before.workingDirectory
  view : after.root.view = Function.update before.root.view place sight

theorem shows_put {new : FileNode} (bare : new.Bare) {above : List String} {name : String}
    (isDirectory : tree.root.view above = some .directory)
    (free : tree.root.view (above ++ [name]) ≠ some .directory) :
    Shows tree (tree.put (above ++ [name]) new) (above ++ [name]) (some new.sight) :=
  ⟨rfl, FileNode.view_put bare isDirectory free⟩

theorem shows_erase {above : List String} {name : String}
    (isDirectory : tree.root.view above = some .directory)
    (free : tree.root.view (above ++ [name]) ≠ some .directory) :
    Shows tree (tree.erase (above ++ [name])) (above ++ [name]) none :=
  ⟨rfl, FileNode.view_erase isDirectory free⟩

/-- Other directories stay. -/
theorem Shows.directory {sight : Option Sight} (shown : Shows tree after place sight)
    (free : tree.root.view place ≠ some .directory) {other : List String}
    (isDirectory : tree.root.view other = some .directory) :
    after.root.view other = some .directory := by
  rw [shown.view, Function.update_of_ne, isDirectory]
  rintro rfl
  exact free isDirectory

/-- Other files stay as they are. -/
theorem Shows.fileAt {sight : Option Sight} (shown : Shows tree after place sight)
    {other : List String} (apart : other ≠ place) : after.fileAt other = tree.fileAt other := by
  rw [FileTree.fileAt, shown.view, Function.update_of_ne apart, FileTree.fileAt]

theorem shows_createDirectory (created : tree.createDirectory path = .ok after) :
    ∃ place, tree.target path = .ok place ∧ tree.root.view place = none ∧
      Shows tree after place (some .directory) := by
  rw [createDirectory, locate_eq] at created
  obtain ⟨⟨place, node⟩, located, created⟩ := Outcome.bind_eq_ok created
  obtain ⟨_, leads, same⟩ := Outcome.map_eq_ok located
  cases same
  cases found : tree.root.at? place with
  | some node =>
      rw [found] at created
      cases created
  | none =>
      rw [found] at created
      cases created
      have unseen : tree.root.view place = none := by rw [FileNode.view, found]; rfl
      have free : tree.root.view place ≠ some .directory := by simp [unseen]
      obtain ⟨above, name, rfl, isDirectory⟩ := exists_above leads free
      exact ⟨_, leads, unseen, shows_put FileNode.bare_empty isDirectory free⟩

/-- A directory that is created changes no file. -/
theorem fileAt_createDirectory (created : tree.createDirectory path = .ok after) :
    after.fileAt = tree.fileAt := by
  obtain ⟨place, _, unseen, shown⟩ := shows_createDirectory created
  funext other
  by_cases here : other = place
  · rw [here, fileAt, fileAt, shown.view, Function.update_self, unseen]
    rfl
  · exact shown.fileAt here

/-- No file is put where a directory stands. -/
theorem free_of_replaced {location : Location} {replace : List String → FileTree}
    (replaced : (match location with
      | (_, some (.directory _)) => .error .isADirectory
      | (place, some (.file _)) | (place, none) => .ok (replace place)) =
        (.ok after : Except SystemError FileTree)) :
    location.2.map FileNode.sight ≠ some .directory ∧ after = replace location.1 := by
  obtain ⟨place, node⟩ := location
  cases node with
  | none =>
      cases replaced
      exact ⟨nofun, rfl⟩
  | some node =>
      cases node with
      | directory => cases replaced
      | file =>
          cases replaced
          exact ⟨nofun, rfl⟩

theorem shows_write {content : ByteArray} (written : tree.write path content = .ok after) :
    ∃ place, tree.target path = .ok place ∧ tree.root.view place ≠ some .directory ∧
      Shows tree after place (some (.file content)) := by
  rw [write, locate_eq] at written
  obtain ⟨_, located, written⟩ := Outcome.bind_eq_ok written
  obtain ⟨place, leads, rfl⟩ := Outcome.map_eq_ok located
  obtain ⟨free, rfl⟩ := free_of_replaced written
  obtain ⟨above, name, rfl, isDirectory⟩ := exists_above leads free
  exact ⟨_, leads, free, shows_put (FileNode.bare_file content) isDirectory free⟩

theorem target_of_lookup {node : FileNode} (found : tree.lookup path = .ok node) :
    ∃ place, tree.target path = .ok place ∧ tree.root.view place = some node.sight := by
  rw [lookup, locate_eq] at found
  obtain ⟨_, located, found⟩ := Outcome.bind_eq_ok found
  obtain ⟨place, leads, rfl⟩ := Outcome.map_eq_ok located
  refine ⟨place, leads, ?_⟩
  rw [FileNode.view]
  cases here : tree.root.at? place with
  | none =>
      rw [here] at found
      cases found
  | some node =>
      rw [here] at found
      cases found
      rfl

/-- What is looked up is what is seen. -/
theorem lookup_cases (tree : FileTree) (path : String) :
    (∃ node, tree.lookup path = .ok node ∧ tree.seen path = some node.sight) ∨
      (∃ error, tree.lookup path = .error error) ∧ tree.seen path = none := by
  rw [lookup, seen, locate_eq]
  cases tree.target path with
  | error error => exact .inr ⟨⟨error, rfl⟩, rfl⟩
  | ok place =>
      simp only [bind, Except.bind, Functor.map, Except.map, FileNode.view]
      cases tree.root.at? place with
      | none => exact .inr ⟨⟨.notFound, rfl⟩, rfl⟩
      | some node => exact .inl ⟨node, rfl, rfl⟩

theorem readText_directory {entries : Table FileNode}
    (found : tree.lookup path = .ok (.directory entries)) :
    tree.readText path = .error .isADirectory := by
  rw [readText, read, found]
  rfl

theorem readText_file {content : ByteArray} (found : tree.lookup path = .ok (.file content)) :
    tree.readText path = match String.fromUTF8? content with
      | none => .error .invalidText
      | some text => .ok text := by
  rw [readText, read, found]
  rfl

theorem target_of_read {content : ByteArray} (read : tree.read path = .ok content) :
    ∃ place, tree.target path = .ok place ∧ tree.root.view place = some (.file content) := by
  obtain ⟨node, found, read⟩ := Outcome.bind_eq_ok read
  cases node with
  | directory => cases read
  | file =>
      cases read
      exact target_of_lookup found

theorem shows_rename {source : String} (renamed : tree.rename source path = .ok after) :
    ∃ origin place content, tree.target source = .ok origin ∧
      tree.root.view origin = some (.file content) ∧ tree.target path = .ok place ∧
      tree.root.view place ≠ some .directory ∧
      ∃ middle, Shows tree middle origin none ∧ Shows middle after place (some (.file content)) := by
  rw [rename, locate_eq, locate_eq] at renamed
  obtain ⟨content, read, renamed⟩ := Outcome.bind_eq_ok renamed
  obtain ⟨origin, leaves, isFile⟩ := target_of_read read
  obtain ⟨_, located, renamed⟩ := Outcome.bind_eq_ok renamed
  rw [leaves] at located
  cases located
  obtain ⟨_, located, renamed⟩ := Outcome.bind_eq_ok renamed
  obtain ⟨place, leads, rfl⟩ := Outcome.map_eq_ok located
  obtain ⟨free, rfl⟩ := free_of_replaced renamed
  have erasable : tree.root.view origin ≠ some .directory := by simp [isFile]
  obtain ⟨above, name, rfl, isDirectory⟩ := exists_above leads free
  obtain ⟨around, left, rfl, stoodIn⟩ := exists_above leaves erasable
  have erased := shows_erase stoodIn erasable
  refine ⟨_, _, content, leaves, isFile, leads, free, _, erased, ?_⟩
  refine shows_put (FileNode.bare_file content) (erased.directory erasable isDirectory) ?_
  rw [erased.view]
  by_cases same : above ++ [name] = around ++ [left]
  · rw [same, Function.update_self]
    nofun
  · rwa [Function.update_of_ne same]

end

section

/-! Paths to what may be missing. -/

variable {tree after : FileTree} {path : String}

/-- No `..` of the path steps back out of a directory that is missing. -/
def Straight (tree : FileTree) (path : String) : Prop :=
  ∀ front back, FileSystem.pieces path = front ++ ".." :: back →
    ¬ tree.root.view.Missing (tree.start path) front

theorem straight_of_not_mem (forward : ".." ∉ FileSystem.pieces path) : tree.Straight path := by
  intro front back split
  rw [split] at forward
  exact absurd (List.mem_append_right front List.mem_cons_self) forward

/-- A path that leads somewhere is straight. -/
theorem straight_of_seen (present : tree.seen path ≠ none) : tree.Straight path := by
  intro front back split missing
  refine present ?_
  rw [seen]
  split
  · next place leads =>
      have walks := (target_eq_ok.mp leads).2
      rw [split, missing.append (List.cons_ne_nil _ _)] at walks
      cases walks
  · rfl

theorem start_append (tree : FileTree) (rest : String) (present : path ≠ "") :
    tree.start (path ++ rest) = tree.start path := by
  have some : path.toList ≠ [] := by simpa using present
  rw [start, start, String.toList_append, List.head?_append_of_ne_nil _ some]

theorem Straight.of_append_slash {rest : String} (straight : tree.Straight (path ++ "/" ++ rest))
    (present : path ≠ "") : tree.Straight path := by
  intro front back split missing
  refine straight front (back ++ FileSystem.pieces rest) ?_ ?_
  · rw [FileSystem.pieces_append_slash, split, List.append_assoc, List.cons_append]
  · rwa [String.append_assoc, start_append tree _ present]

/-- Going on to an entry is no step back. -/
theorem Straight.entryPath (straight : tree.Straight path) {name : String}
    (plain : '/' ∉ name.toList) (proper : name ≠ "..") :
    tree.Straight (FileSystem.entryPath path name) := by
  intro front back split missing
  obtain ⟨before, last, whole, entry⟩ := FileSystem.pieces_entryPath path plain
  rw [entry] at split
  rcases List.eq_nil_or_concat back with rfl | ⟨between, final, rfl⟩
  · exact proper (List.singleton_inj.mp (List.append_inj_right' split rfl))
  · have inside : before = front ++ ".." :: between := by
      rw [List.concat_eq_append, ← List.cons_append, ← List.append_assoc] at split
      exact List.append_inj_left' split rfl
    have present : path ≠ "" := by
      rintro rfl
      have member : ".." ∈ FileSystem.pieces "" := by simp [whole, inside]
      exact absurd member (by decide)
    obtain ⟨rest, longer⟩ := FileSystem.entryPath_eq_append path name
    rw [longer, start_append tree rest present] at missing
    exact straight front (between ++ last) (by rw [whole, inside]; simp) missing

/-- In a directory that is new nothing is found. -/
theorem view_of_walk_new {view later : View} {start front back place found : List String}
    {name : String} (walks : view.walk start front = .ok place)
    (unseen : ∀ rest, view (place ++ rest) = none)
    (shown : later = Function.update view place (some .directory)) (forward : ".." ∉ back)
    (proper : name ∉ ["", ".", ".."])
    (leads : later.walk start (front ++ (back ++ [name])) = .ok found) : later found = none := by
  have absent : view place = none := by simpa using unseen []
  have walksOn : later.walk start front = .ok place := by
    refine View.walk_of_directories (fun other isDirectory => ?_) walks
    rw [shown, Function.update_of_ne, isDirectory]
    rintro rfl
    rw [absent] at isDirectory
    cases isDirectory
  rw [View.walk_append, walksOn] at leads
  change later.walk place (back ++ [name]) = .ok found at leads
  rw [View.walk_append] at leads
  obtain ⟨last, below, leads⟩ := Outcome.bind_eq_ok leads
  obtain ⟨rest, rfl⟩ := View.walk_below forward below
  rw [View.walk_cons] at leads
  obtain ⟨_, entered, same⟩ := Outcome.bind_eq_ok leads
  cases same
  rw [View.enter_proper proper entered, shown, Function.update_of_ne (by simp),
    List.append_assoc, unseen]

variable {above name : String}

/-- A path with no step back out of what is missing has none either once a directory is made. -/
theorem Straight.createDirectory {place : List String} (straight : tree.Straight path)
    (unseen : tree.root.view place = none) (shown : Shows tree after place (some .directory)) :
    after.Straight path := by
  intro front back split missing
  have start : after.start path = tree.start path := by
    rw [FileTree.start, FileTree.start, shown.workingDirectory]
  have stay : ∀ other, tree.root.view other ≠ none →
      after.root.view other = tree.root.view other := fun other present => by
    rw [shown.view, Function.update_of_ne]
    rintro rfl
    exact present unseen
  refine straight front back split ?_
  by_cases failed : tree.root.view.walk (tree.start path) front = .error .notFound
  · exact .inl failed
  · rw [View.Missing, start, View.walk_of_present stay failed] at missing
    refine missing.imp_right fun ⟨found, walks, absent⟩ => ⟨found, walks, ?_⟩
    by_contra present
    exact present (stay found present ▸ absent)

theorem pieces_of_mem_ancestors (tree : FileTree) (member : above ∈ FileSystem.ancestors path) :
    ∃ back, FileSystem.pieces path = FileSystem.pieces above ++ back ∧
      tree.start path = tree.start above := by
  obtain ⟨present, rfl | ⟨rest, rfl⟩⟩ := FileSystem.mem_ancestors member
  · exact ⟨[], (List.append_nil _).symm, rfl⟩
  · exact ⟨FileSystem.pieces rest, FileSystem.pieces_append_slash above rest,
      by rw [String.append_assoc, start_append tree _ present]⟩

/-- Before what is missing the path has no step back. -/
theorem Straight.not_mem {front back place : List String} (straight : tree.Straight path)
    (split : FileSystem.pieces path = front ++ back)
    (walks : tree.root.view.walk (tree.start path) front = .ok place)
    (unseen : tree.root.view place = none) : ".." ∉ back := by
  intro member
  obtain ⟨between, rest, rfl⟩ := List.append_of_mem member
  refine straight (front ++ between) rest (by rw [split, List.append_assoc]) ?_
  exact View.Missing.extend (.inr ⟨place, walks, unseen⟩) between

/-- A directory that is created above a path lets nothing be found there. -/
theorem seen_createDirectory (straight : tree.Straight path)
    (member : above ∈ FileSystem.ancestors path) (created : tree.createDirectory above = .ok after)
    (plain : '/' ∉ name.toList) (proper : name ∉ ["", ".", ".."]) :
    tree.seen (path ++ "/" ++ name) = none ∧ after.seen (path ++ "/" ++ name) = none ∧
      after.Straight path := by
  obtain ⟨place, leads, unseen, shown⟩ := shows_createDirectory created
  have walks := (target_eq_ok.mp leads).2
  obtain ⟨back, split, starts⟩ := pieces_of_mem_ancestors tree member
  have whole : FileSystem.pieces (path ++ "/" ++ name) =
      FileSystem.pieces above ++ (back ++ [name]) := by
    rw [FileSystem.pieces_append_slash, FileSystem.pieces_of_not_mem plain, split,
      List.append_assoc]
  have present : path ≠ "" := by
    obtain ⟨some, same | ⟨rest, same⟩⟩ := FileSystem.mem_ancestors member
    · exact same ▸ some
    · simp [same]
  have leaves (tree : FileTree) : tree.start (path ++ "/" ++ name) = tree.start path := by
    rw [String.append_assoc, start_append tree _ present]
  refine ⟨?_, ?_, straight.createDirectory unseen shown⟩
  -- Before, the path breaks off in front of the missing directory; after, it ends in a new one.
  · rw [seen]
    split
    · next found leadsOn =>
        have never := (target_eq_ok.mp leadsOn).2
        rw [leaves, starts, whole, View.Missing.append (.inr ⟨place, walks, unseen⟩)
          (by simp)] at never
        cases never
    · rfl
  · rw [seen]
    split
    · next found leadsOn =>
        have walksOn := (target_eq_ok.mp leadsOn).2
        have sameStart : after.start path = tree.start path := by
          rw [start, start, shown.workingDirectory]
        rw [leaves, sameStart, starts, whole] at walksOn
        refine view_of_walk_new walks (fun rest => ?_) shown.view
          (straight.not_mem split (starts ▸ walks) unseen) proper walksOn
        cases rest with
        | nil => rwa [List.append_nil]
        | cons first rest => exact FileNode.view_below (List.cons_ne_nil _ _) (by simp [unseen])
    · rfl

end

end FileTree

end ApiLinker
