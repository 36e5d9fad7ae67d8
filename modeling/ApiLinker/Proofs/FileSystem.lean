import ApiLinker.FileSystem
import ApiLinker.Proofs.Pointer

/-!
Paths in file systems, and creating the directories above them.

What stands above a path is the path cut off at a slash (`FileSystem.mem_ancestors`).  Ensuring
directories keeps whatever each creation keeps (`FileSystem.ensureFirst_keeps`).
-/

namespace ApiLinker

namespace Pointer

theorem splitSlashes_ne_nil (text : List Char) : splitSlashes text ≠ [] := by
  cases text with
  | nil => exact List.cons_ne_nil _ _
  | cons c rest =>
      rw [splitSlashes]
      split
      · exact List.cons_ne_nil _ _
      · split <;> exact List.cons_ne_nil _ _

theorem splitSlashes_append_slash (front back : List Char) :
    splitSlashes (front ++ '/' :: back) = splitSlashes front ++ splitSlashes back := by
  induction front with
  | nil => simp [splitSlashes]
  | cons c front ih =>
      by_cases isSlash : c = '/'
      · simp [splitSlashes, isSlash, ih]
      · rw [List.cons_append, splitSlashes, splitSlashes, if_neg isSlash, if_neg isSlash, ih]
        cases split : splitSlashes front with
        | nil => exact absurd split (splitSlashes_ne_nil front)
        | cons => rfl

theorem intercalate_splitSlashes (text : List Char) :
    List.intercalate ['/'] (splitSlashes text) = text := by
  induction text with
  | nil => rfl
  | cons c rest ih =>
      rw [splitSlashes]
      split
      · next isSlash =>
          cases split : splitSlashes rest with
          | nil => exact absurd split (splitSlashes_ne_nil rest)
          | cons piece pieces =>
              rw [List.intercalate_cons_cons, ← split, ih, isSlash]
              rfl
      · cases split : splitSlashes rest with
        | nil => exact absurd split (splitSlashes_ne_nil rest)
        | cons piece pieces =>
            rw [split] at ih
            rw [← ih]
            cases pieces <;> simp [List.intercalate]

end Pointer

namespace FileSystem

theorem pieces_append_slash (front back : String) :
    pieces (front ++ "/" ++ back) = pieces front ++ pieces back := by
  have slash : ("/" : String).toList = ['/'] := rfl
  simp only [pieces, String.toList_append, slash, List.append_assoc, List.singleton_append,
    Pointer.splitSlashes_append_slash, List.map_append]

theorem pieces_of_not_mem {name : String} (plain : '/' ∉ name.toList) : pieces name = [name] := by
  simp [pieces, Pointer.splitSlashes_of_not_mem plain]

/-- An entry of a directory is reached by the directory's pieces, less an empty last one, and by
its name. -/
theorem pieces_entryPath (path : String) {name : String} (plain : '/' ∉ name.toList) :
    ∃ front back, pieces path = front ++ back ∧ pieces (entryPath path name) = front ++ [name] := by
  have alone := pieces_of_not_mem plain
  rw [entryPath]
  split
  · next empty =>
      have empty : path = "" := by simpa using empty
      exact ⟨[], _, rfl, by rw [empty, String.empty_append, alone, List.nil_append]⟩
  · next slash =>
      obtain ⟨base, split⟩ := List.getLast?_eq_some_iff.mp slash
      obtain rfl : path = String.ofList base ++ "/" ++ "" := by
        rw [← String.toList_inj, split]
        simp
      refine ⟨pieces (String.ofList base), pieces "", pieces_append_slash _ _, ?_⟩
      rw [String.append_empty, pieces_append_slash, alone]
  · exact ⟨pieces path, [], (List.append_nil _).symm, by rw [pieces_append_slash, alone]⟩

theorem entryPath_eq_append (path name : String) : ∃ rest, entryPath path name = path ++ rest := by
  rw [entryPath]
  split
  · exact ⟨name, rfl⟩
  · exact ⟨name, rfl⟩
  · exact ⟨"/" ++ name, String.append_assoc ..⟩

theorem intercalate_pieces (path : String) : "/".intercalate (pieces path) = path := by
  have slash : ("/" : String).toList = ['/'] := rfl
  have chars : (pieces path).map String.toList = Pointer.splitSlashes path.toList := by
    simp [pieces, Function.comp_def]
  rw [← String.toList_inj, String.toList_intercalate, slash, chars,
    Pointer.intercalate_splitSlashes]

theorem intercalate_append {front back : List String} (some : front ≠ []) (more : back ≠ []) :
    "/".intercalate (front ++ back) = "/".intercalate front ++ "/" ++ "/".intercalate back := by
  obtain ⟨piece, back, rfl⟩ := List.exists_cons_of_ne_nil more
  simp only [← String.toList_inj, String.toList_append, String.toList_intercalate, List.map_append,
    List.map_cons]
  induction front with
  | nil => exact absurd rfl some
  | cons first front ih =>
      cases front with
      | nil => simp [List.intercalate]
      | cons second front =>
          have rest := ih (List.cons_ne_nil second front)
          simp only [List.map_cons, List.cons_append, List.intercalate_cons_cons,
            List.append_assoc] at rest ⊢
          rw [rest]

theorem mem_upward {path : String} {reversed : List String} (member : path ∈ upward reversed) :
    ∃ front back, front ≠ [] ∧ reversed.reverse = front ++ back ∧ path = "/".intercalate front := by
  induction reversed with
  | nil => cases member
  | cons last above ih =>
      rcases List.mem_cons.mp member with rfl | above
      · exact ⟨_, [], by simp, (List.append_nil _).symm, rfl⟩
      · obtain ⟨front, back, some, split, rfl⟩ := ih above
        exact ⟨front, back ++ [last], some, by rw [List.reverse_cons, split, List.append_assoc], rfl⟩

/-- What stands above a path is the path cut off at a slash. -/
theorem mem_ancestors {path above : String} (member : above ∈ ancestors path) :
    above ≠ "" ∧ (above = path ∨ ∃ rest, path = above ++ "/" ++ rest) := by
  obtain ⟨member, present⟩ := List.mem_filter.mp member
  refine ⟨by simpa using present, ?_⟩
  obtain ⟨front, back, some, split, rfl⟩ := mem_upward member
  rw [List.reverse_reverse] at split
  cases back with
  | nil => exact .inl (by rw [← intercalate_pieces path, split, List.append_nil])
  | cons piece back =>
      refine .inr ⟨"/".intercalate (piece :: back), ?_⟩
      rw [← intercalate_append some (List.cons_ne_nil piece back), ← split, intercalate_pieces]

section

/-! What is kept by every step is kept by all of them. -/

variable {σ α β : Type} {P : σ → Prop}

/-- What holds before an action holds after it. -/
def Keeps (P : σ → Prop) (action : StateM σ α) : Prop :=
  ∀ state, P state → P (action state).2

theorem keeps_pure (value : α) : Keeps P (pure value : StateM σ α) :=
  fun _ holds => holds

theorem Keeps.bind {action : StateM σ α} {next : α → StateM σ β} (first : Keeps P action)
    (rest : ∀ value, Keeps P (next value)) : Keeps P (action >>= next) :=
  fun state holds => rest _ _ (first state holds)

variable [FileSystem (StateM σ)]

theorem ensureDirectory_keeps {path : String}
    (creates : Keeps P (createDirectory path : StateM σ _))
    (looks : Keeps P (isDirectory path : StateM σ _)) :
    Keeps P (ensureDirectory path : StateM σ _) := by
  refine creates.bind fun result => ?_
  split
  · refine looks.bind fun isThere => ?_
    cases isThere <;> exact keeps_pure _
  · exact keeps_pure _

theorem ensureFirst_keeps {paths : List String}
    (creates : ∀ path ∈ paths, Keeps P (createDirectory path : StateM σ _))
    (looks : ∀ path ∈ paths, Keeps P (isDirectory path : StateM σ _)) :
    Keeps P (ensureFirst paths : StateM σ _) := by
  induction paths with
  | nil => exact keeps_pure _
  | cons path above ih =>
      obtain ⟨first, creates⟩ := List.forall_mem_cons.mp creates
      obtain ⟨look, looks⟩ := List.forall_mem_cons.mp looks
      have ensures := ensureDirectory_keeps first look
      refine ensures.bind fun result => ?_
      split
      · refine (ih creates looks).bind fun result => ?_
        split
        · exact ensures
        · exact keeps_pure _
      · exact keeps_pure _

end

section

/-! Runs that an operation may end. -/

variable {σ ε α β : Type}

theorem run_lift_bind (action : StateM σ α) (next : α → ExceptT ε (StateM σ) β) (state : σ) :
    (liftM action >>= next : ExceptT ε (StateM σ) β).run state =
      (next (action state).1).run (action state).2 := rfl

theorem run_attempt (cause : SystemError → ε) {operation : StateM σ (Except SystemError α)}
    {state later : σ} {result : Except SystemError α} (ran : operation state = (result, later)) :
    (attempt cause operation : ExceptT ε (StateM σ) α).run state =
      (result.mapError cause, later) := by
  change ((operation state).1.mapError cause, (operation state).2) = _
  rw [ran]

variable (cause : SystemError → ε) (next : α → ExceptT ε (StateM σ) β)
variable {operation : StateM σ (Except SystemError α)} {state later : σ}

theorem run_attempt_bind_ok {value : α} (ran : operation state = (.ok value, later)) :
    (attempt cause operation >>= next).run state = (next value).run later :=
  congrArg (fun pair : Except ε α × σ => (ExceptT.bindCont next pair.1) pair.2)
    (run_attempt cause ran)

/-- After an operation that failed the run ends. -/
theorem run_attempt_bind_error {error : SystemError} (ran : operation state = (.error error, later)) :
    (attempt cause operation >>= next).run state = (.error (cause error), later) :=
  congrArg (fun pair : Except ε α × σ => (ExceptT.bindCont next pair.1) pair.2)
    (run_attempt cause ran)

end

end FileSystem

end ApiLinker
