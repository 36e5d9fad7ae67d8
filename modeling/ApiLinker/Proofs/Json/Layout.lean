import ApiLinker.Json.Printer
import ApiLinker.Proofs.Json.Digits
import Mathlib.Data.List.Nodup

/-!
Two JSON values laid out alike.

`Json.at?` evaluates a path on a value.  `Json.SameBut` relates values that are equal but for the
spots where they may differ, and `Json.Lays` adds that every such spot is found in both of them where
its path says.  Both are put together container by container.
-/

namespace ApiLinker

namespace Json

/-- The element whose number is the segment. -/
def element? (segment : String) : (index : Nat) → List Json → Option Json
  | _, [] => none
  | index, first :: rest =>
      if toString index = segment then some first else element? segment (index + 1) rest

def child? (segment : String) : Json → Option Json
  | .array elements => element? segment 0 elements
  | .object members => Table.find? segment members
  | .null | .bool _ | .number _ | .string _ => none

/-- The value to which a path leads. -/
def at? : Json → List String → Option Json
  | json, [] => some json
  | json, segment :: path => (json.child? segment).bind (at? · path)

@[simp] theorem at?_nil (json : Json) : json.at? [] = some json := rfl

theorem at?_append (json : Json) (front back : List String) :
    json.at? (front ++ back) = (json.at? front).bind (at? · back) := by
  induction front generalizing json with
  | nil => rfl
  | cons segment front ih =>
      rw [List.cons_append, at?, at?]
      cases json.child? segment with
      | none => rfl
      | some child => exact ih child

/-- What may stand at a path on the left and on the right. -/
abbrev Spots := List String → Json → Json → Prop

/-- Equal values, but for the spots: lists keep their lengths, and objects their names and the order
of these. -/
inductive SameBut : Spots → Json → Json → Prop where
  | same (spots : Spots) (json : Json) : SameBut spots json json
  | spot {spots : Spots} {left right : Json} (differs : spots [] left right) :
      SameBut spots left right
  | array {spots : Spots} {lefts rights : List Json} (length : lefts.length = rights.length)
      (each : ∀ (index : Nat) (left right : Json), lefts[index]? = some left →
        rights[index]? = some right →
        SameBut (fun path => spots (toString index :: path)) left right) :
      SameBut spots (.array lefts) (.array rights)
  | object {spots : Spots} {lefts rights : List (String × Json)}
      (names : lefts.map Prod.fst = rights.map Prod.fst)
      (each : ∀ (index : Nat) (name : String) (left right : Json),
        lefts[index]? = some (name, left) → rights[index]? = some (name, right) →
        SameBut (fun path => spots (name :: path)) left right) :
      SameBut spots (.object lefts) (.object rights)

theorem SameBut.imp {spots more : Spots} {left right : Json} (same : SameBut spots left right)
    (implies : ∀ path left right, spots path left right → more path left right) :
    SameBut more left right := by
  induction same generalizing more with
  | same _ json => exact .same _ json
  | spot differs => exact .spot (implies _ _ _ differs)
  | array length _ ih =>
      exact .array length fun index left right isLeft isRight =>
        ih index left right isLeft isRight fun path => implies (toString index :: path)
  | object names _ ih =>
      exact .object names fun index name left right isLeft isRight =>
        ih index name left right isLeft isRight fun path => implies (name :: path)

/-- A spot at which the values are equal after all is none. -/
theorem SameBut.differing {spots : Spots} {left right : Json} (same : SameBut spots left right) :
    SameBut (fun path left right => left ≠ right ∧ spots path left right) left right := by
  induction same with
  | same _ json => exact .same _ json
  | @spot _ left right differs =>
      by_cases equal : left = right
      · exact equal ▸ .same _ left
      · exact .spot ⟨equal, differs⟩
  | array length _ ih => exact .array length ih
  | object names _ ih => exact .object names ih

/-- Values that may differ nowhere are equal. -/
theorem SameBut.eq {spots : Spots} {left right : Json} (same : SameBut spots left right)
    (nowhere : ∀ path left right, ¬ spots path left right) : left = right := by
  induction same with
  | same => rfl
  | spot differs => exact absurd differs (nowhere _ _ _)
  | @array _ lefts rights length _ ih =>
      congr 1
      refine List.ext_getElem length fun index isLeft isRight => ?_
      exact ih index _ _ (List.getElem?_eq_getElem isLeft) (List.getElem?_eq_getElem isRight)
        fun path => nowhere (toString index :: path)
  | @object _ lefts rights names _ ih =>
      congr 1
      have length : lefts.length = rights.length := by simpa using congrArg List.length names
      refine List.ext_getElem length fun index isLeft isRight => ?_
      have name : lefts[index].1 = rights[index].1 := by
        have := congrArg (fun list => list[index]?) names
        simpa [isLeft, isRight] using this
      refine Prod.ext name (ih index lefts[index].1 _ _ (List.getElem?_eq_getElem isLeft) ?_
        fun path => nowhere (lefts[index].1 :: path))
      rw [List.getElem?_eq_getElem isRight, name]

/-- A part of two texts: the same characters, or two values that may differ at their path. -/
inductive Part where
  | shared (chars : List Char)
  | spot (path : List String) (left right : Json)

namespace Part

def left : Part → List Char
  | shared chars => chars
  | spot _ left _ => left.compactChars

def right : Part → List Char
  | shared chars => chars
  | spot _ _ right => right.compactChars

def Allowed (spots : Spots) : Part → Prop
  | shared _ => True
  | spot path left right => spots path left right

def under (segment : String) : Part → Part
  | shared chars => shared chars
  | spot path left right => spot (segment :: path) left right

@[simp] theorem left_under (segment : String) (part : Part) : (part.under segment).left = part.left := by
  cases part <;> rfl

@[simp] theorem right_under (segment : String) (part : Part) :
    (part.under segment).right = part.right := by
  cases part <;> rfl

theorem allowed_under {spots : Spots} {segment : String} {part : Part}
    (allowed : part.Allowed fun path => spots (segment :: path)) :
    (part.under segment).Allowed spots := by
  cases part <;> exact allowed

end Part

/-- Texts that are equal but for the values at the spots. -/
def SameText (spots : Spots) (left right : List Char) : Prop :=
  ∃ parts : List Part, (∀ part ∈ parts, part.Allowed spots) ∧
    left = parts.flatMap Part.left ∧ right = parts.flatMap Part.right

section

variable {spots : Spots} {left right moreLeft moreRight : List Char}

theorem SameText.refl (spots : Spots) (chars : List Char) : SameText spots chars chars :=
  ⟨[.shared chars], by simp [Part.Allowed], by simp [Part.left], by simp [Part.right]⟩

theorem SameText.append (same : SameText spots left right)
    (more : SameText spots moreLeft moreRight) :
    SameText spots (left ++ moreLeft) (right ++ moreRight) := by
  obtain ⟨parts, allowed, rfl, rfl⟩ := same
  obtain ⟨others, othersAllowed, rfl, rfl⟩ := more
  refine ⟨parts ++ others, fun part member => ?_, List.flatMap_append.symm,
    List.flatMap_append.symm⟩
  rcases List.mem_append.mp member with member | member
  · exact allowed part member
  · exact othersAllowed part member

theorem SameText.cons (c : Char) (same : SameText spots left right) :
    SameText spots (c :: left) (c :: right) :=
  (SameText.refl spots [c]).append same

theorem SameText.under {segment : String}
    (same : SameText (fun path => spots (segment :: path)) left right) :
    SameText spots left right := by
  obtain ⟨parts, allowed, rfl, rfl⟩ := same
  refine ⟨parts.map (Part.under segment), fun part member => ?_, by simp [List.flatMap_map],
    by simp [List.flatMap_map]⟩
  obtain ⟨origin, isPart, rfl⟩ := List.mem_map.mp member
  exact Part.allowed_under (allowed origin isPart)

theorem sameText_elements {lefts rights : List Json} (length : lefts.length = rights.length)
    (each : ∀ (index : Nat) (left right : Json), lefts[index]? = some left →
      rights[index]? = some right → SameText spots left.compactChars right.compactChars) :
    SameText spots (compactElements lefts) (compactElements rights) := by
  induction lefts generalizing rights with
  | nil =>
      cases rights with
      | nil => exact .refl spots []
      | cons => cases length
  | cons left lefts ih =>
      cases rights with
      | nil => cases length
      | cons right rights =>
          have first := each 0 left right rfl rfl
          have rest := ih (Nat.succ.inj length) fun index => each (index + 1)
          cases lefts with
          | nil =>
              cases List.eq_nil_of_length_eq_zero (Nat.succ.inj length).symm
              exact first
          | cons =>
              cases rights with
              | nil => cases length
              | cons => exact first.append (rest.cons ',')

theorem sameText_members {lefts rights : List (String × Json)}
    (names : lefts.map Prod.fst = rights.map Prod.fst)
    (each : ∀ (index : Nat) (name : String) (left right : Json),
      lefts[index]? = some (name, left) → rights[index]? = some (name, right) →
      SameText spots left.compactChars right.compactChars) :
    SameText spots (compactMembers lefts) (compactMembers rights) := by
  induction lefts generalizing rights with
  | nil =>
      cases rights with
      | nil => exact .refl spots []
      | cons => cases names
  | cons first lefts ih =>
      obtain ⟨name, left⟩ := first
      cases rights with
      | nil => cases names
      | cons second rights =>
          obtain ⟨other, right⟩ := second
          obtain ⟨rfl, others⟩ := List.cons.inj names
          have value := (SameText.refl spots (quote name)).append
            ((each 0 name left right rfl rfl).cons ':')
          have rest := ih others fun index => each (index + 1)
          cases lefts with
          | nil =>
              cases List.map_eq_nil_iff.mp others.symm
              exact value
          | cons =>
              cases rights with
              | nil => cases others
              | cons =>
                  have both := value.append (rest.cons ',')
                  simpa [compactMembers] using both

/-- Values that are equal but for the spots are printed so. -/
theorem SameBut.text {left right : Json} (same : SameBut spots left right) :
    SameText spots left.compactChars right.compactChars := by
  induction same with
  | same spots json => exact .refl spots _
  | @spot spots left right differs =>
      exact ⟨[.spot [] left right], by simpa [Part.Allowed] using differs, by simp [Part.left],
        by simp [Part.right]⟩
  | array length _ ih =>
      exact ((sameText_elements length fun index left right isLeft isRight =>
        (ih index left right isLeft isRight).under).append (.refl _ [']'])).cons '['
  | object names _ ih =>
      exact ((sameText_members names fun index name left right isLeft isRight =>
        (ih index name left right isLeft isRight).under).append (.refl _ ['}'])).cons '{'

end

/-- A place in two values, and what stands there in them. -/
structure Mark where
  path : List String
  shows : Json → Json → Prop

namespace Mark

def under (path : List String) (mark : Mark) : Mark :=
  { mark with path := path ++ mark.path }

def within (segment : String) (marks : List Mark) : List Mark :=
  marks.map (under [segment])

@[simp] theorem within_nil (segment : String) : within segment [] = [] := rfl

@[simp] theorem within_append (segment : String) (marks more : List Mark) :
    within segment (marks ++ more) = within segment marks ++ within segment more :=
  List.map_append

def spots (marks : List Mark) : Spots := fun path left right =>
  ∃ mark ∈ marks, mark.path = path ∧ mark.shows left right

end Mark

/-- The values are equal but at the marks, and every mark is found. -/
structure Lays (marks : List Mark) (left right : Json) : Prop where
  same : SameBut (Mark.spots marks) left right
  found : ∀ mark ∈ marks, ∃ value other, left.at? mark.path = some value ∧
    right.at? mark.path = some other ∧ mark.shows value other

theorem lays_same (json : Json) : Lays [] json json where
  same := .same _ json
  found _ never := by cases never

/-- A mark for the whole of two values. -/
theorem lays_mark {mark : Mark} {left right : Json} (here : mark.path = [])
    (shows : mark.shows left right) : Lays [mark] left right where
  same := .spot ⟨mark, List.mem_singleton_self mark, here, shows⟩
  found other member := by
    cases List.mem_singleton.mp member
    exact ⟨left, right, by rw [here]; rfl, by rw [here]; rfl, shows⟩

theorem Lays.congr {marks others : List Mark} {left right : Json} (lays : Lays marks left right)
    (same : ∀ mark, mark ∈ marks ↔ mark ∈ others) : Lays others left right where
  same := lays.same.imp fun _ _ _ ⟨mark, member, rest⟩ => ⟨mark, (same mark).mp member, rest⟩
  found mark member := lays.found mark ((same mark).mpr member)

/-- Elements laid out alike, where the first has the number `start`. -/
inductive LaysElements : (start : Nat) → List Mark → List Json → List Json → Prop where
  | nil (start : Nat) : LaysElements start [] [] []
  | cons {start : Nat} {marks more : List Mark} {left right : Json} {lefts rights : List Json}
      (first : Lays marks left right) (rest : LaysElements (start + 1) more lefts rights) :
      LaysElements start (Mark.within (toString start) marks ++ more) (left :: lefts)
        (right :: rights)

/-- Members of the same names, laid out alike. -/
inductive LaysMembers : List Mark → List (String × Json) → List (String × Json) → Prop where
  | nil : LaysMembers [] [] []
  | cons {marks more : List Mark} {left right : Json} {lefts rights : List (String × Json)}
      (name : String) (first : Lays marks left right) (rest : LaysMembers more lefts rights) :
      LaysMembers (Mark.within name marks ++ more) ((name, left) :: lefts) ((name, right) :: rights)

theorem LaysElements.length {start : Nat} {marks : List Mark} {lefts rights : List Json}
    (lays : LaysElements start marks lefts rights) : lefts.length = rights.length := by
  induction lays with
  | nil => rfl
  | cons _ _ ih => simp [ih]

theorem LaysElements.each {start : Nat} {marks : List Mark} {lefts rights : List Json}
    (lays : LaysElements start marks lefts rights) {index : Nat} {left right : Json}
    (isLeft : lefts[index]? = some left) (isRight : rights[index]? = some right) :
    ∃ inner, Lays inner left right ∧
      ∀ mark ∈ Mark.within (toString (start + index)) inner, mark ∈ marks := by
  induction lays generalizing index with
  | nil => cases isLeft
  | cons first _ ih =>
      cases index with
      | zero =>
          cases isLeft
          cases isRight
          exact ⟨_, first, fun mark member => List.mem_append_left _ member⟩
      | succ index =>
          obtain ⟨inner, lays, within⟩ := ih isLeft isRight
          refine ⟨inner, lays, fun mark member => List.mem_append_right _ (within mark ?_)⟩
          rwa [Nat.add_right_comm, Nat.add_assoc]

/-- Every mark in a list is one in the element that its path goes to. -/
theorem LaysElements.found {start : Nat} {marks : List Mark} {lefts rights : List Json}
    (lays : LaysElements start marks lefts rights) :
    ∀ mark ∈ marks, ∃ index inner left right, start ≤ index ∧ Lays inner left right ∧
      mark ∈ Mark.within (toString index) inner ∧
      element? (toString index) start lefts = some left ∧
      element? (toString index) start rights = some right := by
  induction lays with
  | nil => exact fun _ never => by cases never
  | @cons start marks more left right lefts rights first _ ih =>
      intro mark member
      rcases List.mem_append.mp member with here | later
      · exact ⟨start, marks, left, right, Nat.le_refl _, first, here,
          by rw [element?, if_pos rfl], by rw [element?, if_pos rfl]⟩
      · obtain ⟨index, inner, left, right, above, lays, within, isLeft, isRight⟩ := ih mark later
        have different : toString start ≠ toString index := fun same =>
          absurd (toString_injective same) (Nat.ne_of_lt above)
        exact ⟨index, inner, left, right, Nat.le_of_succ_le above, lays, within,
          by rw [element?, if_neg different]; exact isLeft,
          by rw [element?, if_neg different]; exact isRight⟩

theorem lays_array {marks : List Mark} {lefts rights : List Json}
    (lays : LaysElements 0 marks lefts rights) : Lays marks (.array lefts) (.array rights) where
  same := by
    refine .array lays.length fun index left right isLeft isRight => ?_
    obtain ⟨inner, first, within⟩ := lays.each isLeft isRight
    rw [Nat.zero_add] at within
    refine first.same.imp fun path left right spot => ?_
    obtain ⟨mark, member, rfl, shows⟩ := spot
    exact ⟨mark.under [toString index], within _ (List.mem_map_of_mem member), rfl, shows⟩
  found mark member := by
    obtain ⟨index, inner, left, right, _, first, within, isLeft, isRight⟩ := lays.found mark member
    obtain ⟨origin, isInner, rfl⟩ := List.mem_map.mp within
    obtain ⟨value, other, leads, otherLeads, shows⟩ := first.found origin isInner
    refine ⟨value, other, ?_, ?_, shows⟩
    · rw [Mark.under, List.singleton_append, at?, child?, isLeft]
      exact leads
    · rw [Mark.under, List.singleton_append, at?, child?, isRight]
      exact otherLeads

theorem LaysMembers.names {marks : List Mark} {lefts rights : List (String × Json)}
    (lays : LaysMembers marks lefts rights) : lefts.map Prod.fst = rights.map Prod.fst := by
  induction lays with
  | nil => rfl
  | cons name _ _ ih => simp [ih]

theorem LaysMembers.each {marks : List Mark} {lefts rights : List (String × Json)}
    (lays : LaysMembers marks lefts rights) {index : Nat} {name : String} {left right : Json}
    (isLeft : lefts[index]? = some (name, left)) (isRight : rights[index]? = some (name, right)) :
    ∃ inner, Lays inner left right ∧ ∀ mark ∈ Mark.within name inner, mark ∈ marks := by
  induction lays generalizing index with
  | nil => cases isLeft
  | cons _ first _ ih =>
      cases index with
      | zero =>
          cases isLeft
          cases isRight
          exact ⟨_, first, fun mark member => List.mem_append_left _ member⟩
      | succ index =>
          obtain ⟨inner, lays, within⟩ := ih isLeft isRight
          exact ⟨inner, lays, fun mark member => List.mem_append_right _ (within mark member)⟩

/-- Every mark in an object is one in the member that its path goes to. -/
theorem LaysMembers.found {marks : List Mark} {lefts rights : List (String × Json)}
    (lays : LaysMembers marks lefts rights) (distinct : (lefts.map Prod.fst).Nodup) :
    ∀ mark ∈ marks, ∃ name inner left right, Lays inner left right ∧
      mark ∈ Mark.within name inner ∧ (name, left) ∈ lefts ∧
      Table.find? name lefts = some left ∧ Table.find? name rights = some right := by
  induction lays with
  | nil => exact fun _ never => by cases never
  | @cons marks more left right lefts rights name first _ ih =>
      intro mark member
      obtain ⟨isNew, distinct⟩ := List.nodup_cons.mp distinct
      rcases List.mem_append.mp member with here | later
      · exact ⟨name, marks, left, right, first, here, List.mem_cons_self,
          by rw [Table.find?, if_pos rfl], by rw [Table.find?, if_pos rfl]⟩
      · obtain ⟨other, inner, value, changed, lays, within, isMember, isLeft, isRight⟩ :=
          ih distinct mark later
        have different : name ≠ other := fun same => by
          have known : other ∈ lefts.map Prod.fst := List.mem_map_of_mem isMember
          exact isNew (same ▸ known)
        exact ⟨other, inner, value, changed, lays, within, List.mem_cons_of_mem _ isMember,
          by rw [Table.find?, if_neg different]; exact isLeft,
          by rw [Table.find?, if_neg different]; exact isRight⟩

theorem lays_object {marks : List Mark} {lefts rights : List (String × Json)}
    (lays : LaysMembers marks lefts rights) (distinct : (lefts.map Prod.fst).Nodup) :
    Lays marks (.object lefts) (.object rights) where
  same := by
    refine .object lays.names fun index name left right isLeft isRight => ?_
    obtain ⟨inner, first, within⟩ := lays.each isLeft isRight
    refine first.same.imp fun path left right spot => ?_
    obtain ⟨mark, member, rfl, shows⟩ := spot
    exact ⟨mark.under [name], within _ (List.mem_map_of_mem member), rfl, shows⟩
  found mark member := by
    obtain ⟨name, inner, left, right, first, within, _, isLeft, isRight⟩ :=
      lays.found distinct mark member
    obtain ⟨origin, isInner, rfl⟩ := List.mem_map.mp within
    obtain ⟨value, other, leads, otherLeads, shows⟩ := first.found origin isInner
    refine ⟨value, other, ?_, ?_, shows⟩
    · rw [Mark.under, List.singleton_append, at?, child?, isLeft]
      exact leads
    · rw [Mark.under, List.singleton_append, at?, child?, isRight]
      exact otherLeads

end Json

end ApiLinker
