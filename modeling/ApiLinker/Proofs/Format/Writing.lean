import ApiLinker.Format.Record
import ApiLinker.Proofs.Json.Layout
import ApiLinker.Proofs.Outcome
import ApiLinker.Proofs.Relation

/-!
Proof rules for writing two values alike.

The two may be written by different codecs.  What is known of their parts is put together as the
parts are: by fields, elements and entries.
-/

namespace ApiLinker

open Json Outcome

variable {σ α ρ : Type}

namespace Codec

/-- Both values have a written form, and these are laid out alike. -/
def Alike (left right : Codec σ α) (marks : List Mark) (before after : α) : Prop :=
  ∃ leftJson rightJson, left.write before = .ok leftJson ∧ right.write after = .ok rightJson ∧
    Lays marks leftJson rightJson

/-- Every value has a written form. -/
def Total (codec : Codec σ α) : Prop :=
  ∀ value, ∃ json, codec.write value = .ok json

theorem total_string : (string : Codec σ String).Total := fun value => ⟨.string value, rfl⟩

theorem total_bool : (bool : Codec σ Bool).Total := fun value => ⟨.bool value, rfl⟩

theorem total_json : (json : Codec σ Json).Total := fun value => ⟨value, rfl⟩

theorem total_variant {variants : List (String × α)} {name : α → String} {same : α → α → Bool} :
    (variant variants name same : Codec σ α).Total := fun value => ⟨.string (name value), rfl⟩

theorem Total.alike {codec : Codec σ α} (total : codec.Total) {before after : α}
    (same : after = before) : codec.Alike codec [] before after := by
  obtain ⟨json, written⟩ := total before
  subst same
  exact ⟨json, json, written, written, lays_same json⟩

theorem Alike.of_eq {left right : Codec σ α} {marks others : List Mark} {before after : α}
    (alike : left.Alike right marks before after) (same : marks = others) :
    left.Alike right others before after :=
  same ▸ alike

theorem Alike.congr {left right : Codec σ α} {marks others : List Mark} {before after : α}
    (alike : left.Alike right marks before after) (same : ∀ mark, mark ∈ marks ↔ mark ∈ others) :
    left.Alike right others before after := by
  obtain ⟨leftJson, rightJson, isLeft, isRight, lays⟩ := alike
  exact ⟨leftJson, rightJson, isLeft, isRight, lays.congr same⟩

variable {left right : Codec σ α} {marks : α → List Mark}

/-- The marks in the elements of a list of which the first has the number `start`. -/
def elementMarks (marks : α → List Mark) (start : Nat) (list : List α) : List Mark :=
  (list.zipIdx start).flatMap fun entry => Mark.within (toString entry.2) (marks entry.1)

def entryMarks (marks : α → List Mark) (table : Table α) : List Mark :=
  table.flatMap fun entry => Mark.within entry.1 (marks entry.2)

theorem laysElements_of_forall₂ {before after : List α}
    (related : List.Forall₂ (fun before after => left.Alike right (marks before) before after)
      before after) (start : Nat) :
    ∃ lefts rights, before.mapM left.write = .ok lefts ∧ after.mapM right.write = .ok rights ∧
      LaysElements start (elementMarks marks start before) lefts rights := by
  induction related generalizing start with
  | nil => exact ⟨[], [], rfl, rfl, .nil start⟩
  | cons alike _ ih =>
      obtain ⟨leftJson, rightJson, isLeft, isRight, lays⟩ := alike
      obtain ⟨lefts, rights, areLeft, areRight, others⟩ := ih (start + 1)
      refine ⟨leftJson :: lefts, rightJson :: rights, ?_, ?_, .cons lays others⟩
      · rw [List.mapM_cons, isLeft, areLeft]
        rfl
      · rw [List.mapM_cons, isRight, areRight]
        rfl

theorem alike_list {before after : List α}
    (related : List.Forall₂ (fun before after => left.Alike right (marks before) before after)
      before after) :
    (list left).Alike (list right) (elementMarks marks 0 before) before after := by
  obtain ⟨lefts, rights, areLeft, areRight, lays⟩ := laysElements_of_forall₂ related 0
  refine ⟨.array lefts, .array rights, ?_, ?_, lays_array lays⟩
  · simp only [list, areLeft]
    rfl
  · simp only [list, areRight]
    rfl

theorem laysMembers_of_rel {before after : Table α}
    (related : Table.Rel (fun before after => left.Alike right (marks before) before after)
      before after) :
    ∃ lefts rights, (table left).write before = .ok (.object lefts) ∧
      (table right).write after = .ok (.object rights) ∧
      LaysMembers (entryMarks marks before) lefts rights ∧
      lefts.map Prod.fst = before.names := by
  induction related with
  | nil => exact ⟨[], [], rfl, rfl, .nil, rfl⟩
  | @cons first second before after holds _ ih =>
      obtain ⟨name, value⟩ := first
      obtain ⟨_, other⟩ := second
      obtain ⟨rfl, leftJson, rightJson, isLeft, isRight, lays⟩ := holds
      obtain ⟨lefts, rights, areLeft, areRight, others, names⟩ := ih
      obtain ⟨lefts, leftWritten, same⟩ := map_eq_ok areLeft
      cases same
      obtain ⟨rights, rightWritten, same⟩ := map_eq_ok areRight
      cases same
      refine ⟨(name, leftJson) :: lefts, (name, rightJson) :: rights, ?_, ?_,
        .cons name lays others, congrArg (name :: ·) names⟩
      · simp only [table, List.mapM_cons, isLeft, leftWritten]
        rfl
      · simp only [table, List.mapM_cons, isRight, rightWritten]
        rfl

theorem alike_table {before after : Table α} (distinct : before.names.Nodup)
    (related : Table.Rel (fun before after => left.Alike right (marks before) before after)
      before after) :
    (table left).Alike (table right) (entryMarks marks before) before after := by
  obtain ⟨lefts, rights, areLeft, areRight, lays, names⟩ := laysMembers_of_rel related
  exact ⟨_, _, areLeft, areRight, lays_object lays (names ▸ distinct)⟩

theorem Total.list {codec : Codec σ α} (total : codec.Total) : (list codec).Total := fun values => by
  obtain ⟨json, _, written, _⟩ :=
    alike_list (List.forall₂_same.mpr fun value (_ : value ∈ values) => total.alike rfl)
  exact ⟨json, written⟩

theorem Total.table {codec : Codec σ α} (total : codec.Total) : (table codec).Total :=
  fun entries => by
    have alike : Table.Rel (fun before after => codec.Alike codec [] before after) entries entries :=
      .refl (fun _ => total.alike rfl) entries
    obtain ⟨lefts, _, written, _⟩ := laysMembers_of_rel alike
    exact ⟨.object lefts, written⟩

end Codec

namespace Field

section

variable {name : String}

@[simp] theorem name_optional (codec : Codec σ α) (get : ρ → Option α) (set : Option α → ρ → ρ) :
    (optional name codec get set).name = name := rfl

@[simp] theorem name_required (codec : Codec σ α) (get : ρ → α) (set : α → ρ → ρ) :
    (required name codec get set).name = name := rfl

@[simp] theorem name_always (codec : Codec σ α) (get : ρ → α) (set : α → ρ → ρ) :
    (always name codec get set).name = name := rfl

@[simp] theorem name_flag (get : ρ → Bool) (set : Bool → ρ → ρ) :
    (flag name get set : Field σ ρ).name = name := rfl

@[simp] theorem name_list (codec : Codec σ α) (get : ρ → List α) (set : List α → ρ → ρ) :
    (list name codec get set).name = name := rfl

@[simp] theorem name_table (codec : Codec σ α) (get : ρ → Table α) (set : Table α → ρ → ρ) :
    (table name codec get set).name = name := rfl

end

/-- Both fields are left out, or written alike. -/
inductive Alike (left right : Field σ ρ) : List Mark → ρ → ρ → Prop where
  | omitted {before after : ρ} (leftOut : left.write before = .ok none)
      (rightOut : right.write after = .ok none) : Alike left right [] before after
  | written {marks : List Mark} {before after : ρ} {leftJson rightJson : Json}
      (isLeft : left.write before = .ok (some leftJson))
      (isRight : right.write after = .ok (some rightJson)) (lays : Lays marks leftJson rightJson) :
      Alike left right (Mark.within left.name marks) before after

variable {name : String} {isRequired : Bool} {before after : ρ}

theorem alike_general {omitted : α → Bool} {left right : Codec σ α} {get : ρ → α}
    {set : α → ρ → ρ} {marks : List Mark} (omits : omitted (get after) = omitted (get before))
    (silent : omitted (get before) = true → marks = [])
    (alike : omitted (get before) = false → left.Alike right marks (get before) (get after)) :
    (general name isRequired omitted left get set).Alike
      (general name isRequired omitted right get set) (Mark.within name marks) before after := by
  cases isOmitted : omitted (get before) with
  | true =>
      rw [silent isOmitted]
      exact .omitted (by simp [general, isOmitted]) (by simp [general, omits, isOmitted])
  | false =>
      obtain ⟨leftJson, rightJson, isLeft, isRight, lays⟩ := alike isOmitted
      have wroteLeft : (general name isRequired omitted left get set).write before =
          .ok (some leftJson) := by simp [general, isOmitted, isLeft]
      have wroteRight : (general name isRequired omitted right get set).write after =
          .ok (some rightJson) := by simp [general, omits, isOmitted, isRight]
      exact .written wroteLeft wroteRight lays

theorem alike_kept {omitted : α → Bool} {codec : Codec σ α} {get : ρ → α} {set : α → ρ → ρ}
    (total : codec.Total) (same : get after = get before) :
    (general name isRequired omitted codec get set).Alike
      (general name isRequired omitted codec get set) [] before after := by
  rw [← Mark.within_nil name]
  exact alike_general (congrArg omitted same) (fun _ => rfl) fun _ => total.alike same

theorem alike_optional {left right : Codec σ α} {get : ρ → Option α} {set : Option α → ρ → ρ}
    {marks : α → List Mark}
    (related : Option.Rel (fun before after => left.Alike right (marks before) before after)
      (get before) (get after)) :
    (optional name left get set).Alike (optional name right get set)
      ((get before).toList.flatMap fun value => Mark.within name (marks value)) before after := by
  generalize isBefore : get before = value, isAfter : get after = other at related
  cases related with
  | none => exact .omitted (by simp [optional, isBefore]) (by simp [optional, isAfter])
  | some alike =>
      obtain ⟨leftJson, rightJson, isLeft, isRight, lays⟩ := alike
      have wroteLeft : (optional name left get set).write before = .ok (some leftJson) := by
        simp [optional, isBefore, isLeft]
      have wroteRight : (optional name right get set).write after = .ok (some rightJson) := by
        simp [optional, isAfter, isRight]
      rw [Option.toList_some, List.flatMap_singleton]
      exact .written wroteLeft wroteRight lays

theorem alike_optional_kept {codec : Codec σ α} {get : ρ → Option α} {set : Option α → ρ → ρ}
    (total : codec.Total) (same : get after = get before) :
    (optional name codec get set).Alike (optional name codec get set) [] before after := by
  cases isBefore : get before with
  | none => exact .omitted (by simp [optional, isBefore]) (by simp [optional, same, isBefore])
  | some value =>
      obtain ⟨json, written⟩ := total value
      have wrote : ∀ record, get record = some value →
          (optional name codec get set).write record = .ok (some json) := fun record isValue => by
        simp [optional, isValue, written]
      exact .written (wrote before isBefore) (wrote after (same.trans isBefore)) (lays_same json)

theorem alike_list {left right : Codec σ α} {get : ρ → List α} {set : List α → ρ → ρ}
    {marks : α → List Mark}
    (related : List.Forall₂ (fun before after => left.Alike right (marks before) before after)
      (get before) (get after)) :
    (list name left get set).Alike (list name right get set)
      (Mark.within name (Codec.elementMarks marks 0 (get before))) before after := by
  refine alike_general (ListRel.isEmpty_eq related) (fun isEmpty => ?_)
    fun _ => Codec.alike_list related
  rw [List.isEmpty_iff.mp isEmpty]
  rfl

theorem alike_table {left right : Codec σ α} {get : ρ → Table α} {set : Table α → ρ → ρ}
    {marks : α → List Mark} (distinct : (get before).names.Nodup)
    (related : Table.Rel (fun before after => left.Alike right (marks before) before after)
      (get before) (get after)) :
    (table name left get set).Alike (table name right get set)
      (Mark.within name (Codec.entryMarks marks (get before))) before after := by
  refine alike_general (ListRel.isEmpty_eq related) (fun isEmpty => ?_)
    fun _ => Codec.alike_table distinct related
  rw [List.isEmpty_iff.mp isEmpty]
  rfl

/-- Fields of the same names, each left out on both sides or written alike. -/
inductive AllAlike (before after : ρ) : List (Field σ ρ) → List (Field σ ρ) → List Mark → Prop where
  | nil : AllAlike before after [] [] []
  | cons {left right : Field σ ρ} {lefts rights : List (Field σ ρ)} {marks more : List Mark}
      (name : String) (isLeft : left.name = name) (isRight : right.name = name)
      (first : left.Alike right marks before after)
      (rest : AllAlike before after lefts rights more) :
      AllAlike before after (left :: lefts) (right :: rights) (marks ++ more)

theorem AllAlike.members {lefts rights : List (Field σ ρ)} {marks : List Mark}
    (alike : AllAlike before after lefts rights marks) :
    ∃ leftMembers rightMembers, Record.writeFields before lefts = .ok leftMembers ∧
      Record.writeFields after rights = .ok rightMembers ∧
      LaysMembers marks leftMembers rightMembers ∧
      (leftMembers.map Prod.fst).Sublist (lefts.map Field.name) := by
  induction alike with
  | nil => exact ⟨[], [], rfl, rfl, .nil, .slnil⟩
  | @cons left right lefts rights marks more name isLeft isRight first _ ih =>
      obtain ⟨leftMembers, rightMembers, areLeft, areRight, lays, names⟩ := ih
      cases first with
      | omitted leftOut rightOut =>
          refine ⟨leftMembers, rightMembers, ?_, ?_, lays, .cons _ names⟩
          · rw [Record.writeFields, leftOut, areLeft]
            rfl
          · rw [Record.writeFields, rightOut, areRight]
            rfl
      | written wroteLeft wroteRight laid =>
          refine ⟨_ :: leftMembers, _ :: rightMembers, ?_, ?_, .cons left.name laid lays,
            names.cons_cons left.name⟩
          · rw [Record.writeFields, wroteLeft, areLeft]
            rfl
          · rw [Record.writeFields, wroteRight, areRight, isLeft, ← isRight]
            rfl

end Field

/-- Records with different names for their fields are written alike if their fields are. -/
theorem Record.alike {left right : Record σ ρ} {before after : ρ} {marks : List Mark}
    (distinct : (left.fields.map Field.name).Nodup)
    (fields : Field.AllAlike before after left.fields right.fields marks) :
    left.codec.Alike right.codec marks before after := by
  obtain ⟨leftMembers, rightMembers, areLeft, areRight, lays, names⟩ := fields.members
  refine ⟨.object leftMembers, .object rightMembers, ?_, ?_,
    lays_object lays (distinct.sublist names)⟩
  · simp only [codec, areLeft]
    rfl
  · simp only [codec, areRight]
    rfl

/-- Every record has a written form if every field of it can be left out or written. -/
theorem Record.total {format : Record σ ρ} (distinct : (format.fields.map Field.name).Nodup)
    (fields : ∀ record, ∃ marks, Field.AllAlike record record format.fields format.fields marks) :
    format.codec.Total := fun record => by
  obtain ⟨marks, alike⟩ := fields record
  obtain ⟨json, _, written, _⟩ := Record.alike distinct alike
  exact ⟨json, written⟩

end ApiLinker
