import ApiLinker.Proofs.Format.Writing
import ApiLinker.Proofs.Json.Printing
import Mathlib.Order.Defs.PartialOrder

/-!
Proof rules for reading what was written.

The state that is read into only grows, and what is known of a value that was read stays true as it
does.  A value is restored if reading what was written for it succeeds, with a value that is related
to it.  Records are restored field by field: a field that was left out leaves the blank value, which
has to be the one for which it was left out.
-/

namespace ApiLinker

open Json Outcome

variable {σ α β ρ : Type} [Preorder σ]

section

/-! Reading that succeeds. -/

/-- From every state the reading succeeds, with a value as `R` says from then on. -/
def Gives (decoder : Decoder σ α) (R : σ → α → Prop) : Prop :=
  ∀ start, ∃ value last, decoder start = .ok (value, last) ∧ start ≤ last ∧
    ∀ later, last ≤ later → R later value

variable {P R : σ → α → Prop} {Q : σ → β → Prop}

theorem gives_pure {value : α} (holds : ∀ later, R later value) : Gives (pure value) R :=
  fun start => ⟨value, start, rfl, le_refl start, fun later _ => holds later⟩

theorem gives_lift {outcome : Except Fault α} {value : α} (success : outcome = .ok value)
    (holds : ∀ later, R later value) : Gives (liftM outcome) R := by
  subst success
  exact gives_pure holds

omit [Preorder σ] in
theorem lift_ok_bind (value : α) (next : α → Decoder σ β) :
    (liftM (Except.ok value : Except Fault α) : Decoder σ α) >>= next = next value := rfl

theorem Gives.imp {decoder : Decoder σ α} (gives : Gives decoder P)
    (implies : ∀ later value, P later value → R later value) : Gives decoder R := fun start => by
  obtain ⟨value, last, ran, grows, holds⟩ := gives start
  exact ⟨value, last, ran, grows, fun later le => implies later value (holds later le)⟩

theorem Gives.bind {decoder : Decoder σ α} {next : α → Decoder σ β} (first : Gives decoder P)
    (rest : ∀ value, Gives (next value) fun later result => P later value → Q later result) :
    Gives (decoder >>= next) Q := fun start => by
  obtain ⟨value, middle, ran, grows, holds⟩ := first start
  obtain ⟨result, last, ranOn, growsOn, holdsLast⟩ := rest value middle
  refine ⟨result, last, ?_, le_trans grows growsOn, fun later le =>
    holdsLast later le (holds later (le_trans growsOn le))⟩
  change (decoder start).bind (fun pair => next pair.1 pair.2) = _
  rw [ran]
  exact ranOn

theorem Gives.map {decoder : Decoder σ α} {change : α → β} (gives : Gives decoder P)
    (implies : ∀ later value, P later value → Q later (change value)) :
    Gives (change <$> decoder) Q := by
  rw [map_eq_pure_bind]
  exact gives.bind fun value => gives_pure fun later => implies later value

end

namespace Codec

/-- What is written on the left for the value is read on the right as a related one, as far as it is
legible. -/
def Restores (depth : Nat) (left right : Codec σ α) (R : σ → α → α → Prop) (before : α) : Prop :=
  ∀ json, left.write before = .ok json → Legible depth json →
    Gives (right.read json.node) fun later after => R later before after

/-- The value itself. -/
def kept (_ : σ) (before after : α) : Prop :=
  before = after

variable {depth : Nat} {left right : Codec σ α} {R S : σ → α → α → Prop} {before : α}

theorem Restores.mono {less : Nat} (restores : Restores depth left right R before)
    (le : less ≤ depth) : Restores less left right R before :=
  fun json written legible => restores json written (legible.mono le)

theorem restores_string (value : String) :
    Restores depth (string : Codec σ String) string kept value := by
  rintro _ ⟨⟩ _
  exact gives_lift (text_ofText value) fun _ => rfl

theorem restores_bool (value : Bool) :
    Restores depth (bool : Codec σ Bool) bool kept value := by
  rintro _ ⟨⟩ _
  exact gives_pure fun _ => rfl

theorem restores_json {value : Json} (distinct : value.Distinct) :
    Restores depth (json : Codec σ Json) json kept value := by
  rintro _ ⟨⟩ legible
  exact gives_lift (value_node value legible distinct) fun _ => rfl

theorem restores_variant {variants : List (String × α)} {name : α → String} {same : α → α → Bool}
    {value : α} (known : Table.find? (name value) variants = some value) :
    Restores depth (variant variants name same : Codec σ α) (variant variants name same) kept
      value := by
  rintro _ ⟨⟩ _
  refine gives_lift ?_ fun _ => rfl
  rw [node, readVariant, text_ofText]
  simp only [readVariantName, known, bind, Except.bind]

theorem gives_readElements {before : List α} {jsons : List Json}
    (written : before.mapM left.write = .ok jsons) (legible : ∀ json ∈ jsons, Legible depth json)
    (each : ∀ value ∈ before, left.Restores depth right R value) :
    Gives (readElements right.read (elementNodes jsons)) fun later after =>
      List.Forall₂ (R later) before after := by
  induction before generalizing jsons with
  | nil =>
      cases written
      exact gives_pure fun _ => .nil
  | cons value before ih =>
      rw [List.mapM_cons] at written
      obtain ⟨first, isFirst, written⟩ := bind_eq_ok written
      obtain ⟨rest, areRest, same⟩ := bind_eq_ok written
      cases same
      obtain ⟨firstLegible, legible⟩ := List.forall_mem_cons.mp legible
      obtain ⟨firstEach, each⟩ := List.forall_mem_cons.mp each
      refine (firstEach first isFirst firstLegible).bind fun value => ?_
      refine (ih areRest legible each).bind fun values => gives_pure fun later others related => ?_
      exact .cons related others

theorem restores_list {before : List α} (each : ∀ value ∈ before, left.Restores depth right R value) :
    Restores (depth + 1) (list left) (list right) (fun later => List.Forall₂ (R later)) before := by
  intro json written legible
  obtain ⟨jsons, areWritten, rfl⟩ := map_eq_ok written
  cases legible with
  | array legible => exact gives_readElements areWritten legible each

theorem gives_readEntries {before : Table α} {members : List (String × Json)}
    (written : (before.mapM fun (name, entry) => return (name, ← left.write entry)) = .ok members)
    (legible : ∀ member ∈ members, Legible depth member.2)
    (each : ∀ entry ∈ before, left.Restores depth right R entry.2) :
    Gives (readEntries right.read (memberNodes members)) fun later after =>
      Table.Rel (R later) before after := by
  induction before generalizing members with
  | nil =>
      cases written
      exact gives_pure fun _ => .nil
  | cons entry before ih =>
      rw [List.mapM_cons] at written
      obtain ⟨first, isFirst, written⟩ := bind_eq_ok written
      obtain ⟨value, isValue, same⟩ := bind_eq_ok isFirst
      cases same
      obtain ⟨rest, areRest, same⟩ := bind_eq_ok written
      cases same
      obtain ⟨firstLegible, legible⟩ := List.forall_mem_cons.mp legible
      obtain ⟨firstEach, each⟩ := List.forall_mem_cons.mp each
      rw [memberNodes, readEntries]
      refine (gives_lift (text_ofText entry.1) (R := fun _ name => name = entry.1) fun _ => rfl).bind
        fun name => ?_
      refine (firstEach value isValue firstLegible).bind fun value => ?_
      refine (ih areRest legible each).bind fun values => gives_pure fun later => ?_
      intro others related same
      exact .cons ⟨same.symm, related⟩ others

theorem restores_table {before : Table α} (distinct : before.names.Nodup)
    (each : ∀ entry ∈ before, left.Restores depth right R entry.2) :
    Restores (depth + 1) (table left) (table right) (fun later => Table.Rel (R later)) before := by
  intro json written legible
  obtain ⟨members, areWritten, rfl⟩ := map_eq_ok written
  cases legible with
  | object legible =>
      refine (gives_readEntries areWritten legible each).bind fun entries => gives_pure ?_
      intro later related
      have names : (Table.names entries).Nodup := by rwa [related.names_eq]
      rw [Table.ofEntries_of_nodup names]
      exact related

end Codec

namespace Record

/-- The fields on the left are written for `before`, those on the right are read, on top of `record`
and of the fields that were given earlier.  In the end there is a record as `R` says. -/
def Restores (depth : Nat) (format : Record σ ρ) (before record : ρ) (lefts rights : List (Field σ ρ))
    (R : σ → ρ → Prop) : Prop :=
  ∀ members given, writeFields before lefts = .ok members →
    (∀ member ∈ members, Legible depth member.2) → (rights.map Field.name).Nodup →
    (∀ field ∈ rights, field.name ∉ given ∧ format.field? field.name = some field) →
    (∀ field ∈ format.fields, field.isRequired = true → field.name ∈ given ∨ field ∈ rights) →
    Gives (format.readMembers given record (memberNodes members)) R

variable {depth : Nat} {format : Record σ ρ} {before record : ρ} {lefts rights : List (Field σ ρ)}
variable {R : σ → ρ → Prop}

theorem restores_nil (holds : ∀ later, R later record) :
    Restores depth format before record [] [] R := by
  intro members given written _ _ _ required
  cases written
  have complete : format.missing? given = none := by
    refine List.find?_eq_none.mpr fun field member => ?_
    cases isRequired : field.isRequired with
    | false => simp
    | true =>
        rcases required field member isRequired with isGiven | never
        · simp [isGiven]
        · cases never
  have done : format.readMembers given record (.stop .closed) = pure record := by
    rw [readMembers, complete]
    rfl
  rw [memberNodes, done]
  exact gives_pure holds

omit [Preorder σ] in
theorem readMembers_member {given : List String} {name : String} {field : Field σ ρ} {value : Node}
    {rest : Members} (found : format.field? name = some field) (isNew : name ∉ given) :
    format.readMembers given record (.member (.ofText name) value rest) =
      field.read value >>= fun set => format.readMembers (name :: given) (set record) rest := by
  rw [readMembers, text_ofText, lift_ok_bind, found]
  have fine : given.contains name = false := by simpa using isNew
  simp only [fine]
  rfl

/-- A field that is left out is not required, and leaves the record as it is.  One that is written
is read, and sets what it was written for. -/
theorem restores_cons {left right : Field σ ρ} {S : σ → α → Prop} (name : String)
    (isLeft : left.name = name) (isRight : right.name = name) {set : α → ρ → ρ}
    {decoder : Node → Decoder σ α} (reads : ∀ node, right.read node = set <$> decoder node)
    (omitted : left.write before = .ok none → right.isRequired = false ∧
      Restores depth format before record lefts rights R)
    (written : ∀ json, left.write before = .ok (some json) → Legible depth json →
      Gives (decoder json.node) S)
    (rest : ∀ value, Restores depth format before (set value record) lefts rights
      fun later final => S later value → R later final) :
    Restores depth format before record (left :: lefts) (right :: rights) R := by
  intro members given areWritten legible distinct unread required
  obtain ⟨isNew, distinct⟩ := List.nodup_cons.mp distinct
  obtain ⟨firstOpen, restOpen⟩ := List.forall_mem_cons.mp unread
  rw [writeFields] at areWritten
  obtain ⟨value, isValue, areWritten⟩ := bind_eq_ok areWritten
  obtain ⟨others, areOthers, same⟩ := bind_eq_ok areWritten
  cases value with
  | none =>
      cases same
      obtain ⟨optional, restores⟩ := omitted isValue
      refine restores others given areOthers legible distinct restOpen fun field member needed => ?_
      rcases required field member needed with isGiven | among
      · exact .inl isGiven
      · rcases List.mem_cons.mp among with rfl | among
        · cases optional.symm.trans needed
        · exact .inr among
  | some json =>
      cases same
      obtain ⟨firstLegible, legible⟩ := List.forall_mem_cons.mp legible
      rw [memberNodes, isLeft, ← isRight, readMembers_member firstOpen.2 firstOpen.1, reads,
        bind_map_left]
      refine (written json isValue firstLegible).bind fun value => ?_
      refine rest value others (right.name :: given) areOthers legible distinct ?_ ?_
      · intro field member
        refine ⟨fun isGiven => ?_, (restOpen field member).2⟩
        rcases List.mem_cons.mp isGiven with sameName | isGiven
        · exact isNew (sameName ▸ List.mem_map_of_mem member)
        · exact (restOpen field member).1 isGiven
      · intro field member needed
        rcases required field member needed with isGiven | among
        · exact .inl (List.mem_cons_of_mem _ isGiven)
        · rcases List.mem_cons.mp among with rfl | among
          · exact .inl List.mem_cons_self
          · exact .inr among

section

/-! The kinds of fields. -/

variable {name : String} {S : σ → α → α → Prop}

theorem Restores.imp {Q : σ → ρ → Prop}
    (restores : Restores depth format before record lefts rights Q)
    (implies : ∀ later final, Q later final → R later final) :
    Restores depth format before record lefts rights R :=
  fun members given written legible distinct unread required =>
    (restores members given written legible distinct unread required).imp implies

theorem restores_general {isRequired : Bool} {omitted : α → Bool} {left right : Codec σ α}
    {get : ρ → α} {set : α → ρ → ρ} (restored : left.Restores depth right S (get before))
    (omits : omitted (get before) = true → isRequired = false ∧
      ∃ empty, set empty record = record ∧ ∀ later, S later (get before) empty)
    (rest : ∀ value, Restores depth format before (set value record) lefts rights
      fun later final => S later (get before) value → R later final) :
    Restores depth format before record
      (.general name isRequired omitted left get set :: lefts)
      (.general name isRequired omitted right get set :: rights) R := by
  refine restores_cons name rfl rfl (fun _ => rfl) ?_ ?_ rest
  · intro leftOut
    cases isOmitted : omitted (get before) with
    | true =>
        obtain ⟨optional, empty, blank, holds⟩ := omits isOmitted
        exact ⟨optional, blank ▸ (rest empty).imp fun later _ done => done (holds later)⟩
    | false =>
        simp only [Field.general, isOmitted] at leftOut
        obtain ⟨_, _, never⟩ := map_eq_ok leftOut
        cases never
  · intro json written legible
    cases isOmitted : omitted (get before) with
    | true => simp [Field.general, isOmitted] at written
    | false =>
        simp only [Field.general, isOmitted] at written
        obtain ⟨json, isWritten, same⟩ := map_eq_ok written
        cases same
        exact restored json isWritten legible

/-- A field that is always written. -/
theorem restores_given {isRequired : Bool} {left right : Codec σ α} {get : ρ → α} {set : α → ρ → ρ}
    (restored : left.Restores depth right S (get before))
    (rest : ∀ value, Restores depth format before (set value record) lefts rights
      fun later final => S later (get before) value → R later final) :
    Restores depth format before record
      (.general name isRequired (fun _ => false) left get set :: lefts)
      (.general name isRequired (fun _ => false) right get set :: rights) R :=
  restores_general restored nofun rest

theorem restores_flag {get : ρ → Bool} {set : Bool → ρ → ρ} (blank : set false record = record)
    (rest : ∀ value, Restores depth format before (set value record) lefts rights
      fun later final => get before = value → R later final) :
    Restores depth format before record (.flag name get set :: lefts) (.flag name get set :: rights)
      R := by
  refine restores_general (Codec.restores_bool _) (fun unset => ⟨rfl, false, blank, fun _ => ?_⟩) rest
  exact (Bool.not_eq_true' _).mp unset

theorem restores_list {left right : Codec σ α} {get : ρ → List α} {set : List α → ρ → ρ}
    (restored : (Codec.list left).Restores depth (.list right) (fun later => List.Forall₂ (S later))
      (get before))
    (blank : set [] record = record)
    (rest : ∀ value, Restores depth format before (set value record) lefts rights
      fun later final => List.Forall₂ (S later) (get before) value → R later final) :
    Restores depth format before record (.list name left get set :: lefts)
      (.list name right get set :: rights) R := by
  refine restores_general restored (fun isEmpty => ⟨rfl, [], blank, fun _ => ?_⟩) rest
  rw [List.isEmpty_iff.mp isEmpty]
  exact .nil

theorem restores_table {left right : Codec σ α} {get : ρ → Table α} {set : Table α → ρ → ρ}
    (restored : (Codec.table left).Restores depth (.table right) (fun later => Table.Rel (S later))
      (get before))
    (blank : set [] record = record)
    (rest : ∀ value, Restores depth format before (set value record) lefts rights
      fun later final => Table.Rel (S later) (get before) value → R later final) :
    Restores depth format before record (.table name left get set :: lefts)
      (.table name right get set :: rights) R := by
  refine restores_general restored (fun isEmpty => ⟨rfl, [], blank, fun _ => ?_⟩) rest
  rw [List.isEmpty_iff.mp isEmpty]
  exact .nil

/-- No value is written as `null`, which would be read as none. -/
theorem restores_optional {left right : Codec σ α} {get : ρ → Option α} {set : Option α → ρ → ρ}
    (present : ∀ value ∈ get before, ∀ json, left.write value = .ok json → json ≠ .null)
    (restored : ∀ value ∈ get before, left.Restores depth right S value)
    (blank : set none record = record)
    (rest : ∀ value, Restores depth format before (set value record) lefts rights
      fun later final => Option.Rel (S later) (get before) value → R later final) :
    Restores depth format before record (.optional name left get set :: lefts)
      (.optional name right get set :: rights) R := by
  refine restores_cons name rfl rfl (fun _ => rfl) ?_ ?_ rest
  · intro leftOut
    cases isBefore : get before with
    | none =>
        refine ⟨rfl, blank ▸ (rest none).imp fun later _ done => done ?_⟩
        rw [isBefore]
        exact .none
    | some value =>
        simp only [Field.optional, isBefore] at leftOut
        obtain ⟨_, _, never⟩ := map_eq_ok leftOut
        cases never
  · intro json written legible
    cases isBefore : get before with
    | none => simp [Field.optional, isBefore] at written
    | some value =>
        simp only [Field.optional, isBefore] at written
        obtain ⟨json, isWritten, same⟩ := map_eq_ok written
        cases same
        have notNull := isNull_node (present value isBefore json isWritten)
        simp only [Field.readOptional, notNull]
        exact (restored value isBefore json isWritten legible).map fun later after holds => .some holds

theorem restores_optional_kept {codec : Codec σ α} {get : ρ → Option α} {set : Option α → ρ → ρ}
    (present : ∀ value ∈ get before, ∀ json, codec.write value = .ok json → json ≠ .null)
    (restored : ∀ value ∈ get before, codec.Restores depth codec Codec.kept value)
    (blank : set none record = record)
    (rest : ∀ value, Restores depth format before (set value record) lefts rights
      fun later final => get before = value → R later final) :
    Restores depth format before record (.optional name codec get set :: lefts)
      (.optional name codec get set :: rights) R := by
  refine restores_optional present restored blank fun value => (rest value).imp ?_
  intro later final done related
  exact done (OptionRel.eq related)

theorem restores_optional_string {get : ρ → Option String} {set : Option String → ρ → ρ}
    (blank : set none record = record)
    (rest : ∀ value, Restores depth format before (set value record) lefts rights
      fun later final => get before = value → R later final) :
    Restores depth format before record (.optional name .string get set :: lefts)
      (.optional name .string get set :: rights) R :=
  restores_optional_kept (fun _ _ _ written => by cases written; nofun)
    (fun value _ => Codec.restores_string value) blank rest

theorem restores_optional_json {get : ρ → Option Json} {set : Option Json → ρ → ρ}
    (orderly : ∀ json ∈ get before, json.Distinct ∧ json ≠ .null)
    (blank : set none record = record)
    (rest : ∀ value, Restores depth format before (set value record) lefts rights
      fun later final => get before = value → R later final) :
    Restores depth format before record (.optional name .json get set :: lefts)
      (.optional name .json get set :: rights) R :=
  restores_optional_kept (fun value member _ written => by cases written; exact (orderly value member).2)
    (fun value member => Codec.restores_json (orderly value member).1) blank rest

end

omit [Preorder σ] in
theorem field?_of_mem {format : Record σ ρ} {field : Field σ ρ}
    (distinct : (format.fields.map Field.name).Nodup) (member : field ∈ format.fields) :
    format.field? field.name = some field := by
  rw [field?]
  generalize format.fields = fields at distinct member
  induction fields with
  | nil => cases member
  | cons first rest ih =>
      obtain ⟨isNew, distinct⟩ := List.nodup_cons.mp distinct
      rcases List.mem_cons.mp member with rfl | member
      · simp
      · have different : first.name ≠ field.name := fun same =>
          isNew (same ▸ List.mem_map_of_mem member)
        rw [List.find?_cons_of_neg (by simpa using different)]
        exact ih distinct member

/-- A record is restored if its fields are, on top of the blank record. -/
theorem restores {left right : Record σ ρ} {R : σ → ρ → ρ → Prop}
    (distinct : (right.fields.map Field.name).Nodup)
    (fields : Restores depth right before right.blank left.fields right.fields fun later =>
      R later before) :
    left.codec.Restores (depth + 1) right.codec R before := by
  intro json written legible
  obtain ⟨members, areWritten, rfl⟩ := map_eq_ok written
  cases legible with
  | object legible =>
      exact fields members [] areWritten legible distinct
        (fun _ member => ⟨List.not_mem_nil, field?_of_mem distinct member⟩)
        fun _ member _ => .inr member

end Record

end ApiLinker
