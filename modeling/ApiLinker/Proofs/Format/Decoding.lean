import ApiLinker.Format.Record
import ApiLinker.Proofs.Rules
import ApiLinker.Proofs.Table

/-!
Proof rules for reading.

What reading builds up beside a value is the state that `Rules` speaks of.  A fault ends everything,
so a decoder is judged by what it gives when it succeeds.
-/

namespace ApiLinker

namespace Rules

variable {ω σ α β ρ : Type} (rules : Rules ω σ)

/-- Run from a state that describes `world`, a decoder that succeeds ends in a later world, with a
value as `result` says. -/
def Decodes (decoder : Decoder σ α) (result : ω → α → Prop) (world : ω) : Prop :=
  ∀ state value last, rules.describes world state → decoder state = .ok (value, last) →
    ∃ later, rules.grows world later ∧ rules.describes later last ∧ result later value

/-- Whatever is read is as `result` says. -/
def Reads (read : Json.Node → Decoder σ α) (result : ω → α → Prop) : Prop :=
  ∀ node world, rules.Decodes (read node) result world

/-- Setting the field leaves a record as `result` says. -/
def Keeps (result : ω → ρ → Prop) (field : Field σ ρ) : Prop :=
  rules.Reads field.read fun world set => ∀ record, result world record → result world (set record)

variable {rules} {world : ω} {P : ω → α → Prop} {Q : ω → β → Prop}

theorem decodes_pure {value : α} (holds : P world value) : rules.Decodes (pure value) P world := by
  intro state _ _ described ran
  cases ran
  exact ⟨world, rules.refl world, described, holds⟩

theorem decodes_throw {fault : Json.Fault} : rules.Decodes (throw fault) P world := by
  intro state value last _ ran
  cases ran

theorem decodes_lift {outcome : Except Json.Fault α}
    (holds : ∀ value, outcome = .ok value → P world value) :
    rules.Decodes (liftM outcome) P world := by
  intro state value last described ran
  cases outcome with
  | error => cases ran
  | ok result =>
      cases ran
      exact ⟨world, rules.refl world, described, holds _ rfl⟩

theorem decodes_outcome {outcome : Except Json.Fault α} :
    rules.Decodes (liftM outcome) (fun _ _ => True) world :=
  decodes_lift fun _ _ => trivial

theorem Decodes.bind {decoder : Decoder σ α} {next : α → Decoder σ β}
    (first : rules.Decodes decoder P world)
    (rest : ∀ later value, rules.grows world later → P later value →
      rules.Decodes (next value) Q later) : rules.Decodes (decoder >>= next) Q world := by
  intro state value last described ran
  change (decoder state).bind (fun result => next result.1 result.2) = .ok (value, last) at ran
  cases run : decoder state with
  | error =>
      rw [run] at ran
      cases ran
  | ok result =>
      rw [run] at ran
      obtain ⟨later, grows, describes, holds⟩ := first state result.1 result.2 described run
      obtain ⟨final, growsOn, ends, holdsLast⟩ :=
        rest later result.1 grows holds result.2 value last describes ran
      exact ⟨final, rules.trans grows growsOn, ends, holdsLast⟩

theorem Decodes.map {decoder : Decoder σ α} {change : α → β}
    (decodes : rules.Decodes decoder P world)
    (implies : ∀ later value, P later value → Q later (change value)) :
    rules.Decodes (change <$> decoder) Q world := by
  rw [map_eq_pure_bind]
  exact decodes.bind fun later value _ holds => decodes_pure (implies later value holds)

theorem decodes_check {outcome : Except Json.Fault Unit} {next : Decoder σ β}
    (rest : rules.Decodes next Q world) :
    rules.Decodes (liftM outcome >>= fun _ => next) Q world := by
  intro state value last described ran
  cases outcome with
  | error => cases ran
  | ok => exact rest state value last described ran

theorem decodes_refuseIf {tooDeep : Bool} {next : Decoder σ β} (rest : rules.Decodes next Q world) :
    rules.Decodes (Codec.refuseIf tooDeep >>= fun _ => next) Q world := by
  cases tooDeep with
  | true => exact decodes_throw.bind fun _ _ _ never => False.elim never
  | false => exact rest

theorem decodes_unless {refused : Bool} {fault : Json.Fault} {next : PUnit → Decoder σ β}
    (rest : rules.Decodes (next ()) Q world) :
    rules.Decodes (if refused = true then throw fault >>= next else next ()) Q world := by
  cases refused with
  | true => exact decodes_throw.bind fun _ _ _ never => False.elim never
  | false => exact rest

theorem decodes_unless_null {node : Json.Node} {read : Json.Node → Decoder σ α}
    {next : Option α → Decoder σ β} (decodes : rules.Decodes (read node) P world)
    (rest : ∀ later option, rules.grows world later → (∀ value ∈ option, P later value) →
      rules.Decodes (next option) Q later) :
    rules.Decodes
      (if node.isNull = true then pure none >>= next else some <$> read node >>= next) Q world := by
  split
  · exact rest world none (rules.refl world) fun value member => by cases member
  · have some : rules.Decodes (some <$> read node)
        (fun world option => ∀ value ∈ option, P world value) world :=
      decodes.map fun later value holds other member => by
        cases member
        exact holds
    exact some.bind rest

section

/-! Values that leave the state as it is. -/

theorem reads_string : rules.Reads Codec.string.read fun _ _ => True := by
  intro node world
  cases node with
  | quoted => exact decodes_outcome
  | absent | brokenWord | brokenNumber | null | bool | number | array | object =>
      exact decodes_throw

theorem reads_bool : rules.Reads Codec.bool.read fun _ _ => True := by
  intro node world
  cases node with
  | bool => exact decodes_pure trivial
  | absent | brokenWord | brokenNumber | null | quoted | number | array | object =>
      exact decodes_throw

theorem reads_json : rules.Reads Codec.json.read fun _ _ => True :=
  fun _ _ => decodes_outcome

theorem reads_variant {variants : List (String × α)} {name : α → String} {same : α → α → Bool} :
    rules.Reads (Codec.variant variants name same).read fun _ _ => True :=
  fun _ _ => decodes_outcome

end

section

/-! Lists and tables. -/

variable {read : Json.Node → Decoder σ α} (reads : rules.Reads read P) (stable : rules.Stable P)
include reads stable

theorem decodes_readElements (elements : Json.Elements) (world : ω) :
    rules.Decodes (Codec.readElements read elements)
      (fun world values => ∀ value ∈ values, P world value) world := by
  induction elements using Codec.readElements.induct generalizing world with
  | case1 ending =>
      exact decodes_check (decodes_pure fun _ member => by cases member)
  | case2 node rest ih =>
      refine (reads node world).bind fun later first _ holds => ?_
      refine (ih later).bind fun last values grows others => ?_
      refine decodes_pure fun value member => ?_
      rcases List.mem_cons.mp member with rfl | inRest
      · exact stable grows holds
      · exact others value inRest

theorem reads_readList :
    rules.Reads (Codec.readList read) fun world values => ∀ value ∈ values, P world value := by
  intro node world
  cases node with
  | array tooDeep elements =>
      exact decodes_refuseIf (decodes_readElements reads stable elements world)
  | absent | brokenWord | brokenNumber | null | bool | quoted | number | object =>
      exact decodes_throw

theorem decodes_readEntries (members : Json.Members) (world : ω) :
    rules.Decodes (Codec.readEntries read members)
      (fun world entries => ∀ entry ∈ entries, P world entry.2) world := by
  induction members using Codec.readEntries.induct generalizing world with
  | case1 ending =>
      exact decodes_check (decodes_pure fun _ member => by cases member)
  | case2 => exact decodes_throw
  | case3 key node rest ih =>
      refine decodes_outcome.bind fun middle name _ _ => ?_
      refine (reads node middle).bind fun later first _ holds => ?_
      refine (ih later).bind fun last entries grows others => ?_
      refine decodes_pure fun entry member => ?_
      rcases List.mem_cons.mp member with rfl | inRest
      · exact stable grows holds
      · exact others entry inRest

theorem reads_readTable :
    rules.Reads (Codec.readTable read) fun world table =>
      table.names.Nodup ∧ ∀ entry ∈ table, P world entry.2 := by
  intro node world
  cases node with
  | object tooDeep members =>
      refine decodes_refuseIf ((decodes_readEntries reads stable members world).bind ?_)
      intro later entries _ holds
      refine decodes_pure ⟨Table.nodup_ofEntries entries, fun entry member => ?_⟩
      exact holds entry (Table.mem_of_mem_ofEntries member)
  | absent | brokenWord | brokenNumber | null | bool | quoted | number | array =>
      exact decodes_throw

end

section

/-! Fields and records. -/

variable {R : ω → ρ → Prop} {codec : Codec σ α} {name : String} {isRequired : Bool}

theorem keeps_general {omitted : α → Bool} {get : ρ → α} {set : α → ρ → ρ}
    (reads : rules.Reads codec.read P)
    (sets : ∀ world value record, P world value → R world record → R world (set value record)) :
    rules.Keeps R (.general name isRequired omitted codec get set) :=
  fun node world => (reads node world).map fun later value holds record =>
    sets later value record holds

/-- A field that is given as `null` has no value. -/
theorem keeps_optional_of_present {get : ρ → Option α} {set : Option α → ρ → ρ}
    (reads : ∀ node world, node.isNull = false → rules.Decodes (codec.read node) P world)
    (sets : ∀ world option record, (∀ value ∈ option, P world value) → R world record →
      R world (set option record)) :
    rules.Keeps R (.optional name codec get set) := by
  intro node world
  have option : rules.Decodes (Field.readOptional codec node)
      (fun world option => ∀ value ∈ option, P world value) world := by
    rw [Field.readOptional]
    split
    · exact decodes_pure fun value member => by cases member
    · rename_i present
      refine (reads node world (Bool.not_eq_true _ ▸ present)).map ?_
      intro later value holds other member
      cases member
      exact holds
  exact option.map fun later option holds record => sets later option record holds

theorem keeps_optional {get : ρ → Option α} {set : Option α → ρ → ρ}
    (reads : rules.Reads codec.read P)
    (sets : ∀ world option record, (∀ value ∈ option, P world value) → R world record →
      R world (set option record)) :
    rules.Keeps R (.optional name codec get set) :=
  keeps_optional_of_present (fun node world _ => reads node world) sets

variable {format : Record σ ρ} (stable : rules.Stable R)
  (fields : ∀ field ∈ format.fields, rules.Keeps R field)
include stable fields

theorem decodes_readMembers (members : Json.Members) (given : List String) {record : ρ}
    (kept : R world record) : rules.Decodes (format.readMembers given record members) R world := by
  induction members using Codec.readEntries.induct generalizing given record world with
  | case1 ending =>
      refine decodes_check ?_
      cases format.missing? given with
      | none => exact decodes_pure kept
      | some field => exact decodes_throw
  | case2 => exact decodes_throw
  | case3 key node rest ih =>
      refine decodes_outcome.bind fun middle name grows _ => ?_
      have keptOn := stable grows kept
      cases isField : format.field? name with
      | none => exact decodes_check (ih given keptOn)
      | some field =>
          have isListed : field ∈ format.fields := List.mem_of_find?_eq_some isField
          have setting := (fields field isListed node middle).bind fun later set growsOn sets =>
            ih (name :: given) (sets record (stable growsOn keptOn))
          cases given.contains name with
          | true => exact decodes_throw.bind fun _ _ _ never => False.elim never
          | false => exact setting

theorem decodes_readFields (elements : Json.Elements) (index : Nat) {left : List (Field σ ρ)}
    (isLeft : ∀ field ∈ left, field ∈ format.fields) {record : ρ} (kept : R world record) :
    rules.Decodes (format.readElements index left record elements) R world := by
  induction elements using Codec.readElements.induct generalizing index left record world with
  | case1 ending =>
      cases left with
      | nil => exact decodes_check (decodes_pure kept)
      | cons field left =>
          refine decodes_check ?_
          split
          · exact decodes_throw
          · exact decodes_pure kept
  | case2 node rest ih =>
      cases left with
      | nil => exact decodes_throw
      | cons field left =>
          have isListed := isLeft field List.mem_cons_self
          have others := fun other member => isLeft other (List.mem_cons_of_mem field member)
          exact (fields field isListed node world).bind fun later set grows sets =>
            ih (index + 1) others (sets record (stable grows kept))

/-- A record that no field spoils is as it was when it was blank. -/
theorem reads_record (blank : ∀ world, R world format.blank) : rules.Reads format.read R := by
  intro node world
  cases node with
  | object tooDeep members =>
      exact decodes_refuseIf (decodes_readMembers stable fields members [] (blank world))
  | array tooDeep elements =>
      exact decodes_refuseIf
        (decodes_readFields stable fields elements 0 (fun _ member => member) (blank world))
  | absent | brokenWord | brokenNumber | null | bool | quoted | number => exact decodes_throw

end

end Rules

end ApiLinker
