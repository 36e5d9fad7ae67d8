import ApiLinker.Proofs.Schema.Grammar
import ApiLinker.Proofs.Schema.Restored

/-!
Reading a schema is exact.

A tree without repeated names is read as a schema if and only if its value is that of one, and what
is written for the schema is the value in its tidy form (`Schema.read_exact`).  Both go member by
member: reading decides on the value in its role, and the body takes what is kept of it.
-/

namespace ApiLinker

section

/-! Reading that succeeds on some values and fails on the others. -/

variable {σ α β : Type}

/-- The reading succeeds if and only if `fits`, and its result is as `holds` says. -/
structure Decides (decoder : Decoder σ α) (fits : Bool) (holds : α → Prop) : Prop where
  run : ∀ start, match decoder start with
    | .ok (value, _) => fits = true ∧ holds value
    | .error _ => fits = false

variable {decoder : Decoder σ α} {next : α → Decoder σ β} {first second : Bool}
variable {P Q : α → Prop} {R : β → Prop}

theorem decides_pure {value : α} (holds : P value) : Decides (pure value : Decoder σ α) true P :=
  ⟨fun _ => ⟨rfl, holds⟩⟩

theorem decides_throw (fault : Json.Fault) : Decides (throw fault : Decoder σ α) false P :=
  ⟨fun _ => rfl⟩

theorem Decides.bind (decides : Decides decoder first P)
    (rest : ∀ value, P value → Decides (next value) second R) :
    Decides (decoder >>= next) (first && second) R := ⟨fun start => by
  have decided := decides.run start
  change match (decoder start).bind fun pair => next pair.1 pair.2 with
    | .ok (value, _) => (first && second) = true ∧ R value
    | .error _ => (first && second) = false
  cases ran : decoder start with
  | error fault =>
      rw [ran] at decided
      rw [Except.bind, decided, Bool.false_and]
  | ok pair =>
      rw [ran] at decided
      rw [Except.bind, decided.1, Bool.true_and]
      exact (rest pair.1 decided.2).run pair.2⟩

theorem Decides.imp (decides : Decides decoder first P) (implies : ∀ value, P value → Q value) :
    Decides decoder first Q := ⟨fun start => by
  have decided := decides.run start
  cases ran : decoder start with
  | error fault => rwa [ran] at decided
  | ok pair =>
      rw [ran] at decided
      exact ⟨decided.1, implies pair.1 decided.2⟩⟩

theorem Decides.map {change : α → β} (decides : Decides decoder first P)
    (implies : ∀ value, P value → R (change value)) : Decides (change <$> decoder) first R := by
  rw [map_eq_pure_bind, ← Bool.and_true first]
  exact decides.bind fun value holds => decides_pure (implies value holds)

end

namespace Schema

open Codec Json Outcome SchemaBody

theorem decides_alternative {choice : String} {decoder : Numbering α} {fits : Bool}
    {P : α → Prop} (decides : Decides decoder fits P) :
    Decides (alternative choice decoder) fits P := ⟨fun start => by
  have decided := decides.run start
  rw [alternative]
  cases ran : decoder start with
  | error fault => rwa [ran] at decided
  | ok pair => rwa [ran] at decided⟩

section

/-! A value in each of its roles. -/

/-- What is read of the tree agrees with its value. -/
structure Agrees (node : Node) (json : Json) : Prop where
  schema : Decides (read node) (Role.schema.fits json) fun schema =>
    schema.json = Role.schema.tidy json
  list : Decides (readList node) (Role.list.fits json) fun schemas =>
    .array (schemas.map Schema.json) = Role.list.tidy json
  table : Decides (readTable node) (Role.table.fits json) fun schemas =>
    .object (schemas.map fun (name, schema) => (name, schema.json)) = Role.table.tidy json

variable {node : Node} {json : Json}

theorem decides_pointer (isValue : node.value = .ok json) :
    Decides (liftM (readPointer node) : Numbering (Option String)) (Role.pointer.fits json)
      fun target => target.map Json.string = Role.pointer.kept? (Role.pointer.tidy json) := by
  cases node with
  | absent | brokenWord | brokenNumber => cases isValue
  | null => cases isValue; exact decides_pure rfl
  | bool => cases isValue; exact decides_throw _
  | number =>
      obtain ⟨_, _, rfl⟩ := map_eq_ok isValue
      exact decides_throw _
  | quoted literal =>
      obtain ⟨text, isText, rfl⟩ := map_eq_ok isValue
      rw [readPointer, isText]
      exact decides_pure rfl
  | array =>
      obtain ⟨_, _, _, rfl⟩ := array_of_value isValue
      exact decides_throw _
  | object =>
      obtain ⟨_, _, _, rfl⟩ := object_of_value isValue
      exact decides_throw _

theorem decides_optional (isValue : node.value = .ok json) (agrees : Agrees node json) :
    Decides (Field.readOptional numbered node) (Role.optional.fits json) fun schema? =>
      schema?.map Schema.json = Role.optional.kept? (Role.optional.tidy json) := by
  rw [Field.readOptional]
  cases isNull : node.isNull with
  | true =>
      cases node <;> cases isNull
      cases isValue
      exact decides_pure rfl
  | false =>
      have present : json ≠ .null := ne_null_of_value isValue isNull
      rw [Role.fits_optional present, Role.kept?_tidy_optional present]
      exact agrees.schema.map fun schema written => congrArg some written

theorem decides_additional (isValue : node.value = .ok json) (agrees : Agrees node json) :
    Decides (readWhole node) (Role.additional.fits json) fun additional =>
      additionalJson? additional = Role.additional.kept? (Role.additional.tidy json) := by
  rw [readWhole, isValue, lift_ok_bind]
  cases json with
  | null | bool => exact decides_pure rfl
  | number | string | array | object =>
      exact decides_alternative (agrees.schema.map fun schema written => congrArg some written)

theorem decides_list (agrees : Agrees node json) :
    Decides ((list numbered).read node) (Role.list.fits json) fun schemas =>
      listJson? schemas = Role.list.kept? (Role.list.tidy json) := by
  rw [← readList_eq]
  refine agrees.list.imp fun schemas written => ?_
  rw [← written]
  cases schemas <;> rfl

theorem decides_table (agrees : Agrees node json) :
    Decides ((table numbered).read node) (Role.table.fits json) fun schemas =>
      tableJson? schemas = Role.table.kept? (Role.table.tidy json) := by
  rw [← readTable_eq]
  refine agrees.table.imp fun schemas written => ?_
  rw [← written]
  cases schemas <;> rfl

end

section

/-! A body, member by member. -/

/-- What is written for the members with a role of their own, unless they are left out. -/
def declaredParts (body : SchemaBody Schema) : List (String × Option Json) :=
  [("$ref", body.reference.map .string), ("items", body.items.map json),
    ("allOf", listJson? body.allOf), ("anyOf", listJson? body.anyOf),
    ("oneOf", listJson? body.oneOf), ("not", body.not.map json),
    ("properties", tableJson? body.properties),
    ("additionalProperties", additionalJson? body.additional)]

theorem members_eq_declaredParts (body : SchemaBody Schema) :
    body.members json =
      ((declaredParts body).flatMap fun (name, part) => part.toList.map (name, ·)) ++
        body.keywords := by
  rw [members_eq]
  simp [declaredParts]

theorem of_ne_keyword {body : SchemaBody Schema} {entry : String × Option Json}
    (member : entry ∈ declaredParts body) : Role.of entry.1 ≠ .keyword := by
  have names : (declaredParts body).map Prod.fst = Role.declared := rfl
  exact Role.mem_declared.mp (names ▸ List.mem_map_of_mem member)

/-- The member of this name, in this role, is read by `decoder`, taken by `set` and written as
`json?` says. -/
structure Keeps (name : String) (role : Role) (decoder : Node → Numbering α)
    (set : α → SchemaBody Schema → SchemaBody Schema) (json? : α → Option Json) : Prop where
  isRole : Role.of name = role
  isPart : role ≠ .keyword
  takes : Takes name decoder set
  parts : ∀ result body, declaredParts (set result body) = (declaredParts body).map fun entry =>
    if entry.1 = name then (name, json? result) else entry
  keywords : ∀ result body, (set result body).keywords = body.keywords

theorem keeps_reference : Keeps "$ref" .pointer (fun value => liftM (readPointer value))
    (fun reference body => { body with reference }) (·.map Json.string) :=
  ⟨by decide, by decide, takes_reference, by simp [declaredParts], fun _ _ => rfl⟩

theorem keeps_items : Keeps "items" .optional (Field.readOptional numbered)
    (fun items body => { body with items }) (·.map Schema.json) :=
  ⟨by decide, by decide, takes_items, by simp [declaredParts], fun _ _ => rfl⟩

theorem keeps_allOf : Keeps "allOf" .list (list numbered).read
    (fun allOf body => { body with allOf }) listJson? :=
  ⟨by decide, by decide, takes_allOf, by simp [declaredParts], fun _ _ => rfl⟩

theorem keeps_anyOf : Keeps "anyOf" .list (list numbered).read
    (fun anyOf body => { body with anyOf }) listJson? :=
  ⟨by decide, by decide, takes_anyOf, by simp [declaredParts], fun _ _ => rfl⟩

theorem keeps_oneOf : Keeps "oneOf" .list (list numbered).read
    (fun oneOf body => { body with oneOf }) listJson? :=
  ⟨by decide, by decide, takes_oneOf, by simp [declaredParts], fun _ _ => rfl⟩

theorem keeps_not : Keeps "not" .optional (Field.readOptional numbered)
    (fun not body => { body with not }) (·.map Schema.json) :=
  ⟨by decide, by decide, takes_not, by simp [declaredParts], fun _ _ => rfl⟩

theorem keeps_properties : Keeps "properties" .table (table numbered).read
    (fun properties body => { body with properties }) tableJson? :=
  ⟨by decide, by decide, takes_properties, by simp [declaredParts], fun _ _ => rfl⟩

theorem keeps_additional : Keeps "additionalProperties" .additional readWhole
    (fun additional body => { body with additional }) additionalJson? :=
  ⟨by decide, by decide, takes_additional, by simp [declaredParts], fun _ _ => rfl⟩

/-- The body `after` holds what `before` holds and, over it, what is kept of the members. -/
structure Extends (before : SchemaBody Schema) (members : List (String × Json))
    (after : SchemaBody Schema) : Prop where
  parts : declaredParts after = (declaredParts before).map fun entry =>
    match Table.find? entry.1 members with
    | some value => (entry.1, (Role.of entry.1).kept? value)
    | none => entry
  keywords : after.keywords =
    before.keywords ++ members.filter fun member => Role.of member.1 = .keyword

variable {body before after : SchemaBody Schema} {members : List (String × Json)}

/-- What extends the blank body is written as the members, arranged. -/
theorem Extends.members_eq (extended : Extends {} members after) :
    after.members json = Role.arrange members := by
  have blank : declaredParts {} = Role.declared.map (·, none) := rfl
  rw [members_eq_declaredParts, extended.parts, extended.keywords, blank, Role.arrange,
    List.map_map, List.flatMap_map, List.filterMap_eq_flatMap_toList, List.nil_append]
  congr 2
  funext name
  cases found : Table.find? name members <;> simp [found, Option.toList_map]

theorem mem_structural {name : String} : name ∈ structural ↔ Role.of name ≠ .keyword := by
  rw [← Role.mem_declared]
  simp only [structural, Role.declared, List.mem_cons, List.not_mem_nil, or_false]
  tauto

/-- Members of these names can be read on top of the body. -/
structure Open (seen : List String) (body : SchemaBody Schema) (names : List String) : Prop where
  distinct : names.Nodup
  among : seen ⊆ structural
  unseen : ∀ name ∈ names, name ∉ seen ∧ name ∉ body.keywords.names

variable {name : String} {names seen : List String} {decoder : Node → Numbering α}
variable {set : α → SchemaBody Schema → SchemaBody Schema} {json? : α → Option Json}
variable {role : Role} {result : α} {value : Json}

theorem Open.apart (opened : Open seen body (name :: names)) {other : String}
    (member : other ∈ names) : other ≠ name := fun same =>
  (List.nodup_cons.mp opened.distinct).1 (same ▸ member)

theorem Open.part (opened : Open seen body (name :: names))
    (keeps : Keeps name role decoder set json?) (result : α) :
    Open (name :: seen) (set result body) names where
  distinct := (List.nodup_cons.mp opened.distinct).2
  among := List.cons_subset.mpr
    ⟨mem_structural.mpr (keeps.isRole ▸ keeps.isPart), opened.among⟩
  unseen other member := by
    have isNew := opened.unseen other (List.mem_cons_of_mem _ member)
    rw [keeps.keywords]
    exact ⟨by simp [opened.apart member, isNew.1], isNew.2⟩

theorem Open.keyword (opened : Open seen body (name :: names)) (value : Json) :
    Open seen { body with keywords := body.keywords ++ [(name, value)] } names where
  distinct := (List.nodup_cons.mp opened.distinct).2
  among := opened.among
  unseen other member := by
    have isNew := opened.unseen other (List.mem_cons_of_mem _ member)
    have old : other ∉ body.keywords.map Prod.fst := isNew.2
    exact ⟨isNew.1, by simp [Table.names, old, opened.apart member]⟩

theorem Extends.part (extended : Extends (set result body) members after)
    (keeps : Keeps name role decoder set json?) (isNew : name ∉ Table.names members)
    (written : json? result = role.kept? value) :
    Extends body ((name, value) :: members) after where
  parts := by
    rw [extended.parts, keeps.parts, List.map_map]
    refine List.map_congr_left fun entry _ => ?_
    by_cases same : entry.1 = name
    · simp [same, Table.find?_of_not_mem isNew, Table.find?, written, keeps.isRole]
    · simp [same, Table.find?, Ne.symm same]
  keywords := by
    have isPart : Role.of name ≠ .keyword := keeps.isRole ▸ keeps.isPart
    rw [extended.keywords, keeps.keywords, List.filter_cons_of_neg (by simpa using isPart)]

theorem Extends.keyword
    (extended : Extends { body with keywords := body.keywords ++ [(name, value)] } members after)
    (isKeyword : Role.of name = .keyword) : Extends body ((name, value) :: members) after where
  parts := by
    rw [extended.parts]
    refine List.map_congr_left fun entry member => ?_
    have different : name ≠ entry.1 := by
      rintro rfl
      exact of_ne_keyword member isKeyword
    rw [Table.find?, if_neg different]
  keywords := by
    rw [extended.keywords, List.filter_cons_of_pos (by simpa using isKeyword), List.append_assoc]
    rfl

variable {node : Node} {rest : Members} {json : Json} {entries : List (String × Json)}

/-- Reading the members on top of any body extends it with them, tidy. -/
def Continues (rest : Members) (entries : List (String × Json)) : Prop :=
  ∀ seen body, Open seen body (Table.names entries) →
    Decides (readMembers seen body rest) (Role.fitMembers entries)
      (Extends body (Role.tidyMembers entries))

theorem Continues.part (continues : Continues rest entries)
    (keeps : Keeps name role decoder set json?)
    (decides : Decides (decoder node) (role.fits json) fun result =>
      json? result = role.kept? (role.tidy json)) :
    Continues (.member (.ofText name) node rest) ((name, json) :: entries) := by
  intro seen body opened
  have isNew : name ∉ Table.names (Role.tidyMembers entries) := by
    rw [Role.names_tidyMembers]
    exact (List.nodup_cons.mp opened.distinct).1
  rw [keeps.takes seen body node rest (opened.unseen name List.mem_cons_self).1, Role.fitMembers,
    Role.tidyMembers, keeps.isRole]
  exact decides.bind fun result written =>
    (continues _ _ (opened.part keeps result)).imp fun after extended =>
      extended.part keeps isNew written

theorem Continues.keyword (continues : Continues rest entries)
    (isKeyword : Role.of name = .keyword) (isValue : node.value = .ok json) :
    Continues (.member (.ofText name) node rest) ((name, json) :: entries) := by
  intro seen body opened
  have isNew := (opened.unseen name List.mem_cons_self).2
  have unstructured : name ∉ structural := fun member => mem_structural.mp member isKeyword
  rw [readMembers_keyword opened.among unstructured, isValue, lift_ok_bind,
    Table.insert_of_not_mem isNew, Role.fitMembers, Role.tidyMembers, isKeyword, Role.fits,
    Bool.true_and, Role.tidy_keyword]
  exact (continues _ _ (opened.keyword json)).imp fun after extended => extended.keyword isKeyword

theorem Continues.member (continues : Continues rest entries) (name : String)
    (isValue : node.value = .ok json) (agrees : Agrees node json) :
    Continues (.member (.ofText name) node rest) ((name, json) :: entries) := by
  by_cases isKeyword : Role.of name = .keyword
  · exact continues.keyword isKeyword isValue
  · have isDeclared : name ∈ Role.declared := Role.mem_declared.mpr isKeyword
    simp only [Role.declared, List.mem_cons, List.not_mem_nil, or_false] at isDeclared
    rcases isDeclared with rfl | rfl | rfl | rfl | rfl | rfl | rfl | rfl
    · exact continues.part keeps_reference (decides_pointer isValue)
    · exact continues.part keeps_items (decides_optional isValue agrees)
    · exact continues.part keeps_allOf (decides_list agrees)
    · exact continues.part keeps_anyOf (decides_list agrees)
    · exact continues.part keeps_oneOf (decides_list agrees)
    · exact continues.part keeps_not (decides_optional isValue agrees)
    · exact continues.part keeps_properties (decides_table agrees)
    · exact continues.part keeps_additional (decides_additional isValue agrees)

end

theorem decides_number (body : SchemaBody Schema) :
    Decides (number body) true fun schema => schema.json = .object (body.members json) :=
  ⟨fun start => ⟨rfl, json_node start body⟩⟩

/-- A member is read by its name, however that is written. -/
theorem readMembers_ofText {key : Quoted} {name : String} (isName : key.text = .ok name)
    (seen : List String) (body : SchemaBody Schema) (node : Node) (rest : Members) :
    readMembers seen body (.member key node rest) =
      readMembers seen body (.member (.ofText name) node rest) := by
  rw [readMembers, readMembers, isName, text_ofText]

-- By induction on the tree.  Members are read on top of what was read before them, so what is known
-- of them holds for every body that can take them.
mutual

theorem agrees_of_value : (node : Node) → {json : Json} → node.value = .ok json → node.Unrepeated →
    Agrees node json
  | .absent _, _, isValue, _ | .brokenWord _, _, isValue, _ | .brokenNumber _, _, isValue, _ => by
      cases isValue
  | .null, _, isValue, _ | .bool _, _, isValue, _ => by
      cases isValue
      exact ⟨decides_throw _, decides_throw _, decides_throw _⟩
  | .number _, _, isValue, _ | .quoted _, _, isValue, _ => by
      obtain ⟨_, _, rfl⟩ := map_eq_ok isValue
      exact ⟨decides_throw _, decides_throw _, decides_throw _⟩
  | .array _ elements, _, isValue, unrepeated => by
      obtain ⟨rfl, values, areValues, rfl⟩ := array_of_value isValue
      refine ⟨decides_throw _, ?_, decides_throw _⟩
      exact (decides_elements elements areValues unrepeated).imp fun schemas written =>
        congrArg Json.array written
  | .object _ members, _, isValue, unrepeated => by
      obtain ⟨rfl, entries, areEntries, rfl⟩ := object_of_value isValue
      have distinct : (Table.names entries).Nodup := unrepeated.1 entries areEntries
      rw [Table.ofEntries_of_nodup distinct]
      -- An object can be a schema, member by member on top of a blank body, and a table.
      refine ⟨?_, decides_throw _, ?_⟩
      · have opened : Open [] {} (Table.names entries) :=
          ⟨distinct, List.nil_subset _, fun _ _ => ⟨List.not_mem_nil, List.not_mem_nil⟩⟩
        have whole := (continues members areEntries unrepeated.2 _ _ opened).bind
          fun after extended => (decides_number after).imp fun schema written =>
            (written.trans (congrArg Json.object extended.members_eq) :
              schema.json = Role.schema.tidy (.object entries))
        rwa [Bool.and_true] at whole
      · refine (decides_entries members areEntries unrepeated.2).map fun schemas written => ?_
        have names : (schemas.map Prod.fst).Nodup := by
          have same := congrArg (List.map Prod.fst) written
          rw [List.map_map] at same
          exact (same.trans (Role.names_tidyEntries entries)) ▸ distinct
        rw [Table.ofEntries_of_nodup names]
        exact congrArg Json.object written

theorem decides_elements : (elements : Elements) → {values : List Json} →
    elements.values = .ok values → elements.Unrepeated →
    Decides (readElements elements) (Role.fitElements values) fun schemas =>
      schemas.map Schema.json = Role.tidyElements values
  | .stop _, _, areValues, _ => by
      obtain ⟨_, fine, same⟩ := bind_eq_ok areValues
      cases same
      rw [readElements, fine]
      exact decides_pure rfl
  | .item first rest, _, areValues, unrepeated => by
      rw [Elements.values] at areValues
      obtain ⟨_, isFirst, areValues⟩ := bind_eq_ok areValues
      obtain ⟨_, areOthers, same⟩ := bind_eq_ok areValues
      cases same
      rw [readElements, Role.fitElements, Role.tidyElements]
      refine (agrees_of_value first isFirst unrepeated.1).schema.bind fun schema written => ?_
      refine (decides_elements rest areOthers unrepeated.2).map fun schemas others => ?_
      rw [List.map_cons, written, others]

theorem decides_entries : (members : Members) → {entries : List (String × Json)} →
    members.entries = .ok entries → members.Unrepeated →
    Decides (readEntries members) (Role.fitEntries entries) fun schemas =>
      (schemas.map fun (name, schema) => (name, schema.json)) = Role.tidyEntries entries
  | .stop _, _, areEntries, _ => by
      obtain ⟨_, fine, same⟩ := bind_eq_ok areEntries
      cases same
      rw [readEntries, fine]
      exact decides_pure rfl
  | .noFirstKey, _, areEntries, _ => by cases areEntries
  | .member _ first rest, _, areEntries, unrepeated => by
      rw [Members.entries] at areEntries
      obtain ⟨_, isName, areEntries⟩ := bind_eq_ok areEntries
      obtain ⟨_, isFirst, areEntries⟩ := bind_eq_ok areEntries
      obtain ⟨_, areOthers, same⟩ := bind_eq_ok areEntries
      cases same
      rw [readEntries, isName, lift_ok_bind, Role.fitEntries, Role.tidyEntries]
      refine (agrees_of_value first isFirst unrepeated.1).schema.bind fun schema written => ?_
      refine (decides_entries rest areOthers unrepeated.2).map fun schemas others => ?_
      simp only [List.map_cons, written, others]

theorem continues : (members : Members) → {entries : List (String × Json)} →
    members.entries = .ok entries → members.Unrepeated → Continues members entries
  | .stop _, _, areEntries, _ => by
      obtain ⟨_, fine, same⟩ := bind_eq_ok areEntries
      cases same
      intro seen body _
      rw [readMembers, fine]
      exact decides_pure ⟨(List.map_id _).symm, (List.append_nil _).symm⟩
  | .noFirstKey, _, areEntries, _ => by cases areEntries
  | .member _ first rest, _, areEntries, unrepeated => by
      rw [Members.entries] at areEntries
      obtain ⟨name, isName, areEntries⟩ := bind_eq_ok areEntries
      obtain ⟨_, isFirst, areEntries⟩ := bind_eq_ok areEntries
      obtain ⟨_, areOthers, same⟩ := bind_eq_ok areEntries
      cases same
      intro seen body opened
      rw [readMembers_ofText isName]
      exact (continues rest areOthers unrepeated.2).member name isFirst
        (agrees_of_value first isFirst unrepeated.1) _ _ opened

end

/-- A tree without repeated names is read as a schema if and only if its value is that of one, and
the schema is written as the value in its tidy form. -/
theorem read_exact {node : Node} {json : Json} (isValue : node.value = .ok json)
    (unrepeated : node.Unrepeated) (start : Nat) :
    ((∃ schema last, read node start = .ok (schema, last)) ↔ Role.schema.fits json = true) ∧
      ∀ schema last, read node start = .ok (schema, last) →
        schema.json = Role.schema.tidy json := by
  have decided := (agrees_of_value node isValue unrepeated).schema.run start
  cases ran : read node start with
  | error fault =>
      rw [ran] at decided
      simp [show Role.schema.fits json = false from decided]
  | ok pair =>
      rw [ran] at decided
      obtain ⟨fits, written⟩ := decided
      refine ⟨⟨fun _ => fits, fun _ => ⟨pair.1, pair.2, rfl⟩⟩, fun schema last same => ?_⟩
      cases same
      exact written

/-- The members stand in another order than they are written in, and three say nothing. -/
def shuffled : Json :=
  .object [
    ("type", .string "object"),
    ("default", .null),
    ("allOf", .array []),
    ("properties", .object [
      ("size", .object [
        ("format", .string "int32"), ("items", .null),
        ("not", .object [("$ref", .string "#/components/schemas/Zero")])])]),
    ("additionalProperties", .object [("enum", .array []), ("oneOf", .array [.object []])]),
    ("$ref", .null)]

def shuffledTidy : Json :=
  .object [
    ("properties", .object [
      ("size", .object [
        ("not", .object [("$ref", .string "#/components/schemas/Zero")]),
        ("format", .string "int32")])]),
    ("additionalProperties", .object [("oneOf", .array [.object []]), ("enum", .array [])]),
    ("type", .string "object"),
    ("default", .null)]

theorem read_exact_shuffled :
    shuffled.node.value = .ok shuffled ∧ shuffled.node.Unrepeated ∧
      ∃ schema last, read shuffled.node 0 = .ok (schema, last) ∧ schema.json = shuffledTidy := by
  have isValue : shuffled.node.value = .ok shuffled := rfl
  have unrepeated : shuffled.node.Unrepeated :=
    unrepeated_node shuffled (distinct_of_value shuffled.node isValue)
  obtain ⟨readable, written⟩ := read_exact isValue unrepeated 0
  obtain ⟨schema, last, ran⟩ := readable.mpr rfl
  exact ⟨isValue, unrepeated, schema, last, ran, written schema last ran⟩

end Schema

end ApiLinker
