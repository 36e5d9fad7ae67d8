import ApiLinker.Proofs.Format.Restoring
import ApiLinker.Proofs.Schema.Written

/-!
Schemas, read again.

What is written for a schema is read as a schema of the same contents (`Schema.restores_numbered`):
member by member, in the order in which they are written.
-/

namespace ApiLinker.Schema

open Codec Json Outcome SchemaBody

/-- The format of schemas, without a graph. -/
def numbered : Codec Nat Schema where
  read := read
  write schema := .ok schema.json
  same := same

section

/-! The readers of lists and tables are those of the format. -/

theorem readElements_eq : (elements : Elements) →
    readElements elements = Codec.readElements numbered.read elements
  | .stop _ => rfl
  | .item _ rest => by
      rw [readElements, Codec.readElements, readElements_eq rest]
      rfl

theorem readList_eq : (node : Node) → readList node = (list numbered).read node
  | .array _ elements => by
      rw [readList, readElements_eq elements]
      rfl
  | .absent _ | .brokenWord _ | .brokenNumber _ | .null | .bool _ | .number _ | .quoted _
  | .object _ _ => rfl

theorem readEntries_eq : (members : Members) →
    readEntries members = Codec.readEntries numbered.read members
  | .stop _ | .noFirstKey => rfl
  | .member _ _ rest => by
      rw [readEntries, Codec.readEntries, readEntries_eq rest]
      rfl

theorem readTable_eq : (node : Node) → readTable node = (table numbered).read node
  | .object _ members => by
      rw [readTable, readEntries_eq members]
      rfl
  | .absent _ | .brokenWord _ | .brokenNumber _ | .null | .bool _ | .number _ | .quoted _
  | .array _ _ => rfl

end

section

/-! What is read of a member. -/

/-- A member of this name is read by `decoder` and taken by `set`, if it is the first. -/
def Takes (name : String) (decoder : Node → Numbering α)
    (set : α → SchemaBody Schema → SchemaBody Schema) : Prop :=
  ∀ (seen : List String) (body : SchemaBody Schema) (value : Node) (rest : Members), name ∉ seen →
    readMembers seen body (.member (.ofText name) value rest) =
      decoder value >>= fun part => readMembers (name :: seen) (set part body) rest

theorem readOptional_bind (value : Node) (next : Option Schema → Numbering α) :
    Field.readOptional numbered value >>= next =
      if value.isNull then next none else read value >>= fun child => next (some child) := by
  rw [Field.readOptional]
  split
  · rfl
  · exact bind_map_left _ _ _

theorem takes_reference : Takes "$ref" (fun value => liftM (readPointer value))
    fun reference body => { body with reference } := by
  intro seen body value rest isNew
  have fine : seen.contains "$ref" = false := by simpa using isNew
  rw [readMembers, text_ofText, lift_ok_bind]
  simp only [fine]
  rfl

theorem takes_items : Takes "items" (Field.readOptional numbered)
    fun items body => { body with items } := by
  intro seen body value rest isNew
  have fine : seen.contains "items" = false := by simpa using isNew
  rw [readMembers, text_ofText, lift_ok_bind, readOptional_bind]
  simp only [fine]
  split <;> simp_all

theorem takes_not : Takes "not" (Field.readOptional numbered)
    fun not body => { body with not } := by
  intro seen body value rest isNew
  have fine : seen.contains "not" = false := by simpa using isNew
  rw [readMembers, text_ofText, lift_ok_bind, readOptional_bind]
  simp only [fine]
  split <;> simp_all

theorem takes_allOf : Takes "allOf" (list numbered).read fun allOf body => { body with allOf } := by
  intro seen body value rest isNew
  have fine : seen.contains "allOf" = false := by simpa using isNew
  rw [readMembers, text_ofText, lift_ok_bind, ← readList_eq]
  simp only [fine]
  rfl

theorem takes_anyOf : Takes "anyOf" (list numbered).read fun anyOf body => { body with anyOf } := by
  intro seen body value rest isNew
  have fine : seen.contains "anyOf" = false := by simpa using isNew
  rw [readMembers, text_ofText, lift_ok_bind, ← readList_eq]
  simp only [fine]
  rfl

theorem takes_oneOf : Takes "oneOf" (list numbered).read fun oneOf body => { body with oneOf } := by
  intro seen body value rest isNew
  have fine : seen.contains "oneOf" = false := by simpa using isNew
  rw [readMembers, text_ofText, lift_ok_bind, ← readList_eq]
  simp only [fine]
  rfl

theorem takes_properties : Takes "properties" (table numbered).read
    fun properties body => { body with properties } := by
  intro seen body value rest isNew
  have fine : seen.contains "properties" = false := by simpa using isNew
  rw [readMembers, text_ofText, lift_ok_bind, ← readTable_eq]
  simp only [fine]
  rfl

/-- A member with any other name is kept. -/
theorem readMembers_keyword {seen : List String} (among : seen ⊆ structural) {name : String}
    (isKeyword : name ∉ structural) (body : SchemaBody Schema) (value : Node) (rest : Members) :
    readMembers seen body (.member (.ofText name) value rest) =
      liftM value.value >>= fun keyword =>
        readMembers seen { body with keywords := Table.insert name keyword body.keywords }
          rest := by
  have fine : seen.contains name = false := by simpa using fun old => isKeyword (among old)
  rw [readMembers, text_ofText, lift_ok_bind]
  simp only [fine, Bool.false_eq_true, ↓reduceIte]
  simp only [structural, List.mem_cons, List.not_mem_nil, or_false, not_or] at isKeyword
  split <;> simp_all only [not_true_eq_false, false_and, and_false]

/-- Reads what stands for additional properties, or that nothing does. -/
def readWhole (value : Node) : Numbering (Additional Schema) := do
  match ← value.value with
  | .null => return .unspecified
  | .bool allowed => return .allowed allowed
  | _ => alternative "AdditionalProperties" (.schema <$> read value)

theorem takes_additional : Takes "additionalProperties" readWhole
    fun additional body => { body with additional } := by
  intro seen body value rest isNew
  have fine : seen.contains "additionalProperties" = false := by simpa using isNew
  rw [readMembers, text_ofText, lift_ok_bind, readWhole, bind_assoc]
  simp only [fine, Bool.false_eq_true, ↓reduceIte]
  exact bind_congr fun whole => by cases whole <;> rfl

end

section

/-! A body, member by member. -/

variable {depth : Nat} {body : SchemaBody Schema} {R : Nat → SchemaBody Schema → Prop}

/-- What a member says is taken, and where there is none the body stays.  `names` bounds the names
of the members before it. -/
theorem gives_member {name : String} {decoder : Node → Numbering α}
    {set : α → SchemaBody Schema → SchemaBody Schema} (takes : Takes name decoder set)
    {S : α → Prop} {part : Option Json} {seen names : List String} (among : seen ⊆ names)
    (isNew : name ∉ names) {members : List (String × Json)}
    (legible : ∀ member ∈ part.toList.map (name, ·) ++ members, Legible depth member.2)
    (given : ∀ json ∈ part, Legible depth json → Gives (decoder json.node) fun _ => S)
    (absent : part = none → ∃ value, S value ∧ set value body = body)
    (rest : ∀ seen value, seen ⊆ name :: names → (∀ member ∈ members, Legible depth member.2) →
      Gives (readMembers seen (set value body) (memberNodes members))
        fun later after => S value → R later after) :
    Gives (readMembers seen body (memberNodes (part.toList.map (name, ·) ++ members))) R := by
  have ⟨ofPart, ofMembers⟩ := List.forall_mem_append.mp legible
  cases part with
  | none =>
      obtain ⟨value, holds, same⟩ := absent rfl
      exact same ▸ (rest seen value (List.subset_cons_of_subset name among) ofMembers).imp
        fun _ _ done => done holds
  | some json =>
      have isLegible : Legible depth json := ofPart (name, json) (by simp)
      simp only [Option.toList_some, List.map_cons, List.map_nil, List.cons_append, List.nil_append,
        memberNodes]
      rw [takes seen body json.node _ fun old => isNew (among old)]
      exact (given json rfl isLegible).bind fun value =>
        rest _ value (List.cons_subset_cons name among) ofMembers

/-- Keywords are added in their order. -/
theorem gives_keywords {keywords : Table Json} (legible : ∀ entry ∈ keywords, Legible depth entry.2)
    (orderly : ∀ entry ∈ keywords, entry.1 ∉ structural ∧ entry.2.Distinct)
    {seen : List String} (among : seen ⊆ structural)
    (distinct : (Table.names (body.keywords ++ keywords)).Nodup) :
    Gives (readMembers seen body (memberNodes keywords)) fun _ after =>
      after = { body with keywords := body.keywords ++ keywords } := by
  induction keywords generalizing body with
  | nil =>
      rw [List.append_nil]
      exact gives_pure fun _ => rfl
  | cons entry keywords ih =>
      obtain ⟨name, value⟩ := entry
      obtain ⟨firstLegible, legible⟩ := List.forall_mem_cons.mp legible
      obtain ⟨⟨isKeyword, isDistinct⟩, orderly⟩ := List.forall_mem_cons.mp orderly
      have isNew : name ∉ body.keywords.names := by
        rw [Table.names, List.map_append, List.nodup_append] at distinct
        exact fun old => distinct.2.2 name old name (by simp) rfl
      have reads : readMembers seen body (memberNodes ((name, value) :: keywords)) =
          readMembers seen { body with keywords := body.keywords ++ [(name, value)] }
            (memberNodes keywords) := by
        rw [memberNodes, readMembers_keyword among isKeyword,
          value_node value firstLegible isDistinct, lift_ok_bind, Table.insert_of_not_mem isNew]
      rw [reads]
      refine (ih legible orderly ?_).imp fun _ after same => ?_
      · simpa using distinct
      · simpa using same

end

theorem gives_number (body : SchemaBody Schema) :
    Gives (number body) fun _ schema => schema.body = body :=
  fun start => ⟨_, _, rfl, Nat.le_succ start, fun _ _ => rfl⟩

theorem gives_alternative {choice : String} {decoder : Numbering α} {R : Nat → α → Prop}
    (gives : Gives decoder R) : Gives (alternative choice decoder) R := fun start => by
  obtain ⟨value, last, ran, grows, holds⟩ := gives start
  exact ⟨value, last, by rw [alternative, ran], grows, holds⟩

theorem isObject_json (schema : Schema) : ∃ members, schema.json = .object members := by
  obtain ⟨id, body⟩ := schema
  exact ⟨_, json_node id body⟩

section

/-! The parts of a node. -/

variable {depth : Nat}

/-- A schema of the same contents. -/
def alike (_ : Nat) (before after : Schema) : Prop :=
  after.contents = before.contents

theorem write_list (schemas : List Schema) :
    (list numbered).write schemas = .ok (.array (schemas.map json)) := by
  have written : schemas.mapM numbered.write = .ok (schemas.map json) := by
    induction schemas with
    | nil => rfl
    | cons schema schemas ih =>
        rw [List.mapM_cons, ih]
        rfl
  simp only [list, written]
  rfl

theorem write_table (schemas : Table Schema) :
    (table numbered).write schemas =
      .ok (.object (schemas.map fun (name, schema) => (name, schema.json))) := by
  have written : (schemas.mapM fun (name, schema) =>
      return (name, ← numbered.write schema) : Except WriteFault (List (String × Json))) =
        .ok (schemas.map fun (name, schema) => (name, schema.json)) := by
    induction schemas with
    | nil => rfl
    | cons entry schemas ih =>
        rw [List.mapM_cons, ih]
        rfl
  simp only [table, written]
  rfl

/-- The value of a list of schemas, which is left out if it is empty. -/
def listJson? : List Schema → Option Json
  | [] => none
  | schemas => some (.array (schemas.map json))

def tableJson? : Table Schema → Option Json
  | [] => none
  | schemas => some (.object (schemas.map fun (name, schema) => (name, schema.json)))

def additionalJson? : Additional Schema → Option Json
  | .unspecified => none
  | .allowed allowed => some (.bool allowed)
  | .schema schema => some schema.json

theorem gives_list {schemas : List Schema} {json : Json} (isJson : json ∈ listJson? schemas)
    (legible : Legible depth json)
    (each : ∀ schema ∈ schemas, ∀ {depth}, numbered.Restores depth numbered alike schema) :
    Gives ((list numbered).read json.node) fun _ after =>
      after.map contents = schemas.map contents := by
  have isArray : json = .array (schemas.map Schema.json) := by
    cases schemas <;> cases isJson
    rfl
  subst isArray
  refine ((restores_list fun schema member => each schema member).mono (Nat.le_succ depth) _
    (write_list schemas) legible).imp fun _ _ related => ?_
  exact ListRel.map_eq related

theorem eq_nil_of_listJson? {schemas : List Schema} (absent : listJson? schemas = none) :
    schemas = [] := by
  cases schemas with
  | nil => rfl
  | cons => cases absent

theorem gives_table {schemas : Table Schema} {json : Json} (isJson : json ∈ tableJson? schemas)
    (legible : Legible depth json) (distinct : schemas.names.Nodup)
    (each : ∀ entry ∈ schemas, ∀ {depth}, numbered.Restores depth numbered alike entry.2) :
    Gives ((table numbered).read json.node) fun _ after =>
      (after.map fun (name, schema) => (name, schema.contents)) =
        schemas.map fun (name, schema) => (name, schema.contents) := by
  have isObject : json = .object (schemas.map fun (name, schema) => (name, schema.json)) := by
    cases schemas <;> cases isJson
    rfl
  subst isObject
  refine ((restores_table distinct fun entry member => each entry member).mono (Nat.le_succ depth) _
    (write_table schemas) legible).imp fun _ _ related => ?_
  exact Table.Rel.map_eq related

theorem eq_nil_of_tableJson? {schemas : Table Schema} (absent : tableJson? schemas = none) :
    schemas = [] := by
  cases schemas with
  | nil => rfl
  | cons => cases absent

theorem gives_optional {schema? : Option Schema} {json : Json}
    (isJson : json ∈ schema?.map Schema.json) (legible : Legible depth json)
    (each : ∀ schema ∈ schema?, ∀ {depth}, numbered.Restores depth numbered alike schema) :
    Gives (Field.readOptional numbered json.node) fun _ after =>
      after.map contents = schema?.map contents := by
  obtain ⟨schema, rfl, rfl⟩ := Option.map_eq_some_iff.mp isJson
  obtain ⟨members, isObject⟩ := schema.isObject_json
  have present : schema.json.node.isNull = false := by
    rw [isObject]
    rfl
  simp only [Field.readOptional, present]
  exact (each schema rfl _ rfl legible).map fun _ after same => congrArg some same

theorem gives_whole {additional : Additional Schema} {json : Json}
    (isJson : json ∈ additionalJson? additional) (legible : Legible depth json)
    (each : ∀ schema ∈ additional.schema?, ∀ {depth}, numbered.Restores depth numbered alike schema) :
    Gives (readWhole json.node) fun _ after => after.map contents = additional.map contents := by
  cases additional with
  | unspecified => cases isJson
  | allowed allowed =>
      cases isJson
      exact gives_pure fun _ => rfl
  | schema schema =>
      cases isJson
      obtain ⟨whole, isWhole⟩ := exists_value schema.json legible
      obtain ⟨members, isObject⟩ := schema.isObject_json
      have shape : ∃ entries, whole = .object entries := by
        rw [isObject, Json.node, Node.value] at isWhole
        obtain ⟨_, _, rfl⟩ := map_eq_ok isWhole
        exact ⟨_, rfl⟩
      obtain ⟨entries, rfl⟩ := shape
      rw [readWhole, isWhole, lift_ok_bind]
      exact gives_alternative ((each schema rfl _ rfl legible).map fun _ after same =>
        congrArg Additional.schema same)

theorem unspecified_of_additionalJson? {additional : Additional Schema}
    (absent : additionalJson? additional = none) : additional = .unspecified := by
  cases additional with
  | unspecified => rfl
  | allowed | schema => cases absent

/-- The members of a body, each with its value. -/
theorem members_eq (body : SchemaBody Schema) :
    body.members json =
      (body.reference.map Json.string).toList.map ("$ref", ·) ++
      ((body.items.map json).toList.map ("items", ·) ++
      ((listJson? body.allOf).toList.map ("allOf", ·) ++
      ((listJson? body.anyOf).toList.map ("anyOf", ·) ++
      ((listJson? body.oneOf).toList.map ("oneOf", ·) ++
      ((body.not.map json).toList.map ("not", ·) ++
      ((tableJson? body.properties).toList.map ("properties", ·) ++
      ((additionalJson? body.additional).toList.map ("additionalProperties", ·) ++
        body.keywords))))))) := by
  have lists (name : String) (schemas : List Schema) :
      listMember name json schemas = (listJson? schemas).toList.map (name, ·) := by
    cases schemas <;> rfl
  have tables (name : String) (schemas : Table Schema) :
      tableMember name json schemas = (tableJson? schemas).toList.map (name, ·) := by
    cases schemas <;> rfl
  cases additional : body.additional <;>
    simp [members, lists, tables, additional, additionalJson?, Option.toList_map,
      Function.comp_def]

theorem gives_body {before : SchemaBody Schema}
    (legible : ∀ member ∈ before.members json, Legible depth member.2)
    (each : before.Parts fun child => ∀ {depth}, numbered.Restores depth numbered alike child) :
    Gives (readMembers [] {} (memberNodes (before.members json))) fun _ after =>
      after.map contents = before.map contents := by
  rw [members_eq] at legible ⊢
  refine gives_member takes_reference (S := (· = before.reference))
    (List.Subset.refl []) List.not_mem_nil legible ?_ ?_ fun seen reference among legible => ?_
  · intro json isJson _
    obtain ⟨pointer, points, rfl⟩ := Option.map_eq_some_iff.mp isJson
    refine gives_lift ?_ fun _ => points.symm
    rw [Json.node, readPointer, text_ofText]
    rfl
  · exact fun absent => ⟨none, (Option.map_eq_none_iff.mp absent).symm, rfl⟩
  refine gives_member takes_items (S := (·.map contents = before.items.map contents)) among
    (by decide) legible (fun _ isJson legible => gives_optional isJson legible each.items)
    (fun absent => ⟨none, by rw [Option.map_eq_none_iff.mp absent], rfl⟩)
    fun seen items among legible => ?_
  refine gives_member takes_allOf (S := (·.map contents = before.allOf.map contents)) among
    (by decide) legible (fun _ isJson legible => gives_list isJson legible each.allOf)
    (fun absent => ⟨[], by rw [eq_nil_of_listJson? absent], rfl⟩) fun seen allOf among legible => ?_
  refine gives_member takes_anyOf (S := (·.map contents = before.anyOf.map contents)) among
    (by decide) legible (fun _ isJson legible => gives_list isJson legible each.anyOf)
    (fun absent => ⟨[], by rw [eq_nil_of_listJson? absent], rfl⟩) fun seen anyOf among legible => ?_
  refine gives_member takes_oneOf (S := (·.map contents = before.oneOf.map contents)) among
    (by decide) legible (fun _ isJson legible => gives_list isJson legible each.oneOf)
    (fun absent => ⟨[], by rw [eq_nil_of_listJson? absent], rfl⟩) fun seen oneOf among legible => ?_
  refine gives_member takes_not (S := (·.map contents = before.not.map contents)) among
    (by decide) legible (fun _ isJson legible => gives_optional isJson legible each.not)
    (fun absent => ⟨none, by rw [Option.map_eq_none_iff.mp absent], rfl⟩)
    fun seen not among legible => ?_
  refine gives_member takes_properties (S := fun after =>
      (after.map fun (name, schema) => (name, schema.contents)) =
        before.properties.map fun (name, schema) => (name, schema.contents)) among
    (by decide) legible
    (fun _ isJson legible => gives_table isJson legible each.properties.1 each.properties.2)
    (fun absent => ⟨[], by rw [eq_nil_of_tableJson? absent], rfl⟩)
    fun seen properties among legible => ?_
  refine gives_member takes_additional (S := (·.map contents = before.additional.map contents))
    among (by decide) legible
    (fun _ isJson legible => gives_whole isJson legible each.additional)
    (fun absent => ⟨.unspecified, by rw [unspecified_of_additionalJson? absent], rfl⟩)
    fun seen additional among legible => ?_
  refine (gives_keywords legible each.keywords.2 (List.Subset.trans among (by decide))
    (by simpa using each.keywords.1)).imp ?_
  intro _ after same additional properties not oneOf anyOf allOf items reference
  subst same reference
  simp only [SchemaBody.map, items, allOf, anyOf, oneOf, not, properties, additional,
    List.nil_append]

/-- A schema is restored, but for the numbers of its nodes. -/
theorem restores_numbered {schema : Schema} (distinct : schema.Distinct) :
    ∀ {depth}, numbered.Restores depth numbered alike schema := by
  induction distinct with
  | @node id body properties keywords children ih =>
      rintro depth _ ⟨⟩ legible
      rw [json_node] at legible ⊢
      cases legible with
      | object legible =>
          have parts : body.Parts fun child =>
              ∀ {depth}, numbered.Restores depth numbered alike child :=
            parts_of_children properties keywords ih
          refine (gives_body legible parts).bind fun after => ?_
          refine (gives_number after).imp fun _ schema isBody same => ?_
          obtain ⟨number, _⟩ := schema
          rw [alike, contents_node, contents_node, ← same, ← isBody, Schema.body]

end

end ApiLinker.Schema
