import ApiLinker.Proofs.Linking.Reported
import ApiLinker.Proofs.Linking.WellFormed

/-!
Diagnostics are found by the name that they fail on.

The name of a reference is taken from its pointer with the escapes taken back, that of a schema
pointer as it is written there.  So a failure on a component is found by its name, and a failure on
a schema by its name escaped: by the name itself if it has neither a tilde nor a slash.
-/

namespace ApiLinker

/-- What stands for the name of a component, or schema, in a look-up of the problem. -/
def Problem.spell (problem : Problem) (name : String) : String :=
  if problem.isComponent then name else Pointer.escape name

theorem Problem.spell_eq_self_iff {problem : Problem} {name : String} :
    problem.spell name = name ↔
      problem.isComponent = true ∨ ('~' ∉ name.toList ∧ '/' ∉ name.toList) := by
  rw [spell]
  cases problem.isComponent <;> simp [Pointer.escape_eq_self_iff]

theorem Problem.pointer_eq_of_reference? {problem : Problem} {reference : Reference}
    (about : problem.reference? = some reference) : problem.pointer = reference.pointer := by
  cases problem <;> cases about <;> rfl

/-- The name is read off the pointer, whatever the host. -/
theorem Reference.identifier_congr {left right : Reference}
    (same : left.pointer = right.pointer) : left.identifier = right.identifier := by
  simp only [identifier, segments, fragmentChars, same]

namespace Diagnostic

variable {diagnostic : Diagnostic} {diagnostics : List Diagnostic} {category : Category}
variable {name : String}

theorem isFor_iff
    (failed : diagnostic.problem.pointer = (Reference.toComponent category name).pointer)
    (identifier : String) :
    diagnostic.isFor identifier = true ↔ identifier = diagnostic.problem.spell name := by
  rw [eq_comm (a := identifier)]
  cases about : diagnostic.problem.reference? with
  | some reference =>
      have named : reference.identifier = name := by
        rw [Reference.identifier_congr
          ((Problem.pointer_eq_of_reference? about).symm.trans failed),
          Reference.identifier_toComponent]
      simp [isFor, Problem.spell, Problem.isComponent, about, named]
  | none =>
      simp [isFor, Problem.spell, Problem.isComponent, about, failed,
        Reference.getLast?_toComponent, String.toList_inj]

/-- A diagnostic that fails on a named component or schema is found by the spelling of the name
alone.  That is the name, unless a schema fails and its name has something to escape. -/
theorem mem_forIdentifier_iff (member : diagnostic ∈ diagnostics)
    (failed : diagnostic.problem.pointer = (Reference.toComponent category name).pointer) :
    (∀ identifier, diagnostic ∈ forIdentifier identifier diagnostics ↔
        identifier = diagnostic.problem.spell name) ∧
      ((∀ identifier, diagnostic ∈ forIdentifier identifier diagnostics ↔ identifier = name) ↔
        diagnostic.problem.isComponent = true ∨ ('~' ∉ name.toList ∧ '/' ∉ name.toList)) := by
  have found : ∀ identifier, diagnostic ∈ forIdentifier identifier diagnostics ↔
      identifier = diagnostic.problem.spell name := fun identifier => by
    rw [forIdentifier, List.mem_filter, isFor_iff failed]
    exact and_iff_right member
  refine ⟨found, ?_⟩
  rw [← Problem.spell_eq_self_iff]
  constructor
  · intro byName
    exact (byName _).mp ((found _).mpr rfl)
  · intro same identifier
    rw [found, same]

end Diagnostic

section

/-! A schema that fails on a name with a slash. -/

/-- `A` names a schema `a/b`, which there is not. -/
def slashed : Document :=
  .ofSchemas [("A", .node 0 (.pointer (Reference.toComponent .schemas "a/b").pointer))]

def slashedReport : Diagnostic where
  path := ["components", "schemas", "A"]
  problem := .schemaNotFound "#/components/schemas/a~1b"
    "http://everything.json/components/schemas/a~1b"

theorem link_slashed : (slashed.link { schemaCount := 1 } {}).1 = [slashedReport] := by
  decide +kernel

theorem mem_forIdentifier_slashed :
    slashedReport ∈ (slashed.link { schemaCount := 1 } {}).1 ∧
      slashedReport.problem.pointer = (Reference.toComponent .schemas "a/b").pointer ∧
      slashedReport ∈
        Diagnostic.forIdentifier "a~1b" (slashed.link { schemaCount := 1 } {}).1 := by
  have member : slashedReport ∈ (slashed.link { schemaCount := 1 } {}).1 := by
    rw [link_slashed]
    exact List.mem_singleton_self _
  have failed : slashedReport.problem.pointer = (Reference.toComponent .schemas "a/b").pointer := by
    decide
  exact ⟨member, failed, ((Diagnostic.mem_forIdentifier_iff member failed).1 _).mpr (by decide)⟩

/-- The report is not found by the name. -/
theorem not_mem_forIdentifier_slashed :
    ¬ ∀ diagnostic ∈ (slashed.link { schemaCount := 1 } {}).1, ∀ category name,
      diagnostic.problem.pointer = (Reference.toComponent category name).pointer →
        ∀ identifier, diagnostic ∈
            Diagnostic.forIdentifier identifier (slashed.link { schemaCount := 1 } {}).1 ↔
          identifier = name := by
  rw [link_slashed]
  intro byName
  have missed : slashedReport ∉ Diagnostic.forIdentifier "a/b" [slashedReport] := by decide
  exact missed ((byName slashedReport (List.mem_singleton_self _) .schemas "a/b" (by decide)
    "a/b").mpr rfl)

end

end ApiLinker
