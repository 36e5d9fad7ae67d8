import ApiLinker.Proofs.Format.Restoring
import ApiLinker.Proofs.Json.Pretty
import ApiLinker.Settings.Basic

/-!
Settings, read again: the text that is kept for settings is that of these settings and no others
(`Settings.parse_pretty`).
-/

namespace ApiLinker.Settings

open Codec Json Record

/-- Numbers of 32 bits are within the range that is read. -/
theorem restores_unsigned32 {depth : Nat} {σ : Type} [Preorder σ] (value : UInt32) :
    Restores depth (unsigned32 : Codec σ UInt32) unsigned32 kept value := by
  rintro _ ⟨⟩ legible
  have inRange : (0 : Int) ≤ value.toNat ∧ (value.toNat : Int) < UInt32.size := by
    have small := value.toNat_lt_size
    omega
  cases legible with
  | integer _ low high =>
      change Gives (readUnsigned32 (Json.number (.integer value.toNat)).node) _
      rw [node, readUnsigned32, Number.chars, number_ofLiteral low high, lift_ok_bind]
      simp only [if_pos inRange]
      rw [Int.toNat_natCast, UInt32.ofNat_toNat]
      exact gives_pure fun _ => rfl

theorem restores_format (settings : Settings) {depth : Nat} {σ : Type} [Preorder σ] :
    (format (σ := σ)).codec.Restores (depth + 1) format.codec kept settings := by
  refine Record.restores (by simp [format]) ?_
  exact restores_given (restores_unsigned32 _) fun _ =>
    restores_given (restores_bool _) fun _ =>
    restores_given (restores_string _) fun _ =>
    restores_given (restores_bool _) fun _ =>
    restores_nil fun _ synthesizes authority strict version => by
      subst version strict authority synthesizes
      rfl

theorem legible_json (settings : Settings) : settings.json.Legible nestingLimit := by
  have small := settings.version.toNat_lt
  have version : Legible 126 (.number (.integer settings.version.toNat)) :=
    .integer _ (by omega) (by omega)
  simpa [json, nestingLimit] using ⟨version, .bool 126 _, .bool 126 _⟩

theorem parse_pretty (settings : Settings) : parse settings.json.pretty = .ok settings := by
  rw [parse, decode_pretty settings.legible_json]
  obtain ⟨after, last, read, _, same⟩ :=
    restores_format settings _ (write_format settings) settings.legible_json ()
  change (format.read settings.json.node).run () = _ at read
  rw [read, same () (le_refl ())]
  rfl

end ApiLinker.Settings
