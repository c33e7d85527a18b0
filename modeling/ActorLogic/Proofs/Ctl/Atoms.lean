import ActorLogic.Ctl.Formula.Basic
import ActorLogic.Proofs.Text.Sorted
/-!
# Atoms of formulas

The atoms of a formula are those of its parts.
-/

namespace ActorLogic

namespace Formula

variable {a : String} {f g : Formula}

theorem mem_atomsBefore {rest : List String} :
    a ∈ f.atomsBefore rest ↔ a ∈ f.atomsBefore [] ∨ a ∈ rest := by
  induction f generalizing rest with
  | top | bot => simp [atomsBefore]
  | atom name => simp [atomsBefore]
  | not f ih | ex f ih | ax f ih | ef f ih | af f ih | eg f ih | ag f ih => exact ih
  | and f g ihf ihg | or f g ihf ihg | eu f g ihf ihg | au f g ihf ihg =>
    simp only [atomsBefore]
    rw [ihf, ihg, @ihf (g.atomsBefore []), or_assoc]

/-- The atoms of a formula with two parts. -/
theorem mem_atoms_pair :
    a ∈ sortedTexts (f.atomsBefore (g.atomsBefore [])) ↔ a ∈ f.atoms ∨ a ∈ g.atoms := by
  rw [mem_sortedTexts, mem_atomsBefore, atoms, atoms, mem_sortedTexts, mem_sortedTexts]

/-- What holds of all atoms of a formula with two parts holds of all atoms of each. -/
theorem forall_atoms_pair {P : String → Prop}
    (h : ∀ a ∈ sortedTexts (f.atomsBefore (g.atomsBefore [])), P a) :
    (∀ a ∈ f.atoms, P a) ∧ ∀ a ∈ g.atoms, P a :=
  ⟨fun a ha => h a (mem_atoms_pair.2 (.inl ha)), fun a ha => h a (mem_atoms_pair.2 (.inr ha))⟩

end Formula

end ActorLogic
