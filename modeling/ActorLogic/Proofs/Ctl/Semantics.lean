import ActorLogic.Ctl.Formula.Basic
import ActorLogic.Proofs.Graph.Consistency
import Mathlib.Data.Set.Basic
import Mathlib.Logic.Relation
/-!
# Paths, and what formulas say about them

What it means that a state satisfies a formula, by recursion on the formula and in terms of paths.
A path is a sequence of states of which either the first `n` steps or all steps are edges. At a
state without successors there is no infinite path, so that the operators for every path hold there
as soon as the state itself does not contradict them.
-/

namespace ActorLogic.Graph

variable {g : Graph} {s t n : Nat} {path : Nat → Nat}

/-! ## Paths -/

/-- The first `n` steps of the sequence are edges, the first one from `s`. -/
def FinitePath (g : Graph) (s n : Nat) (path : Nat → Nat) : Prop :=
  path 0 = s ∧ ∀ i < n, g.Edge (path i) (path (i + 1))

/-- All steps of the sequence are edges, the first one from `s`. -/
def InfinitePath (g : Graph) (s : Nat) (path : Nat → Nat) : Prop :=
  path 0 = s ∧ ∀ i, g.Edge (path i) (path (i + 1))

/-- Edges lead from a state to another, in any number of steps. -/
def Reaches (g : Graph) : Nat → Nat → Prop := Relation.ReflTransGen g.Edge

/-- A state in front of a sequence. -/
def follow (s : Nat) (path : Nat → Nat) : Nat → Nat
  | 0 => s
  | i + 1 => path i

namespace FinitePath

theorem zero : g.FinitePath s 0 fun _ => s :=
  ⟨rfl, fun _ hi => absurd hi (Nat.not_lt_zero _)⟩

theorem follow (hst : g.Edge s t) (h : g.FinitePath t n path) :
    g.FinitePath s (n + 1) (follow s path) := by
  refine ⟨rfl, ?_⟩
  intro i hi
  cases i with
  | zero =>
    change g.Edge s (path 0)
    rwa [h.1]
  | succ i => exact h.2 i (Nat.lt_of_succ_lt_succ hi)

theorem tail (h : g.FinitePath s (n + 1) path) :
    g.Edge s (path 1) ∧ g.FinitePath (path 1) n fun i => path (i + 1) := by
  refine ⟨?_, rfl, fun i hi => h.2 (i + 1) (Nat.succ_lt_succ hi)⟩
  have := h.2 0 (Nat.succ_pos n)
  rwa [h.1] at this

end FinitePath

namespace InfinitePath

theorem tail (h : g.InfinitePath s path) :
    g.Edge s (path 1) ∧ g.InfinitePath (path 1) fun i => path (i + 1) := by
  refine ⟨?_, rfl, fun i => h.2 (i + 1)⟩
  have := h.2 0
  rwa [h.1] at this

end InfinitePath

/-- Where every state has a successor that is again among the states, a path goes on for ever. -/
theorem exists_infinitePath {steady : Set Nat}
    (h : ∀ s ∈ steady, ∃ t, g.Edge s t ∧ t ∈ steady) (hs : s ∈ steady) :
    ∃ path, g.InfinitePath s path ∧ ∀ i, path i ∈ steady := by
  choose! next hedge hin using h
  let path : Nat → Nat := fun i => next^[i] s
  have hall : ∀ i, path i ∈ steady := by
    intro i
    induction i with
    | zero => exact hs
    | succ i ih =>
      simp only [path, Function.iterate_succ_apply'] at ih ⊢
      exact hin _ ih
  refine ⟨path, ⟨rfl, fun i => ?_⟩, hall⟩
  rw [show path (i + 1) = next (path i) from Function.iterate_succ_apply' next i s]
  exact hedge (path i) (hall i)

/-! ## Satisfaction -/

/-- The state satisfies the formula. -/
def Satisfies (g : Graph) : Formula → Nat → Prop
  | .top, _ => True
  | .bot, _ => False
  | .atom name, s => name ∈ g.labels.getD s []
  | .not f, s => ¬ g.Satisfies f s
  | .and f h, s => g.Satisfies f s ∧ g.Satisfies h s
  | .or f h, s => g.Satisfies f s ∨ g.Satisfies h s
  | .ex f, s => ∃ t, g.Edge s t ∧ g.Satisfies f t
  | .ax f, s => ∀ t, g.Edge s t → g.Satisfies f t
  | .ef f, s => ∃ n path, g.FinitePath s n path ∧ g.Satisfies f (path n)
  | .af f, s => ∀ path, g.InfinitePath s path → ∃ i, g.Satisfies f (path i)
  | .eg f, s => ∃ path, g.InfinitePath s path ∧ ∀ i, g.Satisfies f (path i)
  | .ag f, s => ∀ t, g.Reaches s t → g.Satisfies f t
  | .eu f h, s => ∃ n path, g.FinitePath s n path ∧ g.Satisfies h (path n) ∧
      ∀ i < n, g.Satisfies f (path i)
  | .au f h, s => (∀ path, g.InfinitePath s path → ∃ i, g.Satisfies h (path i)) ∧
      ∀ n path, g.FinitePath s n path → (∀ i ≤ n, ¬ g.Satisfies h (path i)) →
        ∀ i ≤ n, g.Satisfies f (path i)

variable {f h : Formula} {name : String}

@[simp] theorem satisfies_top : g.Satisfies .top s ↔ True := Iff.rfl

@[simp] theorem satisfies_bot : g.Satisfies .bot s ↔ False := Iff.rfl

@[simp] theorem satisfies_atom : g.Satisfies (.atom name) s ↔ name ∈ g.labels.getD s [] := Iff.rfl

@[simp] theorem satisfies_not : g.Satisfies (.not f) s ↔ ¬ g.Satisfies f s := Iff.rfl

@[simp] theorem satisfies_and :
    g.Satisfies (.and f h) s ↔ g.Satisfies f s ∧ g.Satisfies h s := Iff.rfl

@[simp] theorem satisfies_or :
    g.Satisfies (.or f h) s ↔ g.Satisfies f s ∨ g.Satisfies h s := Iff.rfl

@[simp] theorem satisfies_ex :
    g.Satisfies (.ex f) s ↔ ∃ t, g.Edge s t ∧ g.Satisfies f t := Iff.rfl

@[simp] theorem satisfies_ax :
    g.Satisfies (.ax f) s ↔ ∀ t, g.Edge s t → g.Satisfies f t := Iff.rfl

@[simp] theorem satisfies_ef :
    g.Satisfies (.ef f) s ↔ ∃ n path, g.FinitePath s n path ∧ g.Satisfies f (path n) := Iff.rfl

@[simp] theorem satisfies_af :
    g.Satisfies (.af f) s ↔ ∀ path, g.InfinitePath s path → ∃ i, g.Satisfies f (path i) := Iff.rfl

@[simp] theorem satisfies_eg :
    g.Satisfies (.eg f) s ↔ ∃ path, g.InfinitePath s path ∧ ∀ i, g.Satisfies f (path i) := Iff.rfl

@[simp] theorem satisfies_ag :
    g.Satisfies (.ag f) s ↔ ∀ t, g.Reaches s t → g.Satisfies f t := Iff.rfl

@[simp] theorem satisfies_eu :
    g.Satisfies (.eu f h) s ↔ ∃ n path, g.FinitePath s n path ∧ g.Satisfies h (path n) ∧
      ∀ i < n, g.Satisfies f (path i) := Iff.rfl

@[simp] theorem satisfies_au :
    g.Satisfies (.au f h) s ↔ (∀ path, g.InfinitePath s path → ∃ i, g.Satisfies h (path i)) ∧
      ∀ n path, g.FinitePath s n path → (∀ i ≤ n, ¬ g.Satisfies h (path i)) →
        ∀ i ≤ n, g.Satisfies f (path i) := Iff.rfl

end ActorLogic.Graph
