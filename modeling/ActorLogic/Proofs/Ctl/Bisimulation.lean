import ActorLogic.Ctl.Verdict
import ActorLogic.Proofs.Ctl.Atoms
import ActorLogic.Proofs.Ctl.Duality
/-!
# Bisimulations

Two states that carry the same propositions and whose steps match each other, again and again,
satisfy the same formulas over these propositions. A path from the one can be followed from the
other, state by state, so that it is enough to look at the three operators that speak of some path;
those that speak of every path are their duals.
-/

namespace ActorLogic.Graph

/-- Related states of two graphs carry the same of the given propositions, and each step of one is
matched by a step of the other to states that are related again. -/
structure Bisimulation (g h : Graph) (props : List String) (R : Nat → Nat → Prop) : Prop where
  left_lt : ∀ s t, R s t → s < g.size
  right_lt : ∀ s t, R s t → t < h.size
  labels : ∀ s t, R s t → ∀ a ∈ props, a ∈ g.labels.getD s [] ↔ a ∈ h.labels.getD t []
  forth : ∀ s t, R s t → ∀ s', g.Edge s s' → ∃ t', h.Edge t t' ∧ R s' t'
  back : ∀ s t, R s t → ∀ t', h.Edge t t' → ∃ s', g.Edge s s' ∧ R s' t'

namespace Bisimulation

variable {g h : Graph} {props : List String} {R : Nat → Nat → Prop} {s t n : Nat}
  {path : Nat → Nat} {P Q H K : Nat → Prop}

theorem symm (hR : Bisimulation g h props R) : Bisimulation h g props fun t s => R s t where
  left_lt t s hst := hR.right_lt s t hst
  right_lt t s hst := hR.left_lt s t hst
  labels t s hst a ha := (hR.labels s t hst a ha).symm
  forth t s hst := hR.back s t hst
  back t s hst := hR.forth s t hst

/-! ## Following paths -/

theorem exists_finitePath (hR : Bisimulation g h props R) (hst : R s t)
    (hpath : g.FinitePath s n path) :
    ∃ path', h.FinitePath t n path' ∧ ∀ i ≤ n, R (path i) (path' i) := by
  induction n generalizing s t path with
  | zero =>
    refine ⟨fun _ => t, .zero, fun i hi => ?_⟩
    obtain rfl := Nat.le_zero.1 hi
    exact hpath.1 ▸ hst
  | succ n ih =>
    obtain ⟨hedge, htail⟩ := hpath.tail
    obtain ⟨t', hedge', hnext⟩ := hR.forth s t hst _ hedge
    obtain ⟨path', hpath', hrelated⟩ := ih hnext htail
    refine ⟨follow t path', hpath'.follow hedge', fun i hi => ?_⟩
    cases i with
    | zero => exact hpath.1 ▸ hst
    | succ i => exact hrelated i (Nat.le_of_succ_le_succ hi)

theorem exists_infinitePath (hR : Bisimulation g h props R) (hst : R s t)
    (hpath : g.InfinitePath s path) :
    ∃ path', h.InfinitePath t path' ∧ ∀ i, R (path i) (path' i) := by
  have hstep : ∀ i t, R (path i) t → ∃ t', h.Edge t t' ∧ R (path (i + 1)) t' :=
    fun i t hrelated => hR.forth _ t hrelated _ (hpath.2 i)
  choose! next hedge hnext using hstep
  let path' : Nat → Nat := fun i => Nat.rec t (fun i t => next i t) i
  have hall : ∀ i, R (path i) (path' i) := by
    intro i
    induction i with
    | zero => exact hpath.1 ▸ hst
    | succ i ih => exact hnext i _ ih
  exact ⟨path', ⟨rfl, fun i => hedge i _ (hall i)⟩, hall⟩

theorem exists_reaches (hR : Bisimulation g h props R) (hst : R s t) {s' : Nat}
    (hreach : g.Reaches s s') : ∃ t', h.Reaches t t' ∧ R s' t' := by
  induction hreach with
  | refl => exact ⟨t, .refl, hst⟩
  | tail _ hedge ih =>
    obtain ⟨t', hreach', hrelated⟩ := ih
    obtain ⟨t'', hedge', hnext⟩ := hR.forth _ _ hrelated _ hedge
    exact ⟨t'', .tail hreach' hedge', hnext⟩

/-! ## Operators -/

/-- A step into related states. -/
theorem next_congr (hR : Bisimulation g h props R) (hP : ∀ s t, R s t → (P s ↔ Q t))
    (hst : R s t) : (∃ s', g.Edge s s' ∧ P s') ↔ ∃ t', h.Edge t t' ∧ Q t' := by
  constructor
  · rintro ⟨s', hedge, hs'⟩
    obtain ⟨t', hedge', hrelated⟩ := hR.forth s t hst s' hedge
    exact ⟨t', hedge', (hP s' t' hrelated).1 hs'⟩
  · rintro ⟨t', hedge, ht'⟩
    obtain ⟨s', hedge', hrelated⟩ := hR.back s t hst t' hedge
    exact ⟨s', hedge', (hP s' t' hrelated).2 ht'⟩

theorem reach_imp (hR : Bisimulation g h props R) (hP : ∀ s t, R s t → P s → Q t)
    (hst : R s t) : (∃ s', g.Reaches s s' ∧ P s') → ∃ t', h.Reaches t t' ∧ Q t' := by
  rintro ⟨s', hreach, hs'⟩
  obtain ⟨t', hreach', hrelated⟩ := hR.exists_reaches hst hreach
  exact ⟨t', hreach', hP s' t' hrelated hs'⟩

/-- Related states that can be reached. -/
theorem reach_congr (hR : Bisimulation g h props R) (hP : ∀ s t, R s t → (P s ↔ Q t))
    (hst : R s t) : (∃ s', g.Reaches s s' ∧ P s') ↔ ∃ t', h.Reaches t t' ∧ Q t' :=
  ⟨hR.reach_imp (fun s t hst => (hP s t hst).1) hst,
    hR.symm.reach_imp (fun t s hst => (hP s t hst).2) hst⟩

theorem until_imp (hR : Bisimulation g h props R) (hP : ∀ s t, R s t → P s → Q t)
    (hH : ∀ s t, R s t → H s → K t) (hst : R s t) :
    (∃ n path, g.FinitePath s n path ∧ P (path n) ∧ ∀ i < n, H (path i)) →
      ∃ n path, h.FinitePath t n path ∧ Q (path n) ∧ ∀ i < n, K (path i) := by
  rintro ⟨n, path, hpath, hend, hbefore⟩
  obtain ⟨path', hpath', hrelated⟩ := hR.exists_finitePath hst hpath
  exact ⟨n, path', hpath', hP _ _ (hrelated n (Nat.le_refl n)) hend,
    fun i hi => hH _ _ (hrelated i (Nat.le_of_lt hi)) (hbefore i hi)⟩

/-- A path through related states to related states. -/
theorem until_congr (hR : Bisimulation g h props R) (hP : ∀ s t, R s t → (P s ↔ Q t))
    (hH : ∀ s t, R s t → (H s ↔ K t)) (hst : R s t) :
    (∃ n path, g.FinitePath s n path ∧ P (path n) ∧ ∀ i < n, H (path i)) ↔
      ∃ n path, h.FinitePath t n path ∧ Q (path n) ∧ ∀ i < n, K (path i) :=
  ⟨hR.until_imp (fun s t hst => (hP s t hst).1) (fun s t hst => (hH s t hst).1) hst,
    hR.symm.until_imp (fun t s hst => (hP s t hst).2) (fun t s hst => (hH s t hst).2) hst⟩

theorem always_imp (hR : Bisimulation g h props R) (hP : ∀ s t, R s t → P s → Q t)
    (hst : R s t) :
    (∃ path, g.InfinitePath s path ∧ ∀ i, P (path i)) →
      ∃ path, h.InfinitePath t path ∧ ∀ i, Q (path i) := by
  rintro ⟨path, hpath, hall⟩
  obtain ⟨path', hpath', hrelated⟩ := hR.exists_infinitePath hst hpath
  exact ⟨path', hpath', fun i => hP _ _ (hrelated i) (hall i)⟩

/-- An infinite path through related states. -/
theorem always_congr (hR : Bisimulation g h props R) (hP : ∀ s t, R s t → (P s ↔ Q t))
    (hst : R s t) :
    (∃ path, g.InfinitePath s path ∧ ∀ i, P (path i)) ↔
      ∃ path, h.InfinitePath t path ∧ ∀ i, Q (path i) :=
  ⟨hR.always_imp (fun s t hst => (hP s t hst).1) hst,
    hR.symm.always_imp (fun t s hst => (hP s t hst).2) hst⟩

/-! ## Formulas -/

theorem satisfies_iff (hR : Bisimulation g h props R) {f : Formula}
    (hatoms : ∀ a ∈ f.atoms, a ∈ props) (hst : R s t) :
    g.Satisfies f s ↔ h.Satisfies f t := by
  induction f generalizing s t with
  | top | bot => exact Iff.rfl
  | atom name =>
    exact hR.labels s t hst name (hatoms name (mem_sortedTexts.2 List.mem_cons_self))
  | not f ih => exact not_congr (ih hatoms hst)
  | and f k ihf ihk =>
    obtain ⟨hf, hk⟩ := Formula.forall_atoms_pair hatoms
    exact and_congr (ihf hf hst) (ihk hk hst)
  | or f k ihf ihk =>
    obtain ⟨hf, hk⟩ := Formula.forall_atoms_pair hatoms
    exact or_congr (ihf hf hst) (ihk hk hst)
  | ex f ih => exact hR.next_congr (fun _ _ => ih hatoms) hst
  -- An operator for every path says that no path goes wrong.
  | ax f ih =>
    have hwrong := hR.next_congr (fun _ _ hst => not_congr (ih hatoms hst)) hst
    simpa using not_congr hwrong
  | ef f ih =>
    have hfound := hR.until_congr (fun _ _ => ih hatoms)
      (fun _ _ _ => iff_of_true trivial trivial) hst
    simpa using hfound
  | af f ih =>
    have hwrong := hR.always_congr (fun _ _ hst => not_congr (ih hatoms hst)) hst
    simpa using not_congr hwrong
  | eg f ih => exact hR.always_congr (fun _ _ => ih hatoms) hst
  | ag f ih =>
    have hwrong := hR.reach_congr (fun _ _ hst => not_congr (ih hatoms hst)) hst
    simpa using not_congr hwrong
  | eu f k ihf ihk =>
    obtain ⟨hf, hk⟩ := Formula.forall_atoms_pair hatoms
    exact hR.until_congr (fun _ _ => ihk hk) (fun _ _ => ihf hf) hst
  | au f k ihf ihk =>
    obtain ⟨hf, hk⟩ := Formula.forall_atoms_pair hatoms
    have hmiss : ∀ s t, R s t → (¬ g.Satisfies k s ↔ ¬ h.Satisfies k t) :=
      fun _ _ hst => not_congr (ihk hk hst)
    have hbreak : ∀ s t, R s t → (¬ g.Satisfies f s ∧ ¬ g.Satisfies k s ↔
        ¬ h.Satisfies f t ∧ ¬ h.Satisfies k t) :=
      fun s t hst => and_congr (not_congr (ihf hf hst)) (hmiss s t hst)
    rw [satisfies_au_iff, satisfies_au_iff]
    exact not_congr (or_congr (hR.until_congr hbreak hmiss hst) (hR.always_congr hmiss hst))

end Bisimulation

end ActorLogic.Graph
