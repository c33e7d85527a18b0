import ActorLogic.Proofs.Ctl.Duality
import Mathlib.Data.List.Forall2
import Mathlib.Order.Iterate
import Mathlib.Order.Lattice.Nat
/-!
# What the rounds of a fixpoint measure

After `i` rounds a growing set holds the states of rank `i` or less. Where some successor is enough
to join, the rank is the length of a shortest path to the target; where every successor has to be
inside, it is the number of states on a longest path that avoids the target. Every counted round
takes in a state of its own rank, so the number of rounds is the greatest rank. A shrinking set
gives up the states that the dual set takes in.
-/

namespace ActorLogic

/-! ## Measures of states -/

namespace Graph

/-- The number is the maximum of a measure over some states of the graph, and zero if there are no
such states. -/
structure IsMaximum (g : Graph) (among : Nat → Prop) (measure : Nat → Nat → Prop) (r : Nat) :
    Prop where
  measured : ∀ s < g.size, among s → ∃ k ≤ r, measure s k
  attained : (∃ s < g.size, among s) → ∃ s < g.size, among s ∧ measure s r
  empty : (¬ ∃ s < g.size, among s) → r = 0

/-- The lengths of the paths from the state to `P`, within `H` until they are there. -/
def distances (g : Graph) (H P : Nat → Prop) (s : Nat) : Set Nat :=
  {n | ∃ path, g.FinitePath s n path ∧ P (path n) ∧ ∀ i < n, H (path i)}

/-- The numbers of states on the paths from the state that are in `P` all along. A path of `m`
states has one edge less, and the path without states is there in any case. -/
def stretches (g : Graph) (P : Nat → Prop) (s : Nat) : Set Nat :=
  {m | ∃ path, g.FinitePath s (m - 1) path ∧ ∀ i < m, P (path i)}

variable {g : Graph} {among among' H P : Nat → Prop} {measure measure' : Nat → Nat → Prop}
  {s n i r : Nat}

theorem zero_mem_stretches : 0 ∈ g.stretches P s :=
  ⟨fun _ => s, .zero, fun _ hi => absurd hi (Nat.not_lt_zero _)⟩

theorem succ_mem_stretches :
    n + 1 ∈ g.stretches P s ↔ ∃ path, g.FinitePath s n path ∧ ∀ i ≤ n, P (path i) := by
  simp only [stretches, Set.mem_ofPred_eq, Nat.add_sub_cancel, Nat.lt_succ_iff]

/-- A bound on the stretches is a bound on the edges of the paths that are in `P` all along. -/
theorem mem_upperBounds_stretches :
    i ∈ upperBounds (g.stretches P s) ↔
      ∀ n path, g.FinitePath s n path → (∀ j ≤ n, P (path j)) → n < i := by
  constructor
  · intro h n path hpath hP
    exact h (succ_mem_stretches.2 ⟨path, hpath, hP⟩)
  · intro h m hm
    cases m with
    | zero => exact Nat.zero_le i
    | succ n =>
      obtain ⟨path, hpath, hP⟩ := succ_mem_stretches.1 hm
      exact h n path hpath hP

namespace IsMaximum

/-- The maximum may be said of other conditions that the same states meet, and of a measure that
follows on them. -/
theorem congr (h : g.IsMaximum among measure r) (hamong : ∀ s < g.size, among s ↔ among' s)
    (hmeasure : ∀ s < g.size, among' s → ∀ k, measure s k → measure' s k) :
    g.IsMaximum among' measure' r := by
  have hexists : (∃ s < g.size, among s) ↔ ∃ s < g.size, among' s :=
    exists_congr fun s => and_congr_right (hamong s)
  refine ⟨fun s hs ha => ?_, fun hsome => ?_, fun hnone => h.empty (mt hexists.1 hnone)⟩
  · obtain ⟨k, hk, hm⟩ := h.measured s hs ((hamong s hs).2 ha)
    exact ⟨k, hk, hmeasure s hs ha k hm⟩
  · obtain ⟨s, hs, ha, hm⟩ := h.attained (hexists.2 hsome)
    have ha' := (hamong s hs).1 ha
    exact ⟨s, hs, ha', hmeasure s hs ha' r hm⟩

end IsMaximum

end Graph

/-! ## The rounds in which states join -/

namespace Fixpoint

open ActorLogic.Graph

variable {g : Graph} {kind : StepBack} {hold target final : Set Nat} {H P : Nat → Prop}
  {s n i j k r : Nat}

theorem iterate_widen_mono (hij : i ≤ j) :
    (widen g kind hold)^[i] target ⊆ (widen g kind hold)^[j] target :=
  Function.monotone_iterate_of_id_le (fun _ => Set.subset_union_left) hij target

/-- A state is there after the next round if it was there before, or if it may join. -/
theorem mem_iterate_succ :
    s ∈ (widen g kind hold)^[i + 1] target ↔
      s ∈ (widen g kind hold)^[i] target ∨
        s ∈ hold ∧ s ∈ g.back kind ((widen g kind hold)^[i] target) := by
  rw [Function.iterate_succ_apply']
  rfl

/-- A counted round takes in a state that was not there before. -/
theorem Settles.exists_joined (h : Settles (widen g kind hold) target final r) (hi : i < r) :
    ∃ s, s ∈ (widen g kind hold)^[i + 1] target ∧ s ∉ (widen g kind hold)^[i] target := by
  by_contra hnone
  refine h.changing i hi (Set.Subset.antisymm (fun s hs => ?_) Set.subset_union_left)
  by_contra hout
  exact hnone ⟨s, by rwa [Function.iterate_succ_apply'], hout⟩

/-- The counted rounds are the last round in which some state joins. -/
theorem Settles.isMaximum (h : Settles (widen g kind hold) target final r)
    (hlt : ∀ s ∈ final, s < g.size) :
    g.IsMaximum (· ∈ final) (fun s k => IsLeast {i | s ∈ (widen g kind hold)^[i] target} k) r := by
  have hsub : ∀ i ≤ r, (widen g kind hold)^[i] target ⊆ final := fun i hi =>
    h.reached ▸ iterate_widen_mono hi
  refine ⟨fun s _ hs => ?_, ?_, fun hnone => ?_⟩
  · rw [← h.reached] at hs
    exact ⟨sInf {i | s ∈ (widen g kind hold)^[i] target}, Nat.sInf_le hs,
      Nat.sInf_mem ⟨r, hs⟩, fun i hi => Nat.sInf_le hi⟩
  · rintro ⟨s, hs, hin⟩
    cases r with
    | zero =>
      rw [← h.reached] at hin
      exact ⟨s, hs, hsub 0 (Nat.le_refl 0) hin, hin, fun i _ => Nat.zero_le i⟩
    | succ n =>
      -- A state that joins in the last round is in no earlier set.
      obtain ⟨t, ht, hout⟩ := h.exists_joined (Nat.lt_succ_self n)
      have htin := hsub _ (Nat.le_refl _) ht
      refine ⟨t, hlt t htin, htin, ht, fun i hi => ?_⟩
      by_contra hle
      exact hout (iterate_widen_mono (Nat.le_of_lt_succ (Nat.not_le.1 hle)) hi)
  · cases r with
    | zero => rfl
    | succ n =>
      obtain ⟨t, ht, -⟩ := h.exists_joined (Nat.lt_succ_self n)
      have htin := hsub _ (Nat.le_refl _) ht
      exact absurd ⟨t, hlt t htin, htin⟩ hnone

/-! ## Ranks -/

/-- After `i` rounds there are the states from which a path of at most `i` steps leads to the
target, within `hold` until it is there. -/
theorem mem_iterate_some_iff (hg : g.Consistent) (hhold : ∀ s < g.size, s ∈ hold ↔ H s)
    (htarget : ∀ s, s ∈ target ↔ s < g.size ∧ P s) :
    s ∈ (widen g .some hold)^[i] target ↔ s < g.size ∧ ∃ n ≤ i, n ∈ g.distances H P s := by
  induction i generalizing s with
  | zero =>
    rw [Function.iterate_zero_apply, htarget]
    refine and_congr_right fun hs => ⟨fun hP => ?_, ?_⟩
    · exact ⟨0, Nat.le_refl 0, fun _ => s, .zero, hP, fun _ hi => absurd hi (Nat.not_lt_zero _)⟩
    · rintro ⟨n, hn, path, hpath, hP, -⟩
      obtain rfl := Nat.le_zero.1 hn
      exact hpath.1 ▸ hP
  | succ i ih =>
    rw [mem_iterate_succ, ih]
    constructor
    · rintro (⟨hs, n, hn, hd⟩ | ⟨hin, hs, t, hst, ht⟩)
      · exact ⟨hs, n, Nat.le_succ_of_le hn, hd⟩
      · obtain ⟨-, n, hn, path, hpath, hP, hH⟩ := ih.1 ht
        refine ⟨hs, n + 1, Nat.succ_le_succ hn, follow s path, hpath.follow hst, hP, ?_⟩
        intro j hj
        cases j with
        | zero => exact (hhold s hs).1 hin
        | succ j => exact hH j (Nat.lt_of_succ_lt_succ hj)
    · rintro ⟨hs, n, hn, path, hpath, hP, hH⟩
      cases n with
      | zero => exact .inl ⟨hs, 0, Nat.zero_le i, path, hpath, hP, hH⟩
      | succ n =>
        -- The first edge of the path leads to a state that is there already.
        obtain ⟨hst, htail⟩ := hpath.tail
        have hnext := ih.2 ⟨hg.target_lt _ _ hst, n, Nat.le_of_succ_le_succ hn, _, htail, hP,
          fun j hj => hH (j + 1) (Nat.succ_lt_succ hj)⟩
        have hHs := hH 0 (Nat.succ_pos n)
        rw [hpath.1] at hHs
        exact .inr ⟨(hhold s hs).2 hHs, hs, path 1, hst, hnext⟩

/-- Every path from a state of the target meets it at once. -/
theorem stays_of_target (hP : P s) :
    g.StaysUntil H P s ∧ i ∈ upperBounds (g.stretches (fun t => ¬ P t) s) := by
  have hmeets : ∀ n path, g.FinitePath s n path → ¬ ∀ j ≤ n, ¬ P (path j) :=
    fun n path hpath hnone => hnone 0 (Nat.zero_le n) (hpath.1 ▸ hP)
  exact ⟨fun n path hpath hnone => absurd hnone (hmeets n path hpath),
    mem_upperBounds_stretches.2 fun n path hpath hnone => absurd hnone (hmeets n path hpath)⟩

/-- After `i` rounds there are the states from which no path avoids the target for more than `i`
states, and none leaves `hold` before it is there. -/
theorem mem_iterate_every_iff (hg : g.Consistent) (hhold : ∀ s < g.size, s ∈ hold ↔ H s)
    (htarget : ∀ s, s ∈ target ↔ s < g.size ∧ P s) :
    s ∈ (widen g .every hold)^[i] target ↔
      s < g.size ∧ g.StaysUntil H P s ∧ i ∈ upperBounds (g.stretches (fun t => ¬ P t) s) := by
  induction i generalizing s with
  | zero =>
    rw [Function.iterate_zero_apply, htarget]
    refine and_congr_right fun hs => ⟨stays_of_target, ?_⟩
    rintro ⟨-, hbound⟩
    by_contra hP
    exact absurd (mem_upperBounds_stretches.1 hbound 0 (fun _ => s) .zero fun _ _ => hP)
      (Nat.lt_irrefl 0)
  | succ i ih =>
    rw [mem_iterate_succ, ih]
    constructor
    · rintro (⟨hs, hstays, hbound⟩ | ⟨hin, hs, hnext⟩)
      · exact ⟨hs, hstays, fun m hm => Nat.le_succ_of_le (hbound hm)⟩
      · refine ⟨hs, .of_next ((hhold s hs).1 hin) fun t hst => (ih.1 (hnext t hst)).2.1,
          mem_upperBounds_stretches.2 fun n path hpath hnone => ?_⟩
        cases n with
        | zero => exact Nat.succ_pos i
        | succ n =>
          obtain ⟨hst, htail⟩ := hpath.tail
          exact Nat.succ_lt_succ (mem_upperBounds_stretches.1 (ih.1 (hnext _ hst)).2.2 n _ htail
            fun j hj => hnone (j + 1) (Nat.succ_le_succ hj))
    · rintro ⟨hs, hstays, hbound⟩
      by_cases hP : P s
      · exact .inl ⟨hs, stays_of_target hP⟩
      · refine .inr ⟨(hhold s hs).2 (hstays.here hP), hs, fun t hst => ih.2 ⟨hg.target_lt _ _ hst,
          hstays.next hP hst, mem_upperBounds_stretches.2 fun n path hpath hnone => ?_⟩⟩
        -- The state in front makes the path one state longer, and still it avoids the target.
        refine Nat.lt_of_succ_lt_succ (mem_upperBounds_stretches.1 hbound (n + 1) (follow s path)
          (hpath.follow hst) fun j hj => ?_)
        cases j with
        | zero => exact hP
        | succ j => exact hnone j (Nat.le_of_succ_le_succ hj)

/-- The least bound on numbers of which there are some is one of them. -/
theorem isGreatest_of_isLUB {numbers : Set Nat} (hsome : numbers.Nonempty)
    (h : IsLUB numbers k) : IsGreatest numbers k :=
  ⟨h.csSup_eq hsome ▸ Nat.sSup_mem hsome ⟨k, h.1⟩, h.1⟩

/-- The rounds count the edges of a shortest path, where it is longest. -/
theorem Settles.isMaximum_some (hg : g.Consistent) (hhold : ∀ s < g.size, s ∈ hold ↔ H s)
    (htarget : ∀ s, s ∈ target ↔ s < g.size ∧ P s)
    (h : Settles (widen g .some hold) target final r) :
    g.IsMaximum (fun s => (g.distances H P s).Nonempty) (fun s => IsLeast (g.distances H P s)) r := by
  have hfinal := fun s => settles_some_iff (s := s) hg hhold htarget h
  refine (h.isMaximum fun s hs => ((hfinal s).1 hs).1).congr (fun s hs => ?_) fun s hs _ k hk => ?_
  · exact (hfinal s).trans (and_iff_right hs)
  · have hround : ∀ i, s ∈ (widen g .some hold)^[i] target ↔ ∃ n ≤ i, n ∈ g.distances H P s :=
      fun i => (mem_iterate_some_iff hg hhold htarget).trans (and_iff_right hs)
    obtain ⟨n, hn, hd⟩ := (hround k).1 hk.1
    have hkn : k ≤ n := hk.2 ((hround n).2 ⟨n, Nat.le_refl n, hd⟩)
    exact ⟨Nat.le_antisymm hn hkn ▸ hd, fun m hm => hk.2 ((hround m).2 ⟨m, Nat.le_refl m, hm⟩)⟩

/-- The rounds count the states of a longest path that avoids the target, where it is longest. -/
theorem Settles.isMaximum_every (hg : g.Consistent) (hhold : ∀ s < g.size, s ∈ hold ↔ H s)
    (htarget : ∀ s, s ∈ target ↔ s < g.size ∧ P s)
    (h : Settles (widen g .every hold) target final r) :
    g.IsMaximum (· ∈ final) (fun s => IsGreatest (g.stretches (fun t => ¬ P t) s)) r := by
  have hfinal := fun s => settles_every_iff (s := s) hg hhold htarget h
  refine (h.isMaximum fun s hs => ((hfinal s).1 hs).1).congr (fun _ _ => Iff.rfl) fun s hs hin k hk => ?_
  -- At the states that join in the end, only the bound tells the rounds apart.
  have hround : ∀ i, s ∈ (widen g .every hold)^[i] target ↔
      i ∈ upperBounds (g.stretches (fun t => ¬ P t) s) := by
    intro i
    rw [mem_iterate_every_iff hg hhold htarget]
    exact ⟨fun hi => hi.2.2, fun hi => ⟨hs, ((hfinal s).1 hin).2.2, hi⟩⟩
  exact isGreatest_of_isLUB ⟨0, zero_mem_stretches⟩
    ⟨(hround k).1 hk.1, fun i hi => hk.2 ((hround i).2 hi)⟩

end Fixpoint

/-! ## Formulas -/

/-- The fixpoints in a formula, in the order in which they are computed: those of the operands come
first, from left to right. -/
def Formula.fixpoints : Formula → List Formula
  | .top | .bot | .atom _ => []
  | .not f | .ex f | .ax f => f.fixpoints
  | .and f h | .or f h => f.fixpoints ++ h.fixpoints
  | .ef f => f.fixpoints ++ [.ef f]
  | .af f => f.fixpoints ++ [.af f]
  | .eg f => f.fixpoints ++ [.eg f]
  | .ag f => f.fixpoints ++ [.ag f]
  | .eu f h => f.fixpoints ++ h.fixpoints ++ [.eu f h]
  | .au f h => f.fixpoints ++ h.fixpoints ++ [.au f h]

namespace Graph

open Fixpoint Result

/-- What the rounds of a fixpoint are: a maximum over the states that satisfy the formula, and for
the operators that shrink a set, over the states that do not. -/
def RoundsOf (g : Graph) : Formula → Nat → Prop
  | .ef f => g.IsMaximum (g.Satisfies (.ef f))
      fun s => IsLeast (g.distances (fun _ => True) (g.Satisfies f) s)
  | .eu f h => g.IsMaximum (g.Satisfies (.eu f h))
      fun s => IsLeast (g.distances (g.Satisfies f) (g.Satisfies h) s)
  | .af f => g.IsMaximum (g.Satisfies (.af f))
      fun s => IsGreatest (g.stretches (fun t => ¬ g.Satisfies f t) s)
  | .au f h => g.IsMaximum (g.Satisfies (.au f h))
      fun s => IsGreatest (g.stretches (fun t => ¬ g.Satisfies h t) s)
  | .ag f => g.IsMaximum (fun s => ¬ g.Satisfies (.ag f) s)
      fun s => IsLeast (g.distances (fun _ => True) (fun t => ¬ g.Satisfies f t) s)
  | .eg f => g.IsMaximum (fun s => ¬ g.Satisfies (.eg f) s)
      fun s => IsGreatest (g.stretches (g.Satisfies f) s)
  | _ => fun _ => False

/-- The operator that a fixpoint is recorded under. -/
def operatorOf? : Formula → Option FixpointOp
  | .ef _ => some .ef
  | .af _ => some .af
  | .eg _ => some .eg
  | .ag _ => some .ag
  | .eu _ _ => some .eu
  | .au _ _ => some .au
  | _ => none

variable {g : Graph} {f h p q : Formula} {a b set other : StateSet} {hold : Option StateSet}
  {kind : StepBack} {traces : List FixpointTrace} {s r : Nat}

theorem denotes_of_evaluate (hg : g.Consistent) (hok : f.evaluate g = .ok (set, traces)) :
    g.Denotes f set := by
  obtain ⟨set', traces', hok', hden⟩ := evaluate_ok hg f
  cases hok.symm.trans hok'
  exact hden

theorem settles_of_least (hg : g.Consistent) (hf : g.Denotes f a)
    (hok : least g kind hold a = .ok (set, r)) :
    Settles (widen g kind (within hold)) a.members set.members r := by
  obtain ⟨set', r', hok', -, -, hsettles⟩ := least_ok hg kind hold hf.packed hf.size
  cases hok.symm.trans hok'
  exact hsettles

/-! ### Growing sets -/

theorem roundsOf_ef (hg : g.Consistent) (hf : g.Denotes f a)
    (hok : least g .some none a = .ok (set, r)) : g.RoundsOf (.ef f) r := by
  have hmax := (settles_of_least hg hf hok).isMaximum_some (H := fun _ => True) hg
    (fun _ _ => by simp [within]) hf.mem_members
  exact hmax.congr (fun s _ => by simp [Set.Nonempty, distances]) fun _ _ _ _ hk => hk

theorem roundsOf_eu (hg : g.Consistent) (hf : g.Denotes f a) (hh : g.Denotes h b)
    (hok : least g .some (some a) b = .ok (set, r)) : g.RoundsOf (.eu f h) r := by
  have hmax := (settles_of_least hg hh hok).isMaximum_some hg (fun _ hs => hf.mem_within hs)
    hh.mem_members
  exact hmax.congr (fun s _ => by simp [Set.Nonempty, distances]) fun _ _ _ _ hk => hk

theorem roundsOf_af (hg : g.Consistent) (hf : g.Denotes f a) (hset : g.Denotes (.af f) set)
    (hok : least g .every none a = .ok (set, r)) : g.RoundsOf (.af f) r := by
  have hmax := (settles_of_least hg hf hok).isMaximum_every (H := fun _ => True) hg
    (fun _ _ => by simp [within]) hf.mem_members
  exact hmax.congr (fun s hs => (hset.mem_members s).trans (and_iff_right hs)) fun _ _ _ _ hk => hk

theorem roundsOf_au (hg : g.Consistent) (hf : g.Denotes f a) (hh : g.Denotes h b)
    (hset : g.Denotes (.au f h) set) (hok : least g .every (some a) b = .ok (set, r)) :
    g.RoundsOf (.au f h) r := by
  have hmax := (settles_of_least hg hh hok).isMaximum_every hg (fun _ hs => hf.mem_within hs)
    hh.mem_members
  exact hmax.congr (fun s hs => (hset.mem_members s).trans (and_iff_right hs)) fun _ _ _ _ hk => hk

/-! ### Shrinking sets -/

/-- Where a set is shrunk, its complement could have been grown in the same rounds. -/
theorem least_of_greatest (hg : g.Consistent) (hf : g.Denotes f a)
    (hok : greatest g kind a = .ok (set, r)) :
    ∃ other, least g kind.dual none a.complement = .ok (other, r) ∧ set = other.complement := by
  obtain ⟨other, r', hleast, hgreatest, -⟩ :=
    least_dual hg kind.dual hf.complement.packed hf.complement.size
  have hdual : kind.dual.dual = kind := by cases kind <;> rfl
  rw [hdual, StateSet.complement_complement hf.packed] at hgreatest
  cases hok.symm.trans hgreatest
  exact ⟨other, hleast, rfl⟩

/-- Sets that are complements denote formulas that exclude each other. -/
theorem Denotes.satisfies_iff_not (hp : g.Denotes p other) (hq : g.Denotes q other.complement)
    (hs : s < g.size) : g.Satisfies p s ↔ ¬ g.Satisfies q s := by
  have hiff := hq.mem_iff s
  rw [StateSet.mem_complement hp.packed, hp.mem_iff, hp.size] at hiff
  tauto

theorem roundsOf_ag (hg : g.Consistent) (hf : g.Denotes f a) (hset : g.Denotes (.ag f) set)
    (hok : greatest g .every a = .ok (set, r)) : g.RoundsOf (.ag f) r := by
  obtain ⟨other, hleast, rfl⟩ := least_of_greatest hg hf hok
  obtain ⟨other', r', hleast', hother⟩ := hf.complement.leastSome hg
  cases hleast.symm.trans hleast'
  exact (roundsOf_ef hg hf.complement hleast).congr
    (fun s hs => hother.satisfies_iff_not hset hs) fun _ _ _ _ hk => hk

theorem roundsOf_eg (hg : g.Consistent) (hf : g.Denotes f a) (hset : g.Denotes (.eg f) set)
    (hok : greatest g .some a = .ok (set, r)) : g.RoundsOf (.eg f) r := by
  obtain ⟨other, hleast, rfl⟩ := least_of_greatest hg hf hok
  obtain ⟨other', r', hleast', hother⟩ := hf.complement.leastEvery hg
  cases hleast.symm.trans hleast'
  refine (roundsOf_af hg hf.complement hother hleast).congr
    (fun s hs => hother.satisfies_iff_not hset hs) fun s _ _ k hk => ?_
  -- To avoid the states outside `f` is to stay in `f`.
  simpa only [satisfies_not, not_not] using hk

/-! ### Traces -/

/-- The trace was left by the formula: it names its operator, and the rounds are the maximum that
the paths of the graph determine. -/
def LeftBy (g : Graph) (f : Formula) (t : FixpointTrace) : Prop :=
  operatorOf? f = some t.operator ∧ g.RoundsOf f t.rounds

/-- A fixpoint leaves its trace behind those of its operands. -/
theorem leftBy_concat {formulas : List Formula} {t : FixpointTrace}
    (hbefore : List.Forall₂ g.LeftBy formulas traces) (h : g.LeftBy f t) :
    List.Forall₂ g.LeftBy (formulas ++ [f]) (traces ++ [t]) :=
  List.rel_append hbefore (.cons h .nil)

/-- Evaluation leaves a trace for each fixpoint, in their order. -/
theorem evaluate_traces (hg : g.Consistent) (f : Formula) :
    ∃ set traces, f.evaluate g = .ok (set, traces) ∧ List.Forall₂ g.LeftBy f.fixpoints traces := by
  induction f with
  | top => exact ⟨_, _, Formula.evaluate_top, .nil⟩
  | bot => exact ⟨_, _, Formula.evaluate_bot, .nil⟩
  | atom name =>
    obtain ⟨set, hok, -⟩ := statesWithLabel_ok hg name
    exact ⟨set, _, Formula.evaluate_atom hok, .nil⟩
  | not f ih =>
    obtain ⟨a, t, ha, ht⟩ := ih
    exact ⟨_, _, Formula.evaluate_not ha, ht⟩
  | and f h ihf ihh =>
    obtain ⟨a, t, ha, ht⟩ := ihf
    obtain ⟨b, u, hb, hu⟩ := ihh
    obtain ⟨set, hok, -⟩ := (denotes_of_evaluate hg ha).intersection (denotes_of_evaluate hg hb)
    exact ⟨set, _, Formula.evaluate_and ha hb hok, List.rel_append ht hu⟩
  | or f h ihf ihh =>
    obtain ⟨a, t, ha, ht⟩ := ihf
    obtain ⟨b, u, hb, hu⟩ := ihh
    obtain ⟨set, hok, -⟩ := (denotes_of_evaluate hg ha).union (denotes_of_evaluate hg hb)
    exact ⟨set, _, Formula.evaluate_or ha hb hok, List.rel_append ht hu⟩
  | ex f ih =>
    obtain ⟨a, t, ha, ht⟩ := ih
    obtain ⟨set, hok, -⟩ := (denotes_of_evaluate hg ha).preSome hg
    exact ⟨set, _, Formula.evaluate_ex ha hok, ht⟩
  | ax f ih =>
    obtain ⟨a, t, ha, ht⟩ := ih
    obtain ⟨set, hok, -⟩ := (denotes_of_evaluate hg ha).preEvery hg
    exact ⟨set, _, Formula.evaluate_ax ha hok, ht⟩
  | ef f ih =>
    obtain ⟨a, t, ha, ht⟩ := ih
    have hf := denotes_of_evaluate hg ha
    obtain ⟨set, r, hok, -⟩ := hf.leastSome hg
    exact ⟨set, _, Formula.evaluate_ef ha hok, leftBy_concat ht ⟨rfl, roundsOf_ef hg hf hok⟩⟩
  | af f ih =>
    obtain ⟨a, t, ha, ht⟩ := ih
    have hf := denotes_of_evaluate hg ha
    obtain ⟨set, r, hok, hset⟩ := hf.leastEvery hg
    exact ⟨set, _, Formula.evaluate_af ha hok, leftBy_concat ht ⟨rfl, roundsOf_af hg hf hset hok⟩⟩
  | eg f ih =>
    obtain ⟨a, t, ha, ht⟩ := ih
    have hf := denotes_of_evaluate hg ha
    obtain ⟨set, r, hok, hset⟩ := hf.greatestSome hg
    exact ⟨set, _, Formula.evaluate_eg ha hok, leftBy_concat ht ⟨rfl, roundsOf_eg hg hf hset hok⟩⟩
  | ag f ih =>
    obtain ⟨a, t, ha, ht⟩ := ih
    have hf := denotes_of_evaluate hg ha
    obtain ⟨set, r, hok, hset⟩ := hf.greatestEvery hg
    exact ⟨set, _, Formula.evaluate_ag ha hok, leftBy_concat ht ⟨rfl, roundsOf_ag hg hf hset hok⟩⟩
  | eu f h ihf ihh =>
    obtain ⟨a, t, ha, ht⟩ := ihf
    obtain ⟨b, u, hb, hu⟩ := ihh
    have hf := denotes_of_evaluate hg ha
    have hh := denotes_of_evaluate hg hb
    obtain ⟨set, r, hok, -⟩ := hf.leastSomeWithin hg hh
    exact ⟨set, _, Formula.evaluate_eu ha hb hok,
      leftBy_concat (List.rel_append ht hu) ⟨rfl, roundsOf_eu hg hf hh hok⟩⟩
  | au f h ihf ihh =>
    obtain ⟨a, t, ha, ht⟩ := ihf
    obtain ⟨b, u, hb, hu⟩ := ihh
    have hf := denotes_of_evaluate hg ha
    have hh := denotes_of_evaluate hg hb
    obtain ⟨set, r, hok, hset⟩ := hf.leastEveryWithin hg hh
    exact ⟨set, _, Formula.evaluate_au ha hb hok,
      leftBy_concat (List.rel_append ht hu) ⟨rfl, roundsOf_au hg hf hh hset hok⟩⟩

end Graph

/-- On every graph that can be built, whatever was evaluated before, the evaluator leaves a trace
for each fixpoint, with the rounds that the paths of the graph determine. -/
theorem Evaluator.sat_rounds (e : Evaluator) (hbuilt : e.graph.Built) (f : Formula) :
    ∃ set traces, e.sat f = .ok (set, { e with traces := e.traces ++ traces }) ∧
      List.Forall₂ e.graph.LeftBy f.fixpoints traces := by
  obtain ⟨set, traces, hok, htraces⟩ := Graph.evaluate_traces hbuilt.consistent f
  exact ⟨set, traces, sat_eq_ok hok, htraces⟩

/-- A ring of two states, and a way that leads past it to a state without successors. -/
theorem Evaluator.sat_rounds_bypass :
    let g := Graph.ofEdits
      [.addState "a" ["p"], .addState "b" ["p"], .addState "c" ["p"], .addState "d" ["q"],
        .addEdge 0 1, .addEdge 1 0, .addEdge 1 2, .addEdgeByName "c" "d"]
    let f : Formula := .or (.ag (.eu (.atom "p") (.atom "q"))) (.eg (.not (.af (.atom "q"))))
    g.Built ∧ ∃ set traces, (Evaluator.mk g []).sat f = .ok (set, ⟨g, [] ++ traces⟩) ∧
      List.Forall₂ g.LeftBy f.fixpoints traces := by
  intro g f
  have hbuilt : g.Built := .inl ⟨_, rfl⟩
  exact ⟨hbuilt, Evaluator.sat_rounds ⟨g, []⟩ hbuilt f⟩

end ActorLogic
