import ActorLogic.Ctl.Evaluator
import ActorLogic.Proofs.Ctl.Fixpoint
import ActorLogic.Proofs.Ctl.Semantics
/-!
# The evaluator finds the states that satisfy a formula

Each fixpoint is tied to paths first. A least fixpoint is part of every set with the same closure,
so it is enough that the states with a suitable path are such a set; a greatest fixpoint has every
set that steps back into itself, so that a path can be followed inside it for ever.
-/

namespace ActorLogic

/-! ## Results of an evaluation -/

namespace Formula

open Fixpoint Result

variable {g : Graph} {f h : Formula} {name : String} {a b set : StateSet}
  {t u : List FixpointTrace} {r : Nat}

theorem evaluate_top : Formula.top.evaluate g = .ok (g.fullSet, []) := rfl

theorem evaluate_bot : Formula.bot.evaluate g = .ok (g.emptySet, []) := rfl

theorem evaluate_atom (hset : g.statesWithLabel name = .ok set) :
    (Formula.atom name).evaluate g = .ok (set, []) := bind_eq_ok.2 ⟨set, hset, rfl⟩

theorem evaluate_not (hf : f.evaluate g = .ok (a, t)) :
    (Formula.not f).evaluate g = .ok (a.complement, t) := bind_eq_ok.2 ⟨_, hf, rfl⟩

theorem evaluate_and (hf : f.evaluate g = .ok (a, t)) (hh : h.evaluate g = .ok (b, u))
    (hset : a.intersection b = .ok set) : (Formula.and f h).evaluate g = .ok (set, t ++ u) :=
  bind_eq_ok.2 ⟨_, hf, bind_eq_ok.2 ⟨_, hh, bind_eq_ok.2 ⟨_, hset, rfl⟩⟩⟩

theorem evaluate_or (hf : f.evaluate g = .ok (a, t)) (hh : h.evaluate g = .ok (b, u))
    (hset : a.union b = .ok set) : (Formula.or f h).evaluate g = .ok (set, t ++ u) :=
  bind_eq_ok.2 ⟨_, hf, bind_eq_ok.2 ⟨_, hh, bind_eq_ok.2 ⟨_, hset, rfl⟩⟩⟩

theorem evaluate_ex (hf : f.evaluate g = .ok (a, t)) (hset : g.preSome a = .ok set) :
    (Formula.ex f).evaluate g = .ok (set, t) :=
  bind_eq_ok.2 ⟨_, hf, bind_eq_ok.2 ⟨_, hset, rfl⟩⟩

theorem evaluate_ax (hf : f.evaluate g = .ok (a, t)) (hset : g.preEvery a = .ok set) :
    (Formula.ax f).evaluate g = .ok (set, t) :=
  bind_eq_ok.2 ⟨_, hf, bind_eq_ok.2 ⟨_, hset, rfl⟩⟩

theorem evaluate_ef (hf : f.evaluate g = .ok (a, t)) (hset : least g .some none a = .ok (set, r)) :
    (Formula.ef f).evaluate g = .ok (set, t ++ [⟨.ef, r, set.card⟩]) :=
  bind_eq_ok.2 ⟨_, hf, bind_eq_ok.2 ⟨_, hset, rfl⟩⟩

theorem evaluate_af (hf : f.evaluate g = .ok (a, t)) (hset : least g .every none a = .ok (set, r)) :
    (Formula.af f).evaluate g = .ok (set, t ++ [⟨.af, r, set.card⟩]) :=
  bind_eq_ok.2 ⟨_, hf, bind_eq_ok.2 ⟨_, hset, rfl⟩⟩

theorem evaluate_eg (hf : f.evaluate g = .ok (a, t)) (hset : greatest g .some a = .ok (set, r)) :
    (Formula.eg f).evaluate g = .ok (set, t ++ [⟨.eg, r, set.card⟩]) :=
  bind_eq_ok.2 ⟨_, hf, bind_eq_ok.2 ⟨_, hset, rfl⟩⟩

theorem evaluate_ag (hf : f.evaluate g = .ok (a, t)) (hset : greatest g .every a = .ok (set, r)) :
    (Formula.ag f).evaluate g = .ok (set, t ++ [⟨.ag, r, set.card⟩]) :=
  bind_eq_ok.2 ⟨_, hf, bind_eq_ok.2 ⟨_, hset, rfl⟩⟩

theorem evaluate_eu (hf : f.evaluate g = .ok (a, t)) (hh : h.evaluate g = .ok (b, u))
    (hset : least g .some (some a) b = .ok (set, r)) :
    (Formula.eu f h).evaluate g = .ok (set, t ++ u ++ [⟨.eu, r, set.card⟩]) :=
  bind_eq_ok.2 ⟨_, hf, bind_eq_ok.2 ⟨_, hh, bind_eq_ok.2 ⟨_, hset, rfl⟩⟩⟩

theorem evaluate_au (hf : f.evaluate g = .ok (a, t)) (hh : h.evaluate g = .ok (b, u))
    (hset : least g .every (some a) b = .ok (set, r)) :
    (Formula.au f h).evaluate g = .ok (set, t ++ u ++ [⟨.au, r, set.card⟩]) :=
  bind_eq_ok.2 ⟨_, hf, bind_eq_ok.2 ⟨_, hh, bind_eq_ok.2 ⟨_, hset, rfl⟩⟩⟩

end Formula

namespace Graph

open Fixpoint Result

variable {g : Graph} {s t n r : Nat} {path : Nat → Nat} {hold target start final : Set Nat}
  {H P : Nat → Prop}

/-! ## Growing sets -/

/-- Some path leads to the target, within `hold` until it is there. -/
theorem settles_some_iff (hg : g.Consistent) (hhold : ∀ s < g.size, s ∈ hold ↔ H s)
    (htarget : ∀ s, s ∈ target ↔ s < g.size ∧ P s)
    (h : Settles (widen g .some hold) target final r) :
    s ∈ final ↔ s < g.size ∧
      ∃ n path, g.FinitePath s n path ∧ P (path n) ∧ ∀ i < n, H (path i) := by
  constructor
  · let closed : Set Nat := {s | s < g.size ∧
      ∃ n path, g.FinitePath s n path ∧ P (path n) ∧ ∀ i < n, H (path i)}
    have hsub : final ⊆ closed := by
      refine h.subset_of_closed ?_ ?_
      · intro s hs
        obtain ⟨hlt, hP⟩ := (htarget s).1 hs
        exact ⟨hlt, 0, fun _ => s, .zero, hP, fun _ hi => absurd hi (Nat.not_lt_zero _)⟩
      · rintro s ⟨hs, hlt, t, hst, -, n, path, hpath, hP, hH⟩
        refine ⟨hlt, n + 1, follow s path, hpath.follow hst, hP, ?_⟩
        intro i hi
        cases i with
        | zero => exact (hhold s hlt).1 hs
        | succ i => exact hH i (Nat.lt_of_succ_lt_succ hi)
    exact fun hs => hsub hs
  · rintro ⟨hlt, n, path, hpath, hP, hH⟩
    obtain ⟨hin, hclosed⟩ := h.closed
    -- Backwards along the path, whose end is in the target.
    induction n generalizing s path with
    | zero =>
      rw [hpath.1] at hP
      exact hin ((htarget s).2 ⟨hlt, hP⟩)
    | succ n ih =>
      obtain ⟨hst, htail⟩ := hpath.tail
      have hnext : path 1 ∈ final := ih (hg.target_lt _ _ hst) _ htail hP
        fun i hi => hH (i + 1) (Nat.succ_lt_succ hi)
      have hHs := hH 0 (Nat.succ_pos n)
      rw [hpath.1] at hHs
      exact hclosed ⟨(hhold s hlt).2 hHs, hlt, path 1, hst, hnext⟩

/-- No path from the state leaves `H` before it meets `P`. -/
def StaysUntil (g : Graph) (H P : Nat → Prop) (s : Nat) : Prop :=
  ∀ n path, g.FinitePath s n path → (∀ i ≤ n, ¬ P (path i)) → ∀ i ≤ n, H (path i)

theorem StaysUntil.here (h : g.StaysUntil H P s) (hP : ¬ P s) : H s :=
  h 0 (fun _ => s) .zero (fun _ _ => hP) 0 (Nat.le_refl 0)

theorem StaysUntil.next (h : g.StaysUntil H P s) (hP : ¬ P s) (hst : g.Edge s t) :
    g.StaysUntil H P t := by
  intro n path hpath hnone i hi
  refine h (n + 1) (follow s path) (hpath.follow hst) (fun j hj => ?_) (i + 1) (Nat.succ_le_succ hi)
  cases j with
  | zero => exact hP
  | succ j => exact hnone j (Nat.le_of_succ_le_succ hj)

theorem StaysUntil.of_next (hH : H s) (h : ∀ t, g.Edge s t → g.StaysUntil H P t) :
    g.StaysUntil H P s := by
  intro n path hpath hnone i hi
  cases i with
  | zero => exact hpath.1 ▸ hH
  | succ i =>
    cases n with
    | zero => cases hi
    | succ n =>
      obtain ⟨hst, htail⟩ := hpath.tail
      exact h _ hst n _ htail (fun i hi => hnone (i + 1) (Nat.succ_le_succ hi)) i
        (Nat.le_of_succ_le_succ hi)

/-- Outside the fixpoint, a path that does not leave `hold` can go on for ever and never comes to the
target: each of its states has a successor outside. -/
theorem exists_path_outside (hg : g.Consistent) (hhold : ∀ s < g.size, s ∈ hold ↔ H s)
    (htarget : ∀ s, s ∈ target ↔ s < g.size ∧ P s)
    (h : Settles (widen g .every hold) target final r) (hlt : s < g.size) (hout : s ∉ final)
    (hstays : g.StaysUntil H P s) : ∃ path, g.InfinitePath s path ∧ ∀ i, ¬ P (path i) := by
  obtain ⟨hin, hclosed⟩ := h.closed
  let outside : Set Nat := {s | s ∉ final ∧ s < g.size ∧ g.StaysUntil H P s}
  have hmiss : ∀ s ∈ outside, ¬ P s := by
    intro s hs hP
    exact hs.1 (hin ((htarget s).2 ⟨hs.2.1, hP⟩))
  have hsteady : ∀ s ∈ outside, ∃ t, g.Edge s t ∧ t ∈ outside := by
    intro s hs
    have hP := hmiss s hs
    obtain ⟨hout, hlt, hstays⟩ := hs
    -- The fixpoint would hold the state if all of its successors were inside.
    have hback : s ∉ g.back .every final := fun hin =>
      hout (hclosed ⟨(hhold s hlt).2 (hstays.here hP), hin⟩)
    obtain ⟨t, hst, ht⟩ : ∃ t, g.Edge s t ∧ t ∉ final := by
      by_contra hnone
      refine hback ⟨hlt, ?_⟩
      intro t hst
      by_contra ht
      exact hnone ⟨t, hst, ht⟩
    exact ⟨t, hst, ht, hg.target_lt _ _ hst, hstays.next hP hst⟩
  obtain ⟨path, hpath, hall⟩ := exists_infinitePath hsteady ⟨hout, hlt, hstays⟩
  exact ⟨path, hpath, fun i => hmiss _ (hall i)⟩

/-- Every infinite path comes to the target, and no path leaves `hold` before it is there. -/
theorem settles_every_iff (hg : g.Consistent) (hhold : ∀ s < g.size, s ∈ hold ↔ H s)
    (htarget : ∀ s, s ∈ target ↔ s < g.size ∧ P s)
    (h : Settles (widen g .every hold) target final r) :
    s ∈ final ↔ s < g.size ∧ (∀ path, g.InfinitePath s path → ∃ i, P (path i)) ∧
      g.StaysUntil H P s := by
  constructor
  · let closed : Set Nat := {s | s < g.size ∧
      (∀ path, g.InfinitePath s path → ∃ i, P (path i)) ∧ g.StaysUntil H P s}
    have hsub : final ⊆ closed := by
      refine h.subset_of_closed ?_ ?_
      · intro s hs
        obtain ⟨hlt, hP⟩ := (htarget s).1 hs
        refine ⟨hlt, fun path hpath => ⟨0, hpath.1 ▸ hP⟩, ?_⟩
        intro n path hpath hnone
        exact absurd (hpath.1 ▸ hP) (hnone 0 (Nat.zero_le n))
      · rintro s ⟨hs, hlt, hnext⟩
        refine ⟨hlt, fun path hpath => ?_, ?_⟩
        · obtain ⟨hst, htail⟩ := hpath.tail
          obtain ⟨i, hP⟩ := (hnext _ hst).2.1 _ htail
          exact ⟨i + 1, hP⟩
        · exact .of_next ((hhold s hlt).1 hs) fun t hst => (hnext t hst).2.2
    exact fun hs => hsub hs
  · rintro ⟨hlt, hvisits, hstays⟩
    by_contra hout
    obtain ⟨path, hpath, hnever⟩ := exists_path_outside hg hhold htarget h hlt hout hstays
    obtain ⟨i, hP⟩ := hvisits path hpath
    exact hnever i hP

/-! ## Shrinking sets -/

/-- Some infinite path stays in the start. -/
theorem settles_narrow_some_iff (hg : g.Consistent) (hstart : ∀ s, s ∈ start ↔ s < g.size ∧ P s)
    (h : Settles (narrow g .some) start final r) :
    s ∈ final ↔ s < g.size ∧ ∃ path, g.InfinitePath s path ∧ ∀ i, P (path i) := by
  constructor
  · intro hs
    obtain ⟨hsub, hsteady⟩ := h.steady
    obtain ⟨path, hpath, hall⟩ := exists_infinitePath (fun s hs => (hsteady hs).2) hs
    exact ⟨((hstart s).1 (hsub hs)).1, path, hpath, fun i => ((hstart _).1 (hsub (hall i))).2⟩
  · let steady : Set Nat :=
      {s | s < g.size ∧ ∃ path, g.InfinitePath s path ∧ ∀ i, P (path i)}
    have hsub : steady ⊆ final := by
      refine h.subset_of_steady ?_ ?_
      · rintro s ⟨hlt, path, hpath, hall⟩
        exact (hstart s).2 ⟨hlt, hpath.1 ▸ hall 0⟩
      · rintro s ⟨hlt, path, hpath, hall⟩
        obtain ⟨hst, htail⟩ := hpath.tail
        exact ⟨hlt, path 1, hst, hg.target_lt _ _ hst, _, htail, fun i => hall (i + 1)⟩
    exact fun hs => hsub hs

/-- Everything that can be reached is in the start. -/
theorem settles_narrow_every_iff (hg : g.Consistent) (hstart : ∀ s, s ∈ start ↔ s < g.size ∧ P s)
    (h : Settles (narrow g .every) start final r) :
    s ∈ final ↔ s < g.size ∧ ∀ t, g.Reaches s t → P t := by
  constructor
  · intro hs
    obtain ⟨hsub, hsteady⟩ := h.steady
    refine ⟨((hstart s).1 (hsub hs)).1, ?_⟩
    intro t hreach
    -- Forwards along the edges, which lead from members to members.
    have ht : t ∈ final := by
      induction hreach with
      | refl => exact hs
      | tail _ hedge ih => exact (hsteady ih).2 _ hedge
    exact ((hstart t).1 (hsub ht)).2
  · let steady : Set Nat := {s | s < g.size ∧ ∀ t, g.Reaches s t → P t}
    have hsub : steady ⊆ final := by
      refine h.subset_of_steady ?_ ?_
      · rintro s ⟨hlt, hall⟩
        exact (hstart s).2 ⟨hlt, hall s .refl⟩
      · rintro s ⟨hlt, hall⟩
        exact ⟨hlt, fun t hst => ⟨hg.target_lt _ _ hst, fun u hreach => hall u (.head hst hreach)⟩⟩
    exact fun hs => hsub hs

/-! ## Formulas -/

/-- The set has one place for each state of the graph, and its members are the states that satisfy
the formula. -/
structure Denotes (g : Graph) (f : Formula) (set : StateSet) : Prop where
  packed : set.Packed
  size : set.size = g.size
  mem_iff : ∀ s : Nat, s ∈ set ↔ s < g.size ∧ g.Satisfies f s

namespace Denotes

variable {f : Formula} {set : StateSet}

theorem mem_members (h : g.Denotes f set) (s : Nat) :
    s ∈ (set.members : Set Nat) ↔ s < g.size ∧ g.Satisfies f s := by
  simpa using h.mem_iff s

theorem mem_within (h : g.Denotes f set) (hs : s < g.size) :
    s ∈ within (some set) ↔ g.Satisfies f s := by
  simpa [within, hs] using h.mem_iff s

end Denotes

/-! ### One lemma for each operator -/

variable {f h : Formula} {a b : StateSet}

theorem Denotes.complement (hf : g.Denotes f a) : g.Denotes (.not f) a.complement where
  packed := StateSet.packed_complement hf.packed
  size := StateSet.size_complement.trans hf.size
  mem_iff s := by
    rw [StateSet.mem_complement hf.packed, hf.mem_iff, hf.size, satisfies_not]
    tauto

theorem Denotes.intersection (hf : g.Denotes f a) (hh : g.Denotes h b) :
    ∃ set, a.intersection b = .ok set ∧ g.Denotes (.and f h) set := by
  obtain ⟨set, hok, hpacked, hsize, hmem⟩ :=
    StateSet.intersection_ok hf.packed hh.packed (hf.size.trans hh.size.symm)
  refine ⟨set, hok, hpacked, hsize.trans hf.size, ?_⟩
  intro s
  rw [hmem, hf.mem_iff, hh.mem_iff, satisfies_and]
  tauto

theorem Denotes.union (hf : g.Denotes f a) (hh : g.Denotes h b) :
    ∃ set, a.union b = .ok set ∧ g.Denotes (.or f h) set := by
  obtain ⟨set, hok, hpacked, hsize, hmem⟩ :=
    StateSet.union_ok hf.packed hh.packed (hf.size.trans hh.size.symm)
  refine ⟨set, hok, hpacked, hsize.trans hf.size, ?_⟩
  intro s
  rw [hmem, hf.mem_iff, hh.mem_iff, satisfies_or]
  tauto

theorem Denotes.preSome (hg : g.Consistent) (hf : g.Denotes f a) :
    ∃ set, g.preSome a = .ok set ∧ g.Denotes (.ex f) set := by
  obtain ⟨set, hok, hpacked, hsize, hmem⟩ := preSome_ok hg hf.packed hf.size
  refine ⟨set, hok, hpacked, hsize, fun s => (hmem s).trans ?_⟩
  apply and_congr_right
  intro _
  apply exists_congr
  intro t
  apply and_congr_right
  intro hst
  rw [hf.mem_members]
  exact and_iff_right (hg.target_lt _ _ hst)

theorem Denotes.preEvery (hg : g.Consistent) (hf : g.Denotes f a) :
    ∃ set, g.preEvery a = .ok set ∧ g.Denotes (.ax f) set := by
  obtain ⟨set, hok, hpacked, hsize, hmem⟩ := preEvery_ok hg a
  refine ⟨set, hok, hpacked, hsize, fun s => (hmem s).trans ?_⟩
  apply and_congr_right
  intro _
  apply forall_congr'
  intro t
  apply imp_congr_right
  intro hst
  rw [hf.mem_members]
  exact and_iff_right (hg.target_lt _ _ hst)

theorem Denotes.leastSome (hg : g.Consistent) (hf : g.Denotes f a) :
    ∃ set r, least g .some none a = .ok (set, r) ∧ g.Denotes (.ef f) set := by
  obtain ⟨set, r, hok, hpacked, hsize, hsettles⟩ := least_ok hg .some none hf.packed hf.size
  refine ⟨set, r, hok, hpacked, hsize, ?_⟩
  intro s
  have hiff := settles_some_iff (s := s) (H := fun _ => True) hg (fun _ _ => by simp [within])
    hf.mem_members hsettles
  simpa using hiff

theorem Denotes.leastEvery (hg : g.Consistent) (hf : g.Denotes f a) :
    ∃ set r, least g .every none a = .ok (set, r) ∧ g.Denotes (.af f) set := by
  obtain ⟨set, r, hok, hpacked, hsize, hsettles⟩ := least_ok hg .every none hf.packed hf.size
  refine ⟨set, r, hok, hpacked, hsize, ?_⟩
  intro s
  have hiff := settles_every_iff (s := s) (H := fun _ => True) hg (fun _ _ => by simp [within])
    hf.mem_members hsettles
  simpa [StaysUntil] using hiff

theorem Denotes.leastSomeWithin (hg : g.Consistent) (hf : g.Denotes f a) (hh : g.Denotes h b) :
    ∃ set r, least g .some (some a) b = .ok (set, r) ∧ g.Denotes (.eu f h) set := by
  obtain ⟨set, r, hok, hpacked, hsize, hsettles⟩ := least_ok hg .some (some a) hh.packed hh.size
  refine ⟨set, r, hok, hpacked, hsize, ?_⟩
  intro s
  have hiff := settles_some_iff (s := s) hg (fun _ hs => hf.mem_within hs) hh.mem_members hsettles
  simpa using hiff

theorem Denotes.leastEveryWithin (hg : g.Consistent) (hf : g.Denotes f a) (hh : g.Denotes h b) :
    ∃ set r, least g .every (some a) b = .ok (set, r) ∧ g.Denotes (.au f h) set := by
  obtain ⟨set, r, hok, hpacked, hsize, hsettles⟩ := least_ok hg .every (some a) hh.packed hh.size
  refine ⟨set, r, hok, hpacked, hsize, ?_⟩
  intro s
  have hiff := settles_every_iff (s := s) hg (fun _ hs => hf.mem_within hs) hh.mem_members hsettles
  simpa [StaysUntil] using hiff

theorem Denotes.greatestSome (hg : g.Consistent) (hf : g.Denotes f a) :
    ∃ set r, greatest g .some a = .ok (set, r) ∧ g.Denotes (.eg f) set := by
  obtain ⟨set, r, hok, hpacked, hsize, hsettles⟩ := greatest_ok hg .some hf.packed hf.size
  refine ⟨set, r, hok, hpacked, hsize, ?_⟩
  intro s
  simpa using settles_narrow_some_iff (s := s) hg hf.mem_members hsettles

theorem Denotes.greatestEvery (hg : g.Consistent) (hf : g.Denotes f a) :
    ∃ set r, greatest g .every a = .ok (set, r) ∧ g.Denotes (.ag f) set := by
  obtain ⟨set, r, hok, hpacked, hsize, hsettles⟩ := greatest_ok hg .every hf.packed hf.size
  refine ⟨set, r, hok, hpacked, hsize, ?_⟩
  intro s
  simpa using settles_narrow_every_iff (s := s) hg hf.mem_members hsettles

/-- Evaluation never stops with a fault, and what it finds denotes the formula. -/
theorem evaluate_ok (hg : g.Consistent) (f : Formula) :
    ∃ set traces, f.evaluate g = .ok (set, traces) ∧ g.Denotes f set := by
  induction f with
  | top =>
    exact ⟨_, _, Formula.evaluate_top, StateSet.packed_full, StateSet.size_full,
      by simp [fullSet]⟩
  | bot =>
    exact ⟨_, _, Formula.evaluate_bot, StateSet.packed_empty, StateSet.size_empty,
      by simp [emptySet]⟩
  | atom name =>
    obtain ⟨set, hok, hpacked, hsize, hmem⟩ := statesWithLabel_ok hg name
    exact ⟨set, _, Formula.evaluate_atom hok, hpacked, hsize, hmem⟩
  | not f ih =>
    obtain ⟨a, t, ha, hf⟩ := ih
    exact ⟨_, _, Formula.evaluate_not ha, hf.complement⟩
  | and f h ihf ihh =>
    obtain ⟨a, t, ha, hf⟩ := ihf
    obtain ⟨b, u, hb, hh⟩ := ihh
    obtain ⟨set, hok, hden⟩ := hf.intersection hh
    exact ⟨set, _, Formula.evaluate_and ha hb hok, hden⟩
  | or f h ihf ihh =>
    obtain ⟨a, t, ha, hf⟩ := ihf
    obtain ⟨b, u, hb, hh⟩ := ihh
    obtain ⟨set, hok, hden⟩ := hf.union hh
    exact ⟨set, _, Formula.evaluate_or ha hb hok, hden⟩
  | ex f ih =>
    obtain ⟨a, t, ha, hf⟩ := ih
    obtain ⟨set, hok, hden⟩ := hf.preSome hg
    exact ⟨set, _, Formula.evaluate_ex ha hok, hden⟩
  | ax f ih =>
    obtain ⟨a, t, ha, hf⟩ := ih
    obtain ⟨set, hok, hden⟩ := hf.preEvery hg
    exact ⟨set, _, Formula.evaluate_ax ha hok, hden⟩
  | ef f ih =>
    obtain ⟨a, t, ha, hf⟩ := ih
    obtain ⟨set, r, hok, hden⟩ := hf.leastSome hg
    exact ⟨set, _, Formula.evaluate_ef ha hok, hden⟩
  | af f ih =>
    obtain ⟨a, t, ha, hf⟩ := ih
    obtain ⟨set, r, hok, hden⟩ := hf.leastEvery hg
    exact ⟨set, _, Formula.evaluate_af ha hok, hden⟩
  | eg f ih =>
    obtain ⟨a, t, ha, hf⟩ := ih
    obtain ⟨set, r, hok, hden⟩ := hf.greatestSome hg
    exact ⟨set, _, Formula.evaluate_eg ha hok, hden⟩
  | ag f ih =>
    obtain ⟨a, t, ha, hf⟩ := ih
    obtain ⟨set, r, hok, hden⟩ := hf.greatestEvery hg
    exact ⟨set, _, Formula.evaluate_ag ha hok, hden⟩
  | eu f h ihf ihh =>
    obtain ⟨a, t, ha, hf⟩ := ihf
    obtain ⟨b, u, hb, hh⟩ := ihh
    obtain ⟨set, r, hok, hden⟩ := hf.leastSomeWithin hg hh
    exact ⟨set, _, Formula.evaluate_eu ha hb hok, hden⟩
  | au f h ihf ihh =>
    obtain ⟨a, t, ha, hf⟩ := ihf
    obtain ⟨b, u, hb, hh⟩ := ihh
    obtain ⟨set, r, hok, hden⟩ := hf.leastEveryWithin hg hh
    exact ⟨set, _, Formula.evaluate_au ha hb hok, hden⟩

end Graph

/-- On every graph that can be built, whatever was evaluated before, the evaluator finds exactly the
states that satisfy the formula. -/
theorem Evaluator.mem_sat_iff_satisfies (e : Evaluator) (hbuilt : e.graph.Built) (f : Formula) :
    ∃ set next, e.sat f = .ok (set, next) ∧ next.graph = e.graph ∧
      ∀ s : Nat, set.contains s = true ↔ s < e.graph.size ∧ e.graph.Satisfies f s := by
  obtain ⟨set, traces, hok, hden⟩ := Graph.evaluate_ok hbuilt.consistent f
  refine ⟨set, { e with traces := e.traces ++ traces }, ?_, rfl, hden.mem_iff⟩
  simp only [Evaluator.sat, hok, Result.ok_bind]
  rfl

/-- A ring of two states with a way out to a state without successors. -/
theorem Evaluator.mem_sat_iff_satisfies_ring :
    let g := Graph.ofEdits
      [.addState "a" ["p"], .addState "b" ["p", "q"], .addState "c" [], .addEdge 0 1, .addEdge 1 0,
        .addEdgeByName "b" "c", .setInitial "a"]
    let f : Formula := .or (.eg (.ef (.atom "q"))) (.au (.atom "p") (.not (.atom "p")))
    g.Built ∧ ∃ set next, (Evaluator.mk g []).sat f = .ok (set, next) ∧ next.graph = g ∧
      ∀ s : Nat, set.contains s = true ↔ s < g.size ∧ g.Satisfies f s := by
  intro g f
  have hbuilt : g.Built := .inl ⟨_, rfl⟩
  exact ⟨hbuilt, Evaluator.mem_sat_iff_satisfies ⟨g, []⟩ hbuilt f⟩

end ActorLogic
