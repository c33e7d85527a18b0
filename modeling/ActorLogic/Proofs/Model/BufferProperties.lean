import ActorLogic.Ctl.Verdict
import ActorLogic.Proofs.Ctl.Rounds
import ActorLogic.Proofs.Model.BoundedBuffer
/-!
# Properties of the bounded buffer

The states of a buffer form a chain, in which a step adds an item or takes one away. So the shortest
way to the full buffer takes one step for each item that is missing, and the shortest way to the
empty one a step for each item that is there. The longest of these ways is the chain itself, and its
length is the number of rounds that the fixpoints take, whatever the capacity.
-/

namespace ActorLogic

open ActorLogic.Graph Result

/-! ## Formulas that hold everywhere -/

namespace Graph

variable {g : Graph} {f : Formula} {set : StateSet} {among : Nat → Prop}
  {measure : Nat → Nat → Prop} {r n : Nat}

/-- Every state satisfies the formula, and its fixpoints take this many rounds in all. -/
def HoldsThroughout (g : Graph) (f : Formula) (rounds : Nat) : Prop :=
  ∃ traces, f.evaluate g = .ok (g.fullSet, traces) ∧ totalRounds traces = rounds

/-- No state satisfies the formula. -/
def HoldsNowhere (g : Graph) (f : Formula) : Prop :=
  ∃ traces, f.evaluate g = .ok (g.emptySet, traces)

theorem Denotes.eq_fullSet (h : g.Denotes f set) (hall : ∀ s < g.size, g.Satisfies f s) :
    set = g.fullSet :=
  h.packed.ext StateSet.packed_full (h.size.trans StateSet.size_full.symm) fun s => by
    rw [h.mem_iff, fullSet, StateSet.mem_full]
    exact and_iff_left_of_imp (hall s)

theorem Denotes.eq_emptySet (h : g.Denotes f set) (hnone : ∀ s < g.size, ¬ g.Satisfies f s) :
    set = g.emptySet :=
  h.packed.ext StateSet.packed_empty (h.size.trans StateSet.size_empty.symm) fun s => by
    rw [h.mem_iff, emptySet]
    simpa using hnone s

/-- A measure that is the rank of each state has the greatest rank as its maximum. -/
theorem IsMaximum.eq (h : g.IsMaximum among measure r) (rank : Nat → Nat)
    (hrank : ∀ s < g.size, among s → ∀ k, measure s k → k = rank s)
    (hle : ∀ s < g.size, rank s ≤ n) (htop : ∃ s < g.size, among s ∧ rank s = n) : r = n := by
  obtain ⟨t, ht, hin, rfl⟩ := htop
  obtain ⟨s, hs, hamong, hr⟩ := h.attained ⟨t, ht, hin⟩
  obtain ⟨k, hk, hm⟩ := h.measured t ht hin
  apply Nat.le_antisymm
  · rw [hrank s hs hamong r hr]
    exact hle s hs
  · rwa [← hrank t ht hin k hm]

/-- What holds everywhere takes nothing away. -/
theorem rounds_of_ag (h : g.RoundsOf (.ag f) r) (hall : ∀ s < g.size, g.Satisfies (.ag f) s) :
    r = 0 :=
  h.empty fun ⟨s, hs, hnot⟩ => hnot (hall s hs)

end Graph

namespace BoundedBuffer

variable {capacity s n : Nat} {path : Nat → Nat}

/-! ## The properties -/

def canFill : Formula := .ef (.atom bufferFull)

def noDeadlock : Formula := .ag (.or (.atom producerReady) (.atom consumerReady))

def alwaysDrainable : Formula := .ag (.ef (.atom bufferEmpty))

theorem mem_properties {p : String × Formula} :
    p ∈ properties ↔ p = ("can_fill", canFill) ∨ p = ("no_deadlock", noDeadlock) ∨
      p = ("always_drainable", alwaysDrainable) := by
  simp [properties, canFill, noDeadlock, alwaysDrainable]

/-! ## Labels of states -/

theorem satisfies_atom_graph {label : String} :
    (graph capacity).Satisfies (.atom label) s ↔ s ≤ capacity ∧ label ∈ labels capacity s := by
  rw [satisfies_atom, Array.getD_eq_getD_getElem?]
  by_cases hs : s ≤ capacity
  · rw [labels_graph hs, Option.getD_some, mem_sortedTexts]
    exact (and_iff_right hs).symm
  · have hpast : (graph capacity).labels.size ≤ s := by
      rw [(consistent_graph capacity).labels_size, size_graph]
      omega
    rw [Array.getElem?_eq_none hpast]
    simp [hs]

theorem satisfies_full : (graph capacity).Satisfies (.atom bufferFull) s ↔ s = capacity := by
  rw [satisfies_atom_graph, mem_labels]
  simp [producerReady, consumerReady, bufferFull, bufferEmpty]
  omega

theorem satisfies_bufferEmpty : (graph capacity).Satisfies (.atom bufferEmpty) s ↔ s = 0 := by
  rw [satisfies_atom_graph, mem_labels]
  simp [producerReady, consumerReady, bufferFull, bufferEmpty]
  omega

theorem satisfies_ready :
    (graph capacity).Satisfies (.or (.atom producerReady) (.atom consumerReady)) s ↔
      s ≤ capacity ∧ 0 < capacity := by
  rw [satisfies_or, satisfies_atom_graph, satisfies_atom_graph, mem_labels, mem_labels]
  simp [producerReady, consumerReady, bufferFull, bufferEmpty]
  omega

/-! ## Ways along the chain -/

/-- A path leads no further away than it has steps. -/
theorem near_of_path (h : (graph capacity).FinitePath s n path) :
    path n ≤ s + n ∧ s ≤ path n + n := by
  induction n generalizing s path with
  | zero =>
    rw [h.1]
    exact ⟨Nat.le_refl s, Nat.le_refl s⟩
  | succ n ih =>
    obtain ⟨hst, htail⟩ := h.tail
    have hrest := ih htail
    rw [edge_graph] at hst
    omega

theorem climb (h : s ≤ capacity) :
    (graph capacity).FinitePath s (capacity - s) fun i => s + i := by
  refine ⟨rfl, fun i hi => edge_graph.2 (.inl ⟨?_, rfl⟩)⟩
  show s + i < capacity
  omega

theorem descend (h : s ≤ capacity) : (graph capacity).FinitePath s s fun i => s - i := by
  refine ⟨rfl, fun i hi => edge_graph.2 (.inr ?_)⟩
  show s - (i + 1) < capacity ∧ s - i = s - (i + 1) + 1
  omega

/-- A step for each item that is missing leads to the full buffer, and no fewer do. -/
theorem isLeast_full (h : s ≤ capacity) :
    IsLeast ((graph capacity).distances (fun _ => True)
      ((graph capacity).Satisfies (.atom bufferFull)) s) (capacity - s) := by
  refine ⟨⟨_, climb h, satisfies_full.2 (Nat.add_sub_cancel' h), fun _ _ => trivial⟩, ?_⟩
  rintro n ⟨path, hpath, hfull, -⟩
  have hnear := near_of_path hpath
  rw [satisfies_full] at hfull
  omega

/-- A step for each item that is there leads to the empty buffer, and no fewer do. -/
theorem isLeast_empty (h : s ≤ capacity) :
    IsLeast ((graph capacity).distances (fun _ => True)
      ((graph capacity).Satisfies (.atom bufferEmpty)) s) s := by
  refine ⟨⟨_, descend h, satisfies_bufferEmpty.2 (Nat.sub_self s), fun _ _ => trivial⟩, ?_⟩
  rintro n ⟨path, hpath, hempty, -⟩
  have hnear := near_of_path hpath
  rw [satisfies_bufferEmpty] at hempty
  omega

/-! ## Rounds -/

theorem le_of_lt_size (h : s < (graph capacity).size) : s ≤ capacity := by
  rw [size_graph] at h
  exact Nat.le_of_lt_succ h

theorem satisfies_canFill (h : s < (graph capacity).size) :
    (graph capacity).Satisfies canFill s := by
  obtain ⟨path, hpath, hfull, -⟩ := (isLeast_full (le_of_lt_size h)).1
  exact ⟨_, path, hpath, hfull⟩

theorem satisfies_canDrain (h : s < (graph capacity).size) :
    (graph capacity).Satisfies (.ef (.atom bufferEmpty)) s := by
  obtain ⟨path, hpath, hempty, -⟩ := (isLeast_empty (le_of_lt_size h)).1
  exact ⟨_, path, hpath, hempty⟩

/-- What can be reached is in the chain. -/
theorem lt_size_of_reaches {t : Nat} (hs : s < (graph capacity).size)
    (h : (graph capacity).Reaches s t) : t < (graph capacity).size := by
  induction h with
  | refl => exact hs
  | tail _ hedge _ => exact (consistent_graph capacity).target_lt _ _ hedge

theorem rounds_canFill {r : Nat} (h : (graph capacity).RoundsOf canFill r) : r = capacity := by
  refine IsMaximum.eq h (fun s => capacity - s) ?_ ?_ ?_
  · exact fun s hs _ k hk => hk.unique (isLeast_full (le_of_lt_size hs))
  · exact fun s _ => Nat.sub_le capacity s
  · have hzero : 0 < (graph capacity).size := by simp [size_graph]
    exact ⟨0, hzero, satisfies_canFill hzero, Nat.sub_zero capacity⟩

theorem rounds_canDrain {r : Nat} (h : (graph capacity).RoundsOf (.ef (.atom bufferEmpty)) r) :
    r = capacity := by
  refine IsMaximum.eq h id ?_ ?_ ?_
  · exact fun s hs _ k hk => hk.unique (isLeast_empty (le_of_lt_size hs))
  · exact fun s hs => le_of_lt_size hs
  · have hlast : capacity < (graph capacity).size := by simp [size_graph]
    exact ⟨capacity, hlast, satisfies_canDrain hlast, rfl⟩

/-! ## Verdicts -/

theorem canFill_throughout (capacity : Nat) :
    (graph capacity).HoldsThroughout canFill capacity := by
  have hg := consistent_graph capacity
  obtain ⟨set, traces, hok, htraces⟩ := evaluate_traces hg canFill
  have hset := (denotes_of_evaluate hg hok).eq_fullSet fun s => satisfies_canFill
  -- One fixpoint, so one trace.
  obtain ⟨t, rest, ht, hrest, rfl⟩ := List.forall₂_cons_left_iff.1 htraces
  obtain rfl := List.forall₂_nil_left_iff.1 hrest
  exact ⟨[t], hset ▸ hok, rounds_canFill ht.2⟩

theorem satisfies_alwaysDrainable (h : s < (graph capacity).size) :
    (graph capacity).Satisfies alwaysDrainable s :=
  fun _ hreach => satisfies_canDrain (lt_size_of_reaches h hreach)

theorem alwaysDrainable_throughout (capacity : Nat) :
    (graph capacity).HoldsThroughout alwaysDrainable capacity := by
  have hg := consistent_graph capacity
  obtain ⟨set, traces, hok, htraces⟩ := evaluate_traces hg alwaysDrainable
  have hset := (denotes_of_evaluate hg hok).eq_fullSet fun s => satisfies_alwaysDrainable
  -- The inner fixpoint goes along the chain, and the outer one has nothing left to take away.
  obtain ⟨inner, rest, hinner, hrest, rfl⟩ := List.forall₂_cons_left_iff.1 htraces
  obtain ⟨outer, last, houter, hlast, rfl⟩ := List.forall₂_cons_left_iff.1 hrest
  obtain rfl := List.forall₂_nil_left_iff.1 hlast
  refine ⟨[inner, outer], hset ▸ hok, ?_⟩
  have hzero := rounds_of_ag houter.2 fun s => satisfies_alwaysDrainable
  simp [totalRounds, rounds_canDrain hinner.2, hzero]

theorem satisfies_noDeadlock (hpos : 0 < capacity) (h : s < (graph capacity).size) :
    (graph capacity).Satisfies noDeadlock s := fun _ hreach =>
  satisfies_ready.2 ⟨le_of_lt_size (lt_size_of_reaches h hreach), hpos⟩

/-- A buffer with room has all of the properties, wherever it begins. -/
theorem satisfies_of_mem_properties {p : String × Formula} (hpos : 0 < capacity)
    (hp : p ∈ properties) (h : s < (graph capacity).size) : (graph capacity).Satisfies p.2 s := by
  rcases mem_properties.1 hp with rfl | rfl | rfl
  · exact satisfies_canFill h
  · exact satisfies_noDeadlock hpos h
  · exact satisfies_alwaysDrainable h

theorem noDeadlock_throughout (hpos : 0 < capacity) :
    (graph capacity).HoldsThroughout noDeadlock 0 := by
  have hg := consistent_graph capacity
  obtain ⟨set, traces, hok, htraces⟩ := evaluate_traces hg noDeadlock
  have hset := (denotes_of_evaluate hg hok).eq_fullSet fun s => satisfies_noDeadlock hpos
  obtain ⟨t, rest, ht, hrest, rfl⟩ := List.forall₂_cons_left_iff.1 htraces
  obtain rfl := List.forall₂_nil_left_iff.1 hrest
  exact ⟨[t], hset ▸ hok, rounds_of_ag ht.2 fun s => satisfies_noDeadlock hpos⟩

/-- In a buffer without room, neither side is ever ready. -/
theorem noDeadlock_nowhere : (graph 0).HoldsNowhere noDeadlock := by
  have hg := consistent_graph 0
  obtain ⟨set, traces, hok, -⟩ := evaluate_traces hg noDeadlock
  have hset := (denotes_of_evaluate hg hok).eq_emptySet fun s _ hall =>
    Nat.lt_irrefl 0 (satisfies_ready.1 (hall s .refl)).2
  exact ⟨traces, hset ▸ hok⟩

variable {f : Formula} {rounds : Nat}

/-- The buffer begins empty, so the first state decides. -/
theorem holdsInitially_graph {set : StateSet} {traces : List FixpointTrace}
    (hok : f.evaluate (graph capacity) = .ok (set, traces)) :
    f.holdsInitially (graph capacity) = .ok (set.contains 0) := by
  simp [Formula.holdsInitially, Formula.sat, hok, initial_graph, pure, Except.pure]

theorem holdsInitially_of_throughout (h : (graph capacity).HoldsThroughout f rounds) :
    f.holdsInitially (graph capacity) = .ok true := by
  obtain ⟨traces, hok, -⟩ := h
  have hfirst : (0 : Nat) ∈ (graph capacity).fullSet := by simp [fullSet, size_graph]
  rw [holdsInitially_graph hok, StateSet.contains_iff.2 hfirst]

theorem holdsInitially_of_nowhere (h : (graph capacity).HoldsNowhere f) :
    f.holdsInitially (graph capacity) = .ok false := by
  obtain ⟨traces, hok⟩ := h
  rw [holdsInitially_graph hok, emptySet,
    StateSet.contains_eq_false_iff.2 StateSet.not_mem_empty]

/-- The graph of a buffer of any capacity is a chain with edges in both directions. That it can fill
and that it can always be drained holds at every state, in as many rounds as the chain has edges;
that nothing is stuck holds at every state without any round, except for a buffer without room, where
it holds nowhere. So the buffer starts with all of the properties, but for that one. This is about the
graph itself: whether there is room for it is another matter (`allocate_eq_ok`). -/
theorem properties_graph (n : Nat) :
    (graph n).size = n + 1 ∧ (graph n).edgeCount = 2 * n ∧
      properties = [("can_fill", canFill), ("no_deadlock", noDeadlock),
        ("always_drainable", alwaysDrainable)] ∧
      (graph n).HoldsThroughout canFill n ∧ (graph n).HoldsThroughout alwaysDrainable n ∧
      (1 ≤ n → (graph n).HoldsThroughout noDeadlock 0) ∧
      (n = 0 → (graph n).HoldsNowhere noDeadlock) ∧
      ∀ p ∈ properties,
        p.2.holdsInitially (graph n) = .ok (decide (p.1 ≠ "no_deadlock" ∨ 1 ≤ n)) := by
  refine ⟨size_graph n, edgeCount_graph n, rfl, canFill_throughout n, alwaysDrainable_throughout n,
    noDeadlock_throughout, fun hzero => hzero ▸ noDeadlock_nowhere, ?_⟩
  intro p hp
  rcases mem_properties.1 hp with rfl | rfl | rfl
  · exact holdsInitially_of_throughout (canFill_throughout n)
  · rcases Nat.eq_zero_or_pos n with rfl | hpos
    · exact holdsInitially_of_nowhere noDeadlock_nowhere
    · rw [decide_eq_true (.inr hpos)]
      exact holdsInitially_of_throughout (noDeadlock_throughout hpos)
  · exact holdsInitially_of_throughout (alwaysDrainable_throughout n)

end BoundedBuffer

end ActorLogic
