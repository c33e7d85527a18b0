import ActorLogic.Ctl.Predecessor
import ActorLogic.Proofs.Graph.Consistency
import ActorLogic.Proofs.StateSet.Iteration
import Mathlib.Data.Set.Basic
/-!
# What the predecessor operators find

`g.back kind target` is the set of states that step back from a target, said of the edges alone. On
a consistent graph both operators find this set: the one that reads the predecessor lists and the
one that reads the successor lists.
-/

namespace ActorLogic.Graph

open Result
open scoped Classical

/-- The states with some successor, or with every successor, in the target. -/
def back (g : Graph) (kind : StepBack) (target : Set Nat) : Set Nat :=
  {s | s < g.size ∧
    match kind with
    | .some => ∃ t, g.Edge s t ∧ t ∈ target
    | .every => ∀ t, g.Edge s t → t ∈ target}

variable {g : Graph} {kind : StepBack} {s t : Nat} {set : StateSet}

theorem lt_of_mem_back {target : Set Nat} (h : s ∈ g.back kind target) : s < g.size := h.1

/-- A larger target is stepped back from by more states. -/
theorem back_mono {small large : Set Nat} (h : small ⊆ large) :
    g.back kind small ⊆ g.back kind large := by
  intro s hs
  refine ⟨hs.1, ?_⟩
  cases kind with
  | some =>
    obtain ⟨t, hst, ht⟩ := hs.2
    exact ⟨t, hst, h ht⟩
  | every => exact fun t hst => h (hs.2 t hst)

/-- A state that steps back from one target but not from another has a successor that only the first
one holds. -/
theorem exists_edge_of_mem_back {one other : Set Nat} (h : s ∈ g.back kind one)
    (hother : s ∉ g.back kind other) : ∃ t, g.Edge s t ∧ t ∈ one ∧ t ∉ other := by
  cases kind with
  | some =>
    obtain ⟨t, hst, ht⟩ := h.2
    exact ⟨t, hst, ht, fun hin => hother ⟨h.1, t, hst, hin⟩⟩
  | every =>
    -- Otherwise all of its successors are in the other target too.
    by_contra hnone
    refine hother ⟨h.1, ?_⟩
    intro t hst
    by_contra hout
    exact hnone ⟨t, hst, h.2 t hst, hout⟩

/-! ## Reading the tables -/

/-- The test on one state answers whether it steps back. -/
theorem stepsInto_ok (h : g.Consistent) (hs : s < g.size) :
    g.stepsInto kind set s = .ok (decide (s ∈ g.back kind set.members)) := by
  rw [stepsInto, successors_ok h hs, ok_map]
  refine congrArg Except.ok (Bool.eq_iff_iff.2 ?_)
  cases kind with
  | some =>
    rw [List.any_eq_true, decide_eq_true_eq]
    constructor
    · rintro ⟨t, hst, ht⟩
      exact ⟨hs, t, hst, by simpa using ht⟩
    · rintro ⟨_, t, hst, ht⟩
      exact ⟨t, hst, by simpa using ht⟩
  | every =>
    rw [List.all_eq_true, decide_eq_true_eq]
    constructor
    · exact fun hall => ⟨hs, fun t hst => by simpa using hall t hst⟩
    · exact fun hback t hst => by simpa using hback.2 t hst

theorem predecessorsOf_ok (h : g.Consistent) {states : List StateId}
    (hs : ∀ s ∈ states, s < g.size) :
    ∃ found, g.predecessorsOf states = .ok found ∧
      ∀ s : Nat, s ∈ found ↔ ∃ t ∈ states, g.Edge s t := by
  have hall : states.mapM g.predecessors = .ok (states.map fun t => g.pred.getD t []) :=
    mapM_ok fun t ht => predecessors_ok h (hs t ht)
  refine ⟨_, by rw [predecessorsOf, hall]; rfl, ?_⟩
  intro s
  rw [List.mem_flatten]
  constructor
  · rintro ⟨_, hl, hs⟩
    obtain ⟨t, ht, rfl⟩ := List.mem_map.1 hl
    exact ⟨t, ht, (h.mem_pred_iff s t).1 hs⟩
  · rintro ⟨t, ht, hst⟩
    exact ⟨_, List.mem_map_of_mem ht, (h.mem_pred_iff s t).2 hst⟩

theorem lt_of_mem_predecessorsOf (h : g.Consistent) {states found : List StateId}
    (hmem : ∀ s : Nat, s ∈ found ↔ ∃ t ∈ states, g.Edge s t) : ∀ s ∈ found, s < g.size := by
  intro s hs
  obtain ⟨t, _, hst⟩ := (hmem s).1 hs
  exact h.source_lt hst

/-! ## The operators -/

theorem mem_states : s ∈ g.states ↔ s < g.size := List.mem_range

/-- A set over the graph is made of the states that pass a test. -/
theorem setOf_filter_ok (p : Nat → Bool) :
    ∃ found, g.setOf (g.states.filter p) = .ok found ∧ found.Packed ∧ found.size = g.size ∧
      ∀ t : Nat, t ∈ found ↔ t < g.size ∧ p t = true := by
  have hlt : ∀ s ∈ g.states.filter p, s < g.size := fun s hs =>
    mem_states.1 (List.mem_of_mem_filter hs)
  obtain ⟨found, hok, hpacked, hsize, hmem⟩ := StateSet.ofList_ok hlt
  refine ⟨found, hok, hpacked, hsize, ?_⟩
  intro t
  rw [hmem, List.mem_filter, mem_states]

/-- The states with some successor in the target. -/
theorem preSome_ok (h : g.Consistent) (hset : set.Packed) (hsize : set.size = g.size) :
    ∃ found, g.preSome set = .ok found ∧ found.Packed ∧ found.size = g.size ∧
      ∀ s : Nat, s ∈ found ↔ s ∈ g.back .some set.members := by
  have hin : ∀ t ∈ set.toList, t < g.size := fun t ht =>
    hsize ▸ StateSet.lt_size_of_mem ((StateSet.mem_toList hset).1 ht)
  obtain ⟨sources, hok, hmem⟩ := predecessorsOf_ok h hin
  obtain ⟨found, hfound, hpacked, hfsize, hfmem⟩ := StateSet.ofList_ok (n := g.size)
    (lt_of_mem_predecessorsOf h hmem)
  refine ⟨found, by rw [preSome, hok, ok_bind, setOf, hfound], hpacked, hfsize, ?_⟩
  intro s
  rw [hfmem, hmem]
  constructor
  · rintro ⟨t, ht, hst⟩
    exact ⟨h.source_lt hst, t, hst, by simpa [hset] using ht⟩
  · rintro ⟨_, t, hst, ht⟩
    exact ⟨t, by simpa [hset] using ht, hst⟩

/-- The states with every successor in the target. -/
theorem preEvery_ok (h : g.Consistent) (set : StateSet) :
    ∃ found, g.preEvery set = .ok found ∧ found.Packed ∧ found.size = g.size ∧
      ∀ s : Nat, s ∈ found ↔ s ∈ g.back .every set.members := by
  have hok : g.states.filterM (g.stepsInto .every set) =
      .ok (g.states.filter fun s => decide (s ∈ g.back .every set.members)) :=
    filterM_ok fun s hs => stepsInto_ok h (mem_states.1 hs)
  obtain ⟨found, hfound, hpacked, hsize, hmem⟩ :=
    setOf_filter_ok (g := g) fun s => decide (s ∈ g.back .every set.members)
  refine ⟨found, by rw [preEvery, hok, ok_bind, hfound], hpacked, hsize, ?_⟩
  intro s
  rw [hmem, decide_eq_true_eq]
  exact and_iff_right_of_imp lt_of_mem_back

/-- The states that carry a label. -/
theorem statesWithLabel_ok (h : g.Consistent) (label : String) :
    ∃ found, g.statesWithLabel label = .ok found ∧ found.Packed ∧ found.size = g.size ∧
      ∀ s : Nat, s ∈ found ↔ s < g.size ∧ label ∈ g.labels.getD s [] := by
  have hok : g.states.filterM (g.hasLabel · label) =
      .ok (g.states.filter fun s => (g.labels.getD s []).contains label) := by
    apply filterM_ok
    intro s hs
    simp [hasLabel, entry, h.labels_size, mem_states.1 hs]
  obtain ⟨found, hfound, hpacked, hsize, hmem⟩ :=
    setOf_filter_ok (g := g) fun s => (g.labels.getD s []).contains label
  refine ⟨found, by rw [statesWithLabel, hok, ok_bind, hfound], hpacked, hsize, ?_⟩
  intro s
  rw [hmem, List.contains_iff_mem]

end ActorLogic.Graph
