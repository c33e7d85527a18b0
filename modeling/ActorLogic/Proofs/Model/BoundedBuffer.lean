import ActorLogic.Model.BoundedBuffer
import ActorLogic.Proofs.Ctl.Predecessor
import ActorLogic.Proofs.Graph.Drawing
import ActorLogic.Proofs.Memory
import ActorLogic.Proofs.Text.Sorted
import Std.Data.String.ToNat
/-!
# The graph of the bounded buffer

What can be read off the graph: the state of each number of items that the buffer may hold is found
under its name and has that number, it carries the labels of a buffer that holds so many, and its
successors are the states with one item less and one item more, as far as there are such.
-/

namespace ActorLogic.BoundedBuffer

open ActorLogic.Graph Result

variable {capacity size : Nat}

/-! ## How the graph is drawn -/

/-- The described states, one for each number of items. -/
def shelves (capacity : Nat) : List StateDescription :=
  (List.range (capacity + 1)).map fun size => ⟨stateName size, labels capacity size⟩

/-- The edges, in the order in which they are drawn. -/
def moves (capacity : Nat) : List (Nat × Nat) :=
  (List.range capacity).flatMap fun size => [(size, size + 1), (size + 1, size)]

theorem stateName_inj {a b : Nat} (h : stateName a = stateName b) : a = b := by
  rw [stateName, stateName, String.append_right_inj] at h
  exact Nat.repr_injective h

theorem newNames_shelves (capacity : Nat) : Graph.empty.NewNames (shelves capacity) := by
  apply newNames_empty
  rw [shelves, List.map_map]
  exact List.nodup_range.map fun a b h => stateName_inj h

theorem mem_moves {s t : Nat} :
    (s, t) ∈ moves capacity ↔ s < capacity ∧ t = s + 1 ∨ t < capacity ∧ s = t + 1 := by
  simp only [moves, List.mem_flatMap, List.mem_range, List.mem_cons, Prod.mk.injEq,
    List.not_mem_nil, or_false]
  constructor
  · rintro ⟨size, hsize, ⟨rfl, rfl⟩ | ⟨rfl, rfl⟩⟩
    · exact .inl ⟨hsize, rfl⟩
    · exact .inr ⟨hsize, rfl⟩
  · rintro (⟨hs, rfl⟩ | ⟨ht, rfl⟩)
    · exact ⟨s, hs, .inl ⟨rfl, rfl⟩⟩
    · exact ⟨t, ht, .inr ⟨rfl, rfl⟩⟩

/-- The states with one item less and with one item more, as far as there are such. -/
def targets (capacity size : Nat) : List Nat :=
  (if 0 < size ∧ size ≤ capacity then [size - 1] else []) ++
    if size < capacity then [size + 1] else []

theorem mem_targets {t : Nat} :
    t ∈ targets capacity size ↔
      0 < size ∧ size ≤ capacity ∧ t = size - 1 ∨ size < capacity ∧ t = size + 1 := by
  simp only [targets, List.mem_append, List.mem_ite_nil_right, List.mem_singleton, and_assoc]

theorem moves_succ (capacity : Nat) :
    moves (capacity + 1) = moves capacity ++ [(capacity, capacity + 1), (capacity + 1, capacity)] := by
  simp [moves, List.range_succ]

theorem length_moves (capacity : Nat) : (moves capacity).length = 2 * capacity := by
  induction capacity with
  | zero => rfl
  | succ capacity ih =>
    rw [moves_succ, List.length_append, ih]
    rfl

theorem nodup_moves (capacity : Nat) : (moves capacity).Nodup := by
  induction capacity with
  | zero => exact List.nodup_nil
  | succ capacity ih =>
    rw [moves_succ]
    refine ih.append (by simp) ?_
    rintro ⟨s, t⟩ hold hnew
    rw [mem_moves] at hold
    simp only [List.mem_cons, Prod.mk.injEq, List.not_mem_nil, or_false] at hnew
    omega

theorem moves_from (capacity size : Nat) :
    ((moves capacity).filter fun e => e.1 = size).map (·.2) = targets capacity size := by
  induction capacity with
  | zero =>
    have hnone : ¬ (0 < size ∧ size ≤ 0) := by omega
    rw [targets, if_neg hnone, if_neg (Nat.not_lt_zero size)]
    rfl
  | succ capacity ih =>
    rw [moves_succ, List.filter_append, List.map_append, ih, targets, targets]
    -- The last pair of states gets its edges last.
    rcases Nat.lt_trichotomy size capacity with hlt | rfl | hgt
    · simp [hlt, Nat.ne_of_gt hlt, Nat.le_of_lt hlt, Nat.lt_succ_of_lt hlt,
        Nat.le_succ_of_le (Nat.le_of_lt hlt)]
      omega
    · simp
    · rcases Nat.eq_or_lt_of_le hgt with rfl | hfar
      · simp [Nat.not_lt.2 (Nat.le_succ capacity)]
      · simp [Nat.ne_of_lt hgt, Nat.ne_of_lt hfar, Nat.not_le.2 hgt, Nat.not_le.2 hfar,
          Nat.not_lt.2 (Nat.le_of_lt hgt), Nat.not_lt.2 (Nat.le_of_lt hfar)]

/-- The graph with its states and without edges. -/
def bare (capacity : Nat) : Graph := Graph.empty.addAll (shelves capacity)

theorem appends_bare (capacity : Nat) : Graph.empty.Appends (shelves capacity) (bare capacity) :=
  appends_addAll (newNames_shelves capacity)

theorem size_bare (capacity : Nat) : (bare capacity).size = capacity + 1 := by
  rw [Graph.size, ← Array.length_toList, (appends_bare capacity).names]
  simp [Graph.empty, shelves]

theorem newEdges_moves (capacity : Nat) : (bare capacity).NewEdges (moves capacity) where
  inside := by
    rintro ⟨s, t⟩ hmove
    rw [size_bare]
    obtain ⟨hs, rfl⟩ | ⟨ht, rfl⟩ := mem_moves.1 hmove
    · exact ⟨Nat.lt_succ_of_lt hs, Nat.succ_lt_succ hs⟩
    · exact ⟨Nat.succ_lt_succ ht, Nat.lt_succ_of_lt ht⟩
  fresh _ _ := (appends_bare capacity).not_edge
  nodup := nodup_moves capacity

theorem consistent_bare (capacity : Nat) : (bare capacity).Consistent :=
  consistent_addAll consistent_empty _

theorem draws_moves (capacity : Nat) :
    (bare capacity).Draws (moves capacity) ((bare capacity).linkAll (moves capacity)) :=
  draws_linkAll (consistent_bare capacity) (newEdges_moves capacity)

theorem graph_eq (capacity : Nat) :
    graph capacity =
      { (bare capacity).linkAll (moves capacity) with initial := [0] } := by
  have hdrawn : graph capacity = ((bare capacity).linkAll (moves capacity)).mark 0 := by
    rw [graph, addStates, bare, addAll, shelves, List.foldl_map, linkAll, moves, List.foldl_flatMap]
    rfl
  have hinitial : ((bare capacity).linkAll (moves capacity)).initial = [] := by
    rw [(draws_moves capacity).initial, (appends_bare capacity).initial]
    rfl
  rw [hdrawn, mark, hinitial]
  rfl

/-! ## What is true of a buffer -/

theorem mem_labels {label : String} :
    label ∈ labels capacity size ↔
      size < capacity ∧ label = producerReady ∨ 0 < size ∧ label = consumerReady ∨
        size = capacity ∧ label = bufferFull ∨ size = 0 ∧ label = bufferEmpty := by
  simp only [labels, List.mem_append, List.mem_ite_nil_right, List.mem_singleton, or_assoc]

/-! ## What the graph tells -/

theorem consistent_graph (capacity : Nat) : (graph capacity).Consistent := by
  rw [graph_eq]
  exact { consistent_linkAll (consistent_bare capacity) (newEdges_moves capacity).inside with }

theorem names_graph (capacity : Nat) :
    (graph capacity).names.toList = (List.range (capacity + 1)).map stateName := by
  rw [graph_eq, (draws_moves capacity).names, (appends_bare capacity).names, shelves, List.map_map]
  rfl

theorem size_graph (capacity : Nat) : (graph capacity).size = capacity + 1 := by
  rw [Graph.size, ← Array.length_toList, names_graph, List.length_map, List.length_range]

/-- The state of a number of items has that number. -/
theorem stateId?_graph (h : size ≤ capacity) :
    (graph capacity).stateId? (stateName size) = some size := by
  rw [(consistent_graph capacity).index_iff, ← Array.getElem?_toList, names_graph, List.getElem?_map,
    List.getElem?_range (Nat.lt_succ_of_le h)]
  rfl

theorem labels_graph (h : size ≤ capacity) :
    (graph capacity).labels[size]? = some (sortedTexts (labels capacity size)) := by
  rw [graph_eq, (draws_moves capacity).labels, ← Array.getElem?_toList,
    (appends_bare capacity).labels, shelves]
  simp [Graph.empty, Nat.lt_succ_of_le h]

theorem hasLabel_graph (h : size ≤ capacity) (label : String) :
    (graph capacity).hasLabel size label = .ok (decide (label ∈ labels capacity size)) := by
  rw [hasLabel, entry, labels_graph h, ok_map]
  refine congrArg _ (Bool.eq_iff_iff.2 ?_)
  rw [List.contains_iff_mem, mem_sortedTexts, decide_eq_true_eq]

section Labels

variable (h : size ≤ capacity)
include h

theorem hasLabel_of_iff {label : String} {b : Bool}
    (hiff : label ∈ labels capacity size ↔ b = true) :
    (graph capacity).hasLabel size label = .ok b := by
  rw [hasLabel_graph h]
  exact congrArg _ (Bool.eq_iff_iff.2 (decide_eq_true_iff.trans hiff))

theorem hasLabel_producerReady :
    (graph capacity).hasLabel size producerReady = .ok (decide (size < capacity)) :=
  hasLabel_of_iff h (by simp [mem_labels, producerReady, consumerReady, bufferFull, bufferEmpty])

theorem hasLabel_consumerReady :
    (graph capacity).hasLabel size consumerReady = .ok (decide (0 < size)) :=
  hasLabel_of_iff h (by simp [mem_labels, producerReady, consumerReady, bufferFull, bufferEmpty])

theorem hasLabel_bufferFull :
    (graph capacity).hasLabel size bufferFull = .ok !decide (size < capacity) :=
  hasLabel_of_iff h (by
    simp [mem_labels, producerReady, consumerReady, bufferFull, bufferEmpty]
    omega)

theorem hasLabel_bufferEmpty :
    (graph capacity).hasLabel size bufferEmpty = .ok !decide (0 < size) :=
  hasLabel_of_iff h (by simp [mem_labels, producerReady, consumerReady, bufferFull, bufferEmpty])

end Labels

theorem succ_graph (capacity size : Nat) :
    (graph capacity).succ.getD size [] = targets capacity size := by
  rw [graph_eq]
  refine ((draws_moves capacity).succ size).trans ?_
  rw [(appends_bare capacity).succ]
  exact moves_from capacity size

theorem successors_graph (h : size ≤ capacity) :
    (graph capacity).successors size = .ok (targets capacity size) := by
  have hsize : size < (graph capacity).size := by
    rw [size_graph]
    exact Nat.lt_succ_of_le h
  rw [successors_ok (consistent_graph capacity) hsize, succ_graph]

/-- Edges join neighbours, in both directions. -/
theorem edge_graph {s t : Nat} :
    (graph capacity).Edge s t ↔ s < capacity ∧ t = s + 1 ∨ t < capacity ∧ s = t + 1 := by
  rw [Edge, succ_graph, mem_targets]
  omega

theorem edgeCount_graph (capacity : Nat) : (graph capacity).edgeCount = 2 * capacity := by
  rw [graph_eq]
  refine (draws_moves capacity).edgeCount.trans ?_
  rw [(appends_bare capacity).edgeCount, length_moves]
  exact Nat.zero_add _

theorem initial_graph (capacity : Nat) : (graph capacity).initial = [0] := by
  rw [graph_eq]

/-! ## Room for the states -/

variable {g : Graph} {f : MemoryFault}

/-- A block has room for fewer than `2 ^ 60` states. -/
theorem fits_iff : (capacity + 1) * stateBytes < 1 <<< 63 ↔ capacity + 1 < 1 <<< 60 := by
  have hblock : 1 <<< 63 = (1 <<< 60) * stateBytes := rfl
  rw [hblock]
  exact Nat.mul_lt_mul_right (by decide)

theorem allocate_eq_ok :
    allocate capacity = .ok g ↔ capacity + 1 < 1 <<< 60 ∧ g = graph capacity := by
  rw [← fits_iff]
  exact Memory.map_reserve_eq_ok

theorem allocate_eq_error :
    allocate capacity = .error f ↔ 1 <<< 60 ≤ capacity + 1 ∧ f = .capacityOverflow := by
  rw [← Nat.not_lt, ← fits_iff, Nat.not_lt]
  exact Memory.map_reserve_eq_error

end ActorLogic.BoundedBuffer
