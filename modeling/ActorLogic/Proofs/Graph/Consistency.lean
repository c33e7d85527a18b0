import ActorLogic.Graph.Description
import ActorLogic.Proofs.Index
import ActorLogic.Proofs.Result
/-!
# Consistency of graphs

The tables of a graph belong together: the index names exactly the states, there is one entry for
each state in every table, and the predecessor lists are the successor lists turned round. Every
call that builds a graph keeps this, so it holds of all graphs that can be built or read from a
description.
-/

namespace ActorLogic.Graph

open Result

/-! ## Graphs that can be built -/

/-- A call that builds a graph. -/
inductive Edit where
  | addState (name : String) (labels : List String)
  | addEdge (source target : StateId)
  | addEdgeByName (source target : String)
  | markInitial (s : StateId)
  | setInitial (name : String)
  deriving DecidableEq, Repr

/-- The graph after a call. A call that fails leaves it as it was. -/
def edit (g : Graph) : Edit → Graph
  | .addState name labels => (g.addState name labels).1
  | .addEdge s t => (g.addEdge s t).toOption.getD g
  | .addEdgeByName source target => (g.addEdgeByName source target).toOption.getD g
  | .markInitial s => (g.markInitial s).toOption.getD g
  | .setInitial name => ((g.setInitial name).map (·.1)).toOption.getD g

/-- The graph after a sequence of calls on the graph without states. -/
def ofEdits (edits : List Edit) : Graph := edits.foldl edit .empty

/-- The graph is built by calls or read from a description. -/
def Built (g : Graph) : Prop :=
  (∃ edits, g = ofEdits edits) ∨ ∃ d : GraphDescription, d.toGraph = .ok g

/-! ## Consistent tables -/

/-- There is an edge from a state to another. -/
def Edge (g : Graph) (s t : Nat) : Prop := t ∈ g.succ.getD s []

structure Consistent (g : Graph) : Prop where
  /-- The index gives the number of every name, and nothing else. -/
  index_iff : ∀ (name : String) (s : Nat), g.stateId? name = some s ↔ g.names[s]? = some name
  labels_size : g.labels.size = g.size
  succ_size : g.succ.size = g.size
  pred_size : g.pred.size = g.size
  target_lt : ∀ s t : Nat, g.Edge s t → t < g.size
  mem_pred_iff : ∀ s t : Nat, s ∈ g.pred.getD t [] ↔ g.Edge s t

variable {g next : Graph} {s t : Nat} {name : String}

namespace Consistent

theorem lt_of_index (h : g.Consistent) (hs : g.stateId? name = some s) : s < g.size :=
  (Array.getElem?_eq_some_iff.1 ((h.index_iff name s).1 hs)).1

theorem source_lt (h : g.Consistent) (hst : g.Edge s t) : s < g.size := by
  apply Nat.lt_of_not_le
  intro hge
  simp [Edge, h.succ_size, hge] at hst

end Consistent

/-! ## Reading the tables -/

theorem successors_ok (h : g.Consistent) (hs : s < g.size) :
    g.successors s = .ok (g.succ.getD s []) := by
  simp [successors, entry, h.succ_size, hs]

theorem predecessors_ok (h : g.Consistent) (hs : s < g.size) :
    g.predecessors s = .ok (g.pred.getD s []) := by
  simp [predecessors, entry, h.pred_size, hs]

theorem successors_eq_ok (h : g.Consistent) {next : List StateId} :
    g.successors s = .ok next ↔ s < g.size ∧ g.succ.getD s [] = next := by
  by_cases hs : s < g.size
  · simp [successors_ok h hs, hs]
  · simp [successors, entry, h.succ_size, hs]

theorem nameOf_eq_ok : g.nameOf s = .ok name ↔ g.names[s]? = some name := by
  unfold nameOf entry
  cases g.names[s]? <;> simp

theorem nameOf_ok (hs : s < g.size) : g.nameOf s = .ok (g.names.getD s "") := by
  rw [nameOf_eq_ok, Array.getD_eq_getD_getElem?, Array.getElem?_eq_getElem hs]
  rfl

theorem mapM_nameOf {states : List StateId} (h : ∀ s ∈ states, s < g.size) :
    states.mapM g.nameOf = .ok (states.map fun s => g.names.getD s "") :=
  mapM_ok fun s hs => nameOf_ok (h s hs)

theorem Consistent.stateId?_getD (h : g.Consistent) (hs : s < g.size) :
    g.stateId? (g.names.getD s "") = some s := by
  rw [h.index_iff, Array.getD_eq_getD_getElem?, Array.getElem?_eq_getElem hs]
  rfl

/-- Different states have different names. -/
theorem Consistent.getD_names_inj (h : g.Consistent) (hs : s < g.size) (ht : t < g.size)
    (heq : g.names.getD s "" = g.names.getD t "") : s = t := by
  have hid := h.stateId?_getD hs
  rw [heq, h.stateId?_getD ht] at hid
  exact (Option.some.inj hid).symm

theorem Consistent.stateId?_iff (h : g.Consistent) :
    g.stateId? name = some s ↔ g.nameOf s = .ok name := by
  rw [h.index_iff, nameOf_eq_ok]

theorem Consistent.stateId?_eq_none_iff (h : g.Consistent) :
    g.stateId? name = none ↔ name ∉ g.names.toList := by
  rw [Option.eq_none_iff_forall_ne_some, Array.mem_toList_iff, Array.mem_iff_getElem?, not_exists]
  exact forall_congr' fun s => not_congr (h.index_iff name s)

theorem consistent_empty : empty.Consistent where
  index_iff name s := by simp [stateId?, empty]
  labels_size := rfl
  succ_size := rfl
  pred_size := rfl
  target_lt s t h := by simp [Edge, empty] at h
  mem_pred_iff s t := by simp [Edge, empty]

/-! ## Adding states -/

/-- A table that grows by an empty list reads the same everywhere. -/
theorem getD_push_nil (table : Array (List StateId)) (s : Nat) :
    (table.push []).getD s [] = table.getD s [] := by
  simp only [Array.getD_eq_getD_getElem?, Array.getElem?_push]
  split
  · next heq => simp [heq]
  · rfl

theorem consistent_addState (h : g.Consistent) (name : String) (labels : List String) :
    (g.addState name labels).1.Consistent := by
  unfold addState
  cases hname : g.stateId? name with
  | some s => exact h
  | none =>
    refine
      { index_iff := fun other s => ?_
        labels_size := by simp [size, h.labels_size]
        succ_size := by simp [size, h.succ_size]
        pred_size := by simp [size, h.pred_size]
        target_lt := fun s t hst => ?_
        mem_pred_iff := fun s t => ?_ }
    · -- The new name is free, and its number is that of the place behind the last one.
      have hindex : IsIndex g.index g.names id := fun a n => by
        rw [← stateId?, h.index_iff]
        simp
      have hpush := hindex.push hname other s
      simp only [id, exists_eq_right] at hpush
      exact hpush
    · simp only [Edge, getD_push_nil] at hst
      have := h.target_lt s t hst
      simp only [size, Array.size_push]
      exact Nat.lt_succ_of_lt this
    · simp only [Edge, getD_push_nil]
      exact h.mem_pred_iff s t

/-! ## Drawing edges -/

/-- Appending to the list of one state leaves the lists of the others alone. -/
theorem mem_getD_modify {table : Array (List StateId)} {a b i j : Nat} (hi : i < table.size) :
    b ∈ (table.modify i (· ++ [j])).getD a [] ↔ b ∈ table.getD a [] ∨ (a = i ∧ b = j) := by
  simp only [Array.getD_eq_getD_getElem?, Array.getElem?_modify]
  by_cases heq : i = a
  · subst heq
    simp [hi]
  · simp [heq, Ne.symm heq]

@[simp] theorem size_link : (g.link s t).size = g.size := by
  unfold link
  split <;> rfl

theorem edge_link (h : g.Consistent) (hs : s < g.size) {a b : Nat} :
    (g.link s t).Edge a b ↔ g.Edge a b ∨ (a = s ∧ b = t) := by
  unfold link
  split
  · next hin =>
    -- The edge was there before.
    refine (or_iff_left_of_imp ?_).symm
    rintro ⟨rfl, rfl⟩
    simpa [Edge] using hin
  · exact mem_getD_modify (h.succ_size ▸ hs)

theorem consistent_link (h : g.Consistent) (hs : s < g.size) (ht : t < g.size) :
    (g.link s t).Consistent where
  index_iff name a := by
    unfold link
    split <;> exact h.index_iff name a
  labels_size := by
    unfold link
    split <;> exact h.labels_size
  succ_size := by
    unfold link
    split
    · exact h.succ_size
    · simpa [size] using h.succ_size
  pred_size := by
    unfold link
    split
    · exact h.pred_size
    · simpa [size] using h.pred_size
  target_lt a b hab := by
    rw [size_link]
    rcases (edge_link h hs).1 hab with hold | ⟨_, rfl⟩
    · exact h.target_lt a b hold
    · exact ht
  mem_pred_iff a b := by
    rw [edge_link h hs, ← h.mem_pred_iff]
    unfold link
    split
    · next hin =>
      refine (or_iff_left_of_imp ?_).symm
      rintro ⟨rfl, rfl⟩
      rw [h.mem_pred_iff]
      simpa [Edge] using hin
    · refine (mem_getD_modify (h.pred_size ▸ ht)).trans (or_congr_right ?_)
      exact and_comm

theorem consistent_mark (h : g.Consistent) : (g.mark s).Consistent := by
  unfold mark
  split
  · exact h
  · exact ⟨h.index_iff, h.labels_size, h.succ_size, h.pred_size, h.target_lt, h.mem_pred_iff⟩

/-! ## All calls -/

/-- What a look-up finds is a state of the graph. -/
theorem lookup_lt (h : g.Consistent) (hs : g.lookup name = .ok s) : s < g.size := by
  unfold lookup at hs
  cases hname : g.stateId? name with
  | none => simp [hname] at hs
  | some s' =>
    obtain rfl : s' = s := by simpa [hname] using hs
    exact h.lt_of_index hname

theorem lt_of_check (hs : g.check s = .ok ()) : s < g.size := by
  unfold check at hs
  split at hs
  · assumption
  · cases hs

theorem consistent_addEdge (h : g.Consistent) (hok : g.addEdge s t = .ok next) :
    next.Consistent := by
  obtain ⟨_, hs, hok⟩ := bind_eq_ok.1 hok
  obtain ⟨_, ht, hok⟩ := bind_eq_ok.1 hok
  cases hok
  exact consistent_link h (lt_of_check hs) (lt_of_check ht)

theorem consistent_addEdgeByName {source target : String} (h : g.Consistent)
    (hok : g.addEdgeByName source target = .ok next) : next.Consistent := by
  obtain ⟨s, hs, hok⟩ := bind_eq_ok.1 hok
  obtain ⟨t, ht, hok⟩ := bind_eq_ok.1 hok
  cases hok
  exact consistent_link h (lookup_lt h hs) (lookup_lt h ht)

theorem consistent_markInitial (h : g.Consistent) (hok : g.markInitial s = .ok next) :
    next.Consistent := by
  obtain ⟨_, _, hok⟩ := bind_eq_ok.1 hok
  cases hok
  exact consistent_mark h

theorem consistent_setInitial (h : g.Consistent)
    (hok : (g.setInitial name).map (·.1) = .ok next) : next.Consistent := by
  obtain ⟨_, hset, rfl⟩ := map_eq_ok.1 hok
  obtain ⟨_, _, hset⟩ := bind_eq_ok.1 hset
  cases hset
  exact consistent_mark h

/-- A call that fails changes nothing, so it is enough to look at those that succeed. -/
theorem consistent_getD {ε : Type} {result : Except ε Graph} (h : g.Consistent)
    (hok : ∀ next, result = .ok next → next.Consistent) : (result.toOption.getD g).Consistent := by
  cases result with
  | error e => exact h
  | ok next => exact hok next rfl

theorem consistent_edit (h : g.Consistent) (e : Edit) : (g.edit e).Consistent := by
  cases e with
  | addState name labels => exact consistent_addState h name labels
  | addEdge s t => exact consistent_getD h fun _ => consistent_addEdge h
  | addEdgeByName source target => exact consistent_getD h fun _ => consistent_addEdgeByName h
  | markInitial s => exact consistent_getD h fun _ => consistent_markInitial h
  | setInitial name => exact consistent_getD h fun _ => consistent_setInitial h

theorem consistent_ofEdits (edits : List Edit) : (ofEdits edits).Consistent := by
  -- Calls are made one after the other, so that the graph they start from must be any.
  suffices ∀ g : Graph, g.Consistent → (edits.foldl edit g).Consistent from
    this empty consistent_empty
  induction edits with
  | nil => exact fun g h => h
  | cons e rest ih => exact fun g h => ih (g.edit e) (consistent_edit h e)

/-! ## Descriptions -/

theorem consistent_addStates {states : List StateDescription} (h : g.Consistent)
    (hok : GraphDescription.addStates g states = .ok next) : next.Consistent := by
  induction states generalizing g with
  | nil =>
    cases hok
    exact h
  | cons s rest ih =>
    unfold GraphDescription.addStates at hok
    cases hs : g.stateId? s.name with
    | some taken => simp [hs] at hok
    | none =>
      simp only [hs] at hok
      exact ih (consistent_addState h s.name s.labels) hok

theorem consistent_toGraph {d : GraphDescription} (hok : d.toGraph = .ok g) : g.Consistent := by
  obtain ⟨withStates, hstates, hok⟩ := bind_eq_ok.1 hok
  obtain ⟨withEdges, hedges, hok⟩ := bind_eq_ok.1 hok
  have h := consistent_addStates consistent_empty hstates
  have h' := foldlM_keeps (fun _ _ _ => consistent_addEdgeByName) h hedges
  exact foldlM_keeps (fun _ _ _ => consistent_setInitial) h' hok

theorem Built.consistent (h : g.Built) : g.Consistent := by
  rcases h with ⟨edits, rfl⟩ | ⟨d, hok⟩
  · exact consistent_ofEdits edits
  · exact consistent_toGraph hok

end ActorLogic.Graph
