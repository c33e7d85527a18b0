import ActorLogic.Proofs.Graph.Drawing
import ActorLogic.Proofs.Text.Sorted
import Mathlib.Data.List.Nodup
/-!
# Graphs written down and read back

A description of a graph that can be built describes a graph again: its names are distinct, its edges
join states and are listed once, and so are its initial states. The graph that is read back has the
same tables, except that it was built source by source, so that its predecessor lists are in ascending
order.
-/

namespace ActorLogic.Graph

open Result

variable {g h next : Graph} {s t : Nat} {name : String}

/-! ## Graphs that can be built, again -/

theorem exists_edits_of_edit {e : Edit} (h : ∃ edits, g = ofEdits edits) (hok : g.edit e = next) :
    ∃ edits, next = ofEdits edits := by
  obtain ⟨edits, rfl⟩ := h
  exact ⟨edits ++ [e], by rw [ofEdits_concat, hok]⟩

theorem exists_edits_addStates {states : List StateDescription} (h : ∃ edits, g = ofEdits edits)
    (hok : GraphDescription.addStates g states = .ok next) : ∃ edits, next = ofEdits edits := by
  induction states generalizing g with
  | nil =>
    cases hok
    exact h
  | cons s rest ih =>
    unfold GraphDescription.addStates at hok
    cases hs : g.stateId? s.name with
    | some taken => simp [hs] at hok
    | none =>
      simp only [hs] at hok
      exact ih (exists_edits_of_edit (e := .addState s.name s.labels) h rfl) hok

/-- Reading a description makes calls, none of which fails, on the graph without states. -/
theorem Built.exists_edits (h : g.Built) : ∃ edits, g = ofEdits edits := by
  rcases h with hedits | ⟨d, hok⟩
  · exact hedits
  · obtain ⟨withStates, hstates, hok⟩ := bind_eq_ok.1 hok
    obtain ⟨withEdges, hedges, hok⟩ := bind_eq_ok.1 hok
    have hbuilt := exists_edits_addStates ⟨[], rfl⟩ hstates
    have hdrawn := foldlM_keeps (P := fun g => ∃ edits, g = ofEdits edits)
      (fun _ e _ h hok => exists_edits_of_edit (e := .addEdgeByName e.1 e.2) h
        (by rw [edit, hok]; rfl)) hbuilt hedges
    exact foldlM_keeps (P := fun g => ∃ edits, g = ofEdits edits)
      (fun _ name _ h hok => exists_edits_of_edit (e := .setInitial name) h
        (by rw [edit, hok]; rfl)) hdrawn hok

theorem Built.wellFormed (h : g.Built) : g.WellFormed := by
  obtain ⟨edits, rfl⟩ := h.exists_edits
  exact (consistent_ofEdits edits).wellFormed (tidy_ofEdits edits)

/-! ## Labels -/

/-- The labels of each state are in order. -/
def Ordered (g : Graph) : Prop := ∀ s : Nat, sortedTexts (g.labels.getD s []) = g.labels.getD s []

theorem Takes.ordered {e : Edit} (h : g.Takes e next) (hg : g.Consistent) (hord : g.Ordered) :
    next.Ordered := by
  intro s
  cases h with
  | addState name labels =>
    cases hname : g.stateId? name with
    | some taken => rw [addState_of_taken hname, hord]
    | none =>
      rw [labels_addState hg hname]
      split
      · exact sortedTexts_sortedTexts labels
      · exact hord s
  | addEdge | addEdgeByName => rw [labels_link, hord]
  | markInitial | setInitial => rw [labels_mark, hord]

theorem ordered_ofEdits (edits : List Edit) : (ofEdits edits).Ordered := by
  induction edits using List.reverseRecOn with
  | nil => exact fun s => by simp [ofEdits, empty, sortedTexts]
  | append_singleton edits e ih =>
    rw [ofEdits_concat]
    cases hr : (ofEdits edits).refusal? e with
    | some r => rwa [edit_of_error (call_of_refusal hr)]
    | none =>
      obtain ⟨next, hok, htake⟩ := call_of_no_refusal hr
      rw [edit_of_ok hok]
      exact htake.ordered (consistent_ofEdits edits) ih

/-! ## Edges -/

/-- The edges grouped by source, each group in the order of the successors. -/
def edgeList (g : Graph) : List (StateId × StateId) :=
  g.states.flatMap fun s => (g.succ.getD s []).map (s, ·)

section Groups

variable {sources : List StateId} {targets : StateId → List StateId}

theorem groups_from (hnodup : sources.Nodup) (s : StateId) :
    ((sources.flatMap fun a => (targets a).map (a, ·)).filter fun e => e.1 = s).map (·.2) =
      if s ∈ sources then targets s else [] := by
  induction sources with
  | nil => rfl
  | cons a rest ih =>
    obtain ⟨hfirst, hrest⟩ := List.nodup_cons.1 hnodup
    rw [List.flatMap_cons, List.filter_append, List.map_append, ih hrest, List.filter_map,
      List.map_map]
    by_cases heq : a = s
    · subst heq
      simp [hfirst, Function.comp_def]
    · simp [heq, Ne.symm heq, Function.comp_def]

/-- The sources of the edges to a state are those that have it among their targets. -/
theorem groups_to (hnodup : ∀ a ∈ sources, (targets a).Nodup) (t : StateId) :
    ((sources.flatMap fun a => (targets a).map (a, ·)).filter fun e => e.2 = t).map (·.1) =
      sources.filter fun a => t ∈ targets a := by
  induction sources with
  | nil => rfl
  | cons a rest ih =>
    have hone : (targets a).filter (· = t) = if t ∈ targets a then [t] else [] := by
      rw [List.filter_eq, (hnodup a List.mem_cons_self).count]
      split <;> rfl
    rw [List.flatMap_cons, List.filter_append, List.map_append,
      ih fun b hb => hnodup b (List.mem_cons_of_mem a hb), List.filter_map, List.map_map,
      List.filter_cons]
    simp only [Function.comp_def, hone]
    by_cases hin : t ∈ targets a <;> simp [hin]

end Groups

theorem mem_edgeList {e : StateId × StateId} (hg : g.Consistent) :
    e ∈ g.edgeList ↔ g.Edge e.1 e.2 := by
  obtain ⟨s, t⟩ := e
  simp only [edgeList, List.mem_flatMap, List.mem_map, Prod.mk.injEq, states, List.mem_range]
  constructor
  · rintro ⟨a, -, b, hb, rfl, rfl⟩
    exact hb
  · intro hst
    exact ⟨s, hg.source_lt hst, t, hst, rfl, rfl⟩

theorem edgeList_from (hg : g.Consistent) (s : Nat) :
    (g.edgeList.filter fun e => e.1 = s).map (·.2) = g.succ.getD s [] := by
  rw [edgeList, states, groups_from List.nodup_range]
  split
  · rfl
  · next hout =>
    have hge : g.succ.size ≤ s := hg.succ_size ▸ Nat.not_lt.1 (mt List.mem_range.2 hout)
    simp [Array.getD, Nat.not_lt.2 hge]

theorem edgeList_to (htidy : g.Tidy) (t : Nat) :
    (g.edgeList.filter fun e => e.2 = t).map (·.1) =
      g.states.filter fun s => t ∈ g.succ.getD s [] :=
  groups_to (fun s _ => htidy.succ_nodup s) t

/-- The sources of the edges to a state, in ascending order, are its predecessors. -/
theorem perm_pred (h : g.WellFormed) (t : Nat) :
    (g.states.filter fun s => t ∈ g.succ.getD s []).Perm (g.pred.getD t []) := by
  refine (List.perm_ext_iff_of_nodup (List.nodup_range.filter _) (h.pred_nodup t)).2 fun s => ?_
  rw [h.mem_pred_iff, List.mem_filter, decide_eq_true_eq, List.mem_range]
  exact and_iff_right_of_imp h.toConsistent.source_lt

theorem nodup_edgeList (h : g.Tidy) : g.edgeList.Nodup := by
  refine List.nodup_flatMap.2 ⟨fun s _ => (h.succ_nodup s).map fun _ _ heq => (Prod.mk.inj heq).2, ?_⟩
  refine List.nodup_range.imp fun {a b} hne e ha hb => ?_
  obtain ⟨_, -, rfl⟩ := List.mem_map.1 ha
  obtain ⟨_, -, heq⟩ := List.mem_map.1 hb
  exact hne (Prod.mk.inj heq).1.symm

/-! ## Reading back -/

theorem map_getD_range {α : Type} (table : Array α) (default : α) :
    ((List.range table.size).map fun s => table.getD s default) = table.toList := by
  apply List.ext_getElem
  · simp
  · intro s _ hs
    rw [Array.length_toList] at hs
    simp [Array.getD, hs]

theorem names_describe (g : Graph) : g.describe.states.map (·.name) = g.names.toList := by
  rw [describe, List.map_map]
  exact map_getD_range g.names ""

theorem edges_describe (g : Graph) :
    g.describe.edges = g.edgeList.map fun e => (g.names.getD e.1 "", g.names.getD e.2 "") := by
  simp only [describe, edgeList, List.map_flatMap, List.map_map, Function.comp_def]

/-- Graphs with the same names find a name under the same number. -/
theorem stateId?_congr (hg : g.Consistent) (hh : h.Consistent) (hnames : h.names = g.names)
    (name : String) : h.stateId? name = g.stateId? name := by
  apply Option.ext
  intro s
  rw [hh.index_iff, hnames, ← hg.index_iff]

theorem addStates_ok {states : List StateDescription} (hnew : g.NewNames states) :
    GraphDescription.addStates g states = .ok (g.addAll states) := by
  induction states generalizing g with
  | nil => rfl
  | cons first rest ih =>
    rw [GraphDescription.addStates, hnew.1 first List.mem_cons_self]
    exact ih hnew.tail

theorem lookup_getD (hg : g.Consistent) (hs : s < g.size) :
    g.lookup (g.names.getD s "") = .ok s := by
  rw [lookup, hg.stateId?_getD hs]

theorem foldlM_addEdgeByName {edges : List (StateId × StateId)} (hg : g.Consistent)
    (hedges : ∀ e ∈ edges, e.1 < g.size ∧ e.2 < g.size) :
    (edges.map fun e => (g.names.getD e.1 "", g.names.getD e.2 "")).foldlM
      (fun g e => g.addEdgeByName e.1 e.2) g = .ok (g.linkAll edges) := by
  -- The names are those of the first graph, while edges are added to later ones.
  generalize hnames : g.names = names
  induction edges generalizing g with
  | nil => rfl
  | cons e rest ih =>
    obtain ⟨hs, ht⟩ := hedges e List.mem_cons_self
    have hlink : g.addEdgeByName (names.getD e.1 "") (names.getD e.2 "") = .ok (g.link e.1 e.2) := by
      rw [addEdgeByName, ← hnames, lookup_getD hg hs, lookup_getD hg ht]
      rfl
    rw [List.map_cons, List.foldlM_cons, hlink, ok_bind]
    refine ih (consistent_link hg hs ht) (fun e he => ?_) (names_link.trans hnames)
    rw [size_link]
    exact hedges e (List.mem_cons_of_mem _ he)

theorem foldlM_setInitial {initial : List StateId} (hg : g.Consistent)
    (hinitial : ∀ s ∈ initial, s < g.size) :
    (initial.map fun s => g.names.getD s "").foldlM
      (fun g name => (g.setInitial name).map (·.1)) g = .ok (g.markAll initial) := by
  generalize hnames : g.names = names
  induction initial generalizing g with
  | nil => rfl
  | cons s rest ih =>
    have hmark : (g.setInitial (names.getD s "")).map (·.1) = .ok (g.mark s) := by
      rw [setInitial, ← hnames, lookup_getD hg (hinitial s List.mem_cons_self)]
      rfl
    rw [List.map_cons, List.foldlM_cons, hmark, ok_bind]
    refine ih (consistent_mark hg) (fun s hs => ?_) (names_mark.trans hnames)
    rw [size, names_mark]
    exact hinitial s (List.mem_cons_of_mem _ hs)

/-! ## The graph that is read back -/

/-- The second graph has the tables of the first one, except that its predecessors are in ascending
order. -/
structure Restores (g h : Graph) : Prop where
  names : h.names = g.names
  stateId? : ∀ name, h.stateId? name = g.stateId? name
  labels : h.labels = g.labels
  succ : h.succ = g.succ
  pred_size : h.pred.size = g.pred.size
  pred_perm : ∀ s : Nat, (h.pred.getD s []).Perm (g.pred.getD s [])
  pred_ascending : ∀ s : Nat, (h.pred.getD s []).Pairwise (· < ·)
  initial : h.initial = g.initial
  edgeCount : h.edgeCount = g.edgeCount

theorem getD_inj {table table' : Array (List StateId)} (hsize : table'.size = table.size)
    (h : ∀ s : Nat, table'.getD s [] = table.getD s []) : table' = table := by
  apply Array.ext hsize
  intro s hs' hs
  simpa [Array.getD, hs', hs] using h s

/-- The second graph has the states of the first one with their labels, and nothing else yet. -/
structure Bare (g k : Graph) : Prop extends k.Consistent where
  names : k.names = g.names
  labels : k.labels = g.labels
  initial : k.initial = []
  succ : ∀ s : Nat, k.succ.getD s [] = []
  pred : ∀ t : Nat, k.pred.getD t [] = []

theorem exists_bare (hg : g.Consistent) (hord : g.Ordered) :
    ∃ k, GraphDescription.addStates .empty g.describe.states = .ok k ∧ g.Bare k := by
  have hnew := newNames_empty (names_describe g ▸ hg.names_nodup)
  have happ := appends_addAll hnew
  refine ⟨_, addStates_ok hnew, consistent_addAll consistent_empty _, ?_, ?_, happ.initial,
    happ.succ, happ.pred⟩
  · apply Array.toList_inj.1
    rw [happ.names, names_describe]
    rfl
  · apply Array.toList_inj.1
    -- The labels of a state are written down in order, so that they are not sorted anew.
    rw [happ.labels, ← map_getD_range g.labels [], hg.labels_size, describe, List.map_map]
    exact List.map_congr_left fun s _ => hord s

namespace Bare

variable {k : Graph}

theorem size_eq (h : g.Bare k) : k.size = g.size := by rw [size, h.names, size]

theorem newEdges (h : g.Bare k) (hg : g.WellFormed) : k.NewEdges g.edgeList where
  inside e he := by
    have hedge := (mem_edgeList hg.toConsistent).1 he
    exact h.size_eq ▸ ⟨hg.toConsistent.source_lt hedge, hg.target_lt _ _ hedge⟩
  fresh e _ hedge := by
    rw [Edge, h.succ] at hedge
    cases hedge
  nodup := nodup_edgeList hg.toTidy

theorem toGraph_ok (h : g.Bare k) (hg : g.WellFormed)
    (hstates : GraphDescription.addStates .empty g.describe.states = .ok k) :
    g.describe.toGraph = .ok ((k.linkAll g.edgeList).markAll g.initial) := by
  have hnew := h.newEdges hg
  have hdrawn := (draws_linkAll h.toConsistent hnew).names
  rw [GraphDescription.toGraph, hstates, ok_bind, edges_describe, ← h.names,
    foldlM_addEdgeByName h.toConsistent hnew.inside, ok_bind, describe, ← h.names, ← hdrawn]
  refine foldlM_setInitial (consistent_linkAll h.toConsistent hnew.inside) fun s hs => ?_
  rw [size_linkAll, h.size_eq]
  exact hg.initial_lt s hs

/-- With the edges of the list and the initial states, a bare graph restores the first one. -/
theorem restores (h : g.Bare k) (hg : g.WellFormed)
    (hwell : ((k.linkAll g.edgeList).markAll g.initial).WellFormed) :
    g.Restores ((k.linkAll g.edgeList).markAll g.initial) := by
  have hnew := h.newEdges hg
  have hdraws := draws_linkAll h.toConsistent hnew
  have hlinked := consistent_linkAll h.toConsistent hnew.inside
  rw [markAll_of_fresh (fun s _ => by simp [hdraws.initial, h.initial]) hg.initial_nodup] at hwell ⊢
  have hnames := hdraws.names.trans h.names
  have hsucc : (k.linkAll g.edgeList).succ = g.succ := by
    refine getD_inj ?_ fun s => ?_
    · rw [hlinked.succ_size, size_linkAll, h.size_eq, hg.succ_size]
    · rw [hdraws.succ, h.succ, List.nil_append, edgeList_from hg.toConsistent]
  have hpred : ∀ t : Nat, (k.linkAll g.edgeList).pred.getD t [] =
      g.states.filter fun s => t ∈ g.succ.getD s [] := by
    intro t
    rw [hdraws.pred, h.pred, List.nil_append, edgeList_to hg.toTidy]
  exact
    { names := hnames
      stateId? := stateId?_congr hg.toConsistent hwell.toConsistent hnames
      labels := hdraws.labels.trans h.labels
      succ := hsucc
      pred_size := by rw [hlinked.pred_size, size_linkAll, h.size_eq, hg.pred_size]
      pred_perm := fun t => (hpred t).symm ▸ perm_pred hg t
      pred_ascending := fun t => (hpred t).symm ▸ List.pairwise_lt_range.filter _
      initial := by rw [hdraws.initial, h.initial, List.nil_append]
      -- Both counts are those of the successor lists.
      edgeCount := hwell.edgeCount_succ.trans (by rw [hsucc, hg.edgeCount_succ]) }

end Bare

/-- The description of a graph that can be built is read back, and what is read restores the
graph. -/
theorem Built.exists_restores (hbuilt : g.Built) :
    ∃ h, g.describe.toGraph = .ok h ∧ h.Built ∧ g.Restores h := by
  obtain ⟨edits, hedits⟩ := hbuilt.exists_edits
  obtain ⟨k, hstates, hbare⟩ :=
    exists_bare hbuilt.consistent (hedits ▸ ordered_ofEdits edits)
  have hok := hbare.toGraph_ok hbuilt.wellFormed hstates
  have hread : ((k.linkAll g.edgeList).markAll g.initial).Built := .inr ⟨_, hok⟩
  exact ⟨_, hok, hread, hbare.restores hbuilt.wellFormed hread.wellFormed⟩

/-- A description does not tell the predecessors. -/
theorem Restores.describe_eq (h : g.Restores next) : next.describe = g.describe := by
  simp only [describe, states, size, h.names, h.labels, h.succ, h.initial]

end ActorLogic.Graph
