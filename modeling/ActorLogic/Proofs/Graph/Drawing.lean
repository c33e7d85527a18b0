import ActorLogic.Proofs.Graph.Facts
import ActorLogic.Proofs.Repetition
/-!
# Graphs drawn from lists

What becomes of a graph to which a list of new states, then a list of new edges, then a list of
initial states is added. The tables can be read off the lists: the states stand behind those that are
there, the successors of a state are the targets of its edges and its predecessors the sources, in the
order of the list. An edge or an initial state that is listed again counts only where it is first.
-/

namespace ActorLogic.Graph

variable {g next : Graph} {states : List StateDescription} {edges : List (StateId × StateId)}
  {name : String} {labels : List String} {s t : Nat}

/-! ## States -/

def addAll (g : Graph) (states : List StateDescription) : Graph :=
  states.foldl (fun g s => (g.addState s.name s.labels).1) g

/-- The states stand behind those of the graph, and nothing else happened. -/
structure Appends (g : Graph) (states : List StateDescription) (next : Graph) : Prop where
  names : next.names.toList = g.names.toList ++ states.map (·.name)
  labels : next.labels.toList = g.labels.toList ++ states.map fun s => sortedTexts s.labels
  succ : ∀ s : Nat, next.succ.getD s [] = g.succ.getD s []
  pred : ∀ s : Nat, next.pred.getD s [] = g.pred.getD s []
  initial : next.initial = g.initial
  edgeCount : next.edgeCount = g.edgeCount

/-- The names are those of no state of the graph, and of one new state each. -/
def NewNames (g : Graph) (states : List StateDescription) : Prop :=
  (∀ s ∈ states, g.stateId? s.name = none) ∧ (states.map (·.name)).Nodup

/-- A graph without states has no names. -/
theorem newNames_empty (h : (states.map (·.name)).Nodup) : empty.NewNames states :=
  ⟨fun s _ => by simp [stateId?, empty], h⟩

theorem addState_of_free (h : g.stateId? name = none) :
    (g.addState name labels).1 =
      { g with
        names := g.names.push name
        index := g.index.insert name g.size
        labels := g.labels.push (sortedTexts labels)
        succ := g.succ.push []
        pred := g.pred.push [] } := by
  unfold addState
  rw [h]

theorem NewNames.tail {first : StateDescription} (h : g.NewNames (first :: states)) :
    (g.addState first.name first.labels).1.NewNames states := by
  obtain ⟨hfresh, hnodup⟩ := h
  rw [List.map_cons, List.nodup_cons] at hnodup
  refine ⟨fun s hs => ?_, hnodup.2⟩
  have hne : first.name ≠ s.name := fun heq => hnodup.1 (heq ▸ List.mem_map_of_mem hs)
  have hold := hfresh s (List.mem_cons_of_mem _ hs)
  rw [addState_of_free (hfresh first List.mem_cons_self)]
  simpa [stateId?, Std.HashMap.getElem?_insert, hne] using hold

theorem appends_addAll (h : g.NewNames states) : g.Appends states (g.addAll states) := by
  induction states generalizing g with
  | nil => exact ⟨by simp [addAll], by simp [addAll], fun _ => rfl, fun _ => rfl, rfl, rfl⟩
  | cons first rest ih =>
    have hrest := ih h.tail
    rw [addState_of_free (h.1 first List.mem_cons_self)] at hrest
    rw [addAll, List.foldl_cons, ← addAll, addState_of_free (h.1 first List.mem_cons_self)]
    exact
      { names := by simpa using hrest.names
        labels := by simpa using hrest.labels
        succ := fun s => (hrest.succ s).trans (getD_push_nil _ s)
        pred := fun s => (hrest.pred s).trans (getD_push_nil _ s)
        initial := hrest.initial
        edgeCount := hrest.edgeCount }

/-- States that are added to the graph without states have no edges yet. -/
theorem Appends.succ_eq_nil (h : empty.Appends states g) : g.succ.getD s [] = [] :=
  (h.succ s).trans (by simp [empty])

theorem Appends.pred_eq_nil (h : empty.Appends states g) : g.pred.getD s [] = [] :=
  (h.pred s).trans (by simp [empty])

theorem Appends.not_edge (h : empty.Appends states g) : ¬ g.Edge s t := by
  rw [Edge, h.succ_eq_nil]
  exact List.not_mem_nil

theorem consistent_addAll (h : g.Consistent) (states : List StateDescription) :
    (g.addAll states).Consistent := by
  induction states generalizing g with
  | nil => exact h
  | cons first rest ih => exact ih (consistent_addState h first.name first.labels)

/-! ## Edges -/

def linkAll (g : Graph) (edges : List (StateId × StateId)) : Graph :=
  edges.foldl (fun g e => g.link e.1 e.2) g

/-- The edges stand behind those of the graph, and nothing else happened. -/
structure Draws (g : Graph) (edges : List (StateId × StateId)) (next : Graph) : Prop where
  names : next.names = g.names
  index : next.index = g.index
  labels : next.labels = g.labels
  succ : ∀ s : Nat, next.succ.getD s [] =
    g.succ.getD s [] ++ (edges.filter fun e => e.1 = s).map (·.2)
  pred : ∀ t : Nat, next.pred.getD t [] =
    g.pred.getD t [] ++ (edges.filter fun e => e.2 = t).map (·.1)
  initial : next.initial = g.initial
  edgeCount : next.edgeCount = g.edgeCount + edges.length

/-- The edges join states of the graph, are not there yet, and are listed once each. -/
structure NewEdges (g : Graph) (edges : List (StateId × StateId)) : Prop where
  inside : ∀ e ∈ edges, e.1 < g.size ∧ e.2 < g.size
  fresh : ∀ e ∈ edges, ¬ g.Edge e.1 e.2
  nodup : edges.Nodup

theorem link_of_fresh (h : ¬ g.Edge s t) :
    g.link s t =
      { g with
        succ := g.succ.modify s (· ++ [t])
        pred := g.pred.modify t (· ++ [s])
        edgeCount := g.edgeCount + 1 } := by
  unfold link
  rw [if_neg]
  simpa [Edge] using h

theorem NewEdges.tail {first : StateId × StateId} (h : g.NewEdges (first :: edges))
    (hg : g.Consistent) : (g.link first.1 first.2).NewEdges edges where
  inside e he := by
    rw [size_link]
    exact h.inside e (List.mem_cons_of_mem _ he)
  fresh e he hedge := by
    rcases (edge_link hg (h.inside first List.mem_cons_self).1).1 hedge with hold | ⟨hs, ht⟩
    · exact h.fresh e (List.mem_cons_of_mem _ he) hold
    · exact (List.nodup_cons.1 h.nodup).1 (Prod.ext hs ht ▸ he)
  nodup := (List.nodup_cons.1 h.nodup).2

theorem draws_linkAll (hg : g.Consistent) (h : g.NewEdges edges) :
    g.Draws edges (g.linkAll edges) := by
  induction edges generalizing g with
  | nil =>
    exact ⟨rfl, rfl, rfl, fun s => (List.append_nil _).symm, fun t => (List.append_nil _).symm, rfl,
      rfl⟩
  | cons first rest ih =>
    obtain ⟨hs, ht⟩ := h.inside first List.mem_cons_self
    have hrest := ih (consistent_link hg hs ht) (h.tail hg)
    rw [link_of_fresh (h.fresh first List.mem_cons_self)] at hrest
    rw [linkAll, List.foldl_cons, ← linkAll, link_of_fresh (h.fresh first List.mem_cons_self)]
    exact
      { names := hrest.names
        index := hrest.index
        labels := hrest.labels
        succ := fun s => by
          rw [hrest.succ, getD_modify_append (hg.succ_size ▸ hs), List.filter_cons]
          by_cases heq : first.1 = s
          · simp [heq]
          · simp [heq, Ne.symm heq]
        pred := fun t => by
          rw [hrest.pred, getD_modify_append (hg.pred_size ▸ ht), List.filter_cons]
          by_cases heq : first.2 = t
          · simp [heq]
          · simp [heq, Ne.symm heq]
        initial := hrest.initial
        edgeCount := by
          rw [hrest.edgeCount, List.length_cons]
          exact Nat.add_right_comm _ 1 _ }

theorem names_linkAll (g : Graph) (edges : List (StateId × StateId)) :
    (g.linkAll edges).names = g.names := by
  induction edges generalizing g with
  | nil => rfl
  | cons first rest ih => exact (ih _).trans names_link

theorem stateId?_linkAll (g : Graph) (edges : List (StateId × StateId)) :
    (g.linkAll edges).stateId? name = g.stateId? name := by
  induction edges generalizing g with
  | nil => rfl
  | cons first rest ih => exact (ih _).trans stateId?_link

theorem size_linkAll (g : Graph) (edges : List (StateId × StateId)) :
    (g.linkAll edges).size = g.size := by
  rw [size, names_linkAll, size]

theorem consistent_linkAll (hg : g.Consistent)
    (h : ∀ e ∈ edges, e.1 < g.size ∧ e.2 < g.size) : (g.linkAll edges).Consistent := by
  induction edges generalizing g with
  | nil => exact hg
  | cons first rest ih =>
    obtain ⟨hs, ht⟩ := h first List.mem_cons_self
    refine ih (consistent_link hg hs ht) fun e he => ?_
    rw [size_link]
    exact h e (List.mem_cons_of_mem _ he)

theorem linkAll_concat (g : Graph) (edges : List (StateId × StateId)) (e : StateId × StateId) :
    g.linkAll (edges ++ [e]) = (g.linkAll edges).link e.1 e.2 := by
  rw [linkAll, linkAll, List.foldl_append, List.foldl_cons, List.foldl_nil]

theorem edge_linkAll (hg : g.Consistent) (h : ∀ e ∈ edges, e.1 < g.size ∧ e.2 < g.size) :
    (g.linkAll edges).Edge s t ↔ g.Edge s t ∨ (s, t) ∈ edges := by
  induction edges using List.reverseRecOn with
  | nil => simp [linkAll]
  | append_singleton edges e ih =>
    have hbefore := fun a ha => h a (List.mem_append_left [e] ha)
    have hlast := (h e List.mem_concat_self).1
    rw [linkAll_concat, edge_link (consistent_linkAll hg hbefore) (by rwa [size_linkAll]),
      ih hbefore, or_assoc, List.mem_append, List.mem_singleton, Prod.ext_iff]

theorem link_of_edge (h : g.Edge s t) : g.link s t = g := by
  unfold link
  rw [if_pos]
  simpa [Edge] using h

/-- Only the first of equal edges is drawn. -/
theorem linkAll_eraseDups (hg : g.Consistent) (h : ∀ e ∈ edges, e.1 < g.size ∧ e.2 < g.size) :
    g.linkAll edges.eraseDups = g.linkAll edges := by
  induction edges using List.reverseRecOn with
  | nil => rfl
  | append_singleton edges e ih =>
    have hbefore := fun a ha => h a (List.mem_append_left [e] ha)
    rw [eraseDups_concat, linkAll_concat]
    split
    · next hin => rw [link_of_edge ((edge_linkAll hg hbefore).2 (.inr hin)), ih hbefore]
    · rw [linkAll_concat, ih hbefore]

/-! ## Initial states -/

def markAll (g : Graph) (states : List StateId) : Graph := states.foldl mark g

theorem markAll_of_fresh {initial : List StateId} (hfresh : ∀ s ∈ initial, s ∉ g.initial)
    (hnodup : initial.Nodup) :
    g.markAll initial = { g with initial := g.initial ++ initial } := by
  induction initial generalizing g with
  | nil => simp [markAll]
  | cons s rest ih =>
    obtain ⟨hnew, hrest⟩ := List.nodup_cons.1 hnodup
    have hmark : g.mark s = { g with initial := g.initial ++ [s] } := by
      unfold mark
      rw [if_neg]
      simpa using hfresh s List.mem_cons_self
    have hlater : ∀ t ∈ rest, t ∉ (g.mark s).initial := by
      intro t ht
      rw [mem_mark, not_or]
      exact ⟨hfresh t (List.mem_cons_of_mem s ht), fun heq => hnew (heq ▸ ht)⟩
    rw [markAll, List.foldl_cons, ← markAll, ih hlater hrest, hmark]
    simp

theorem markAll_concat (g : Graph) (initial : List StateId) (s : StateId) :
    g.markAll (initial ++ [s]) = (g.markAll initial).mark s := by
  rw [markAll, markAll, List.foldl_append, List.foldl_cons, List.foldl_nil]

theorem mem_markAll {initial : List StateId} :
    s ∈ (g.markAll initial).initial ↔ s ∈ g.initial ∨ s ∈ initial := by
  induction initial using List.reverseRecOn with
  | nil => simp [markAll]
  | append_singleton initial t ih =>
    rw [markAll_concat, mem_mark, ih, or_assoc, List.mem_append, List.mem_singleton]

theorem mark_of_mem (h : s ∈ g.initial) : g.mark s = g := by
  unfold mark
  rw [if_pos]
  simpa using h

/-- Only the first of equal states is marked. -/
theorem markAll_eraseDups (g : Graph) (initial : List StateId) :
    g.markAll initial.eraseDups = g.markAll initial := by
  induction initial using List.reverseRecOn with
  | nil => rfl
  | append_singleton initial s ih =>
    rw [eraseDups_concat, markAll_concat]
    split
    · next hin => rw [mark_of_mem (mem_markAll.2 (.inr hin)), ih]
    · rw [markAll_concat, ih]

end ActorLogic.Graph
