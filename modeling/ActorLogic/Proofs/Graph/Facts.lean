import ActorLogic.Proofs.Ctl.Atoms
import ActorLogic.Proofs.Graph.WellFormed
import Mathlib.Logic.Relation
/-!
# Graphs told by names

The numbers of the states depend on the order in which these were added, but no fact about a graph
that is told by names does. After any calls a graph tells exactly what the successful ones stated: a
state is new with its labels, an edge leads from a name to a name, a name is initial.
-/

namespace ActorLogic.Graph

/-- What can be said of a graph without the numbers of its states. -/
inductive Fact where
  | state (name : String)
  | label (name label : String)
  | edge (source target : String)
  | initial (name : String)
  deriving DecidableEq, Repr

/-- The fact is true of the graph. -/
def Tells (g : Graph) : Fact → Prop
  | .state name => ∃ s : Nat, g.stateId? name = some s
  | .label name label => ∃ s : Nat, g.stateId? name = some s ∧ label ∈ g.labels.getD s []
  | .edge source target =>
    ∃ s t : Nat, g.stateId? source = some s ∧ g.stateId? target = some t ∧ g.Edge s t
  | .initial name => ∃ s : Nat, g.stateId? name = some s ∧ s ∈ g.initial

/-- What a call that succeeds states. To add a state that is there states nothing. -/
def stated (g : Graph) : Edit → List Fact
  | .addState name labels =>
    match g.stateId? name with
    | some _ => []
    | none => .state name :: labels.map (.label name)
  | .addEdge s t => [.edge (g.names.getD s "") (g.names.getD t "")]
  | .addEdgeByName source target => [.edge source target]
  | .markInitial s => [.initial (g.names.getD s "")]
  | .setInitial name => [.initial name]

/-- What a call states. A call that fails states nothing. -/
def facts (g : Graph) (e : Edit) : List Fact :=
  match g.call e with
  | .ok _ => g.stated e
  | .error _ => []

/-- What calls state one after the other. -/
def factsFrom : Graph → List Edit → List Fact
  | _, [] => []
  | g, e :: rest => g.facts e ++ factsFrom (g.edit e) rest

def factsOf (edits : List Edit) : List Fact := factsFrom .empty edits

variable {g next : Graph} {s t : Nat} {name source target : String} {fact : Fact}

theorem Consistent.name_unique (h : g.Consistent) {other : String} (hs : g.stateId? name = some s)
    (hother : g.stateId? other = some s) : name = other := by
  have hname := (h.index_iff name s).1 hs
  rw [(h.index_iff other s).1 hother] at hname
  exact (Option.some.inj hname).symm

theorem not_tells_empty (fact : Fact) : ¬ empty.Tells fact := by
  cases fact <;> simp [Tells, empty, stateId?]

/-! ## Adding states -/

section NewState

variable {labels : List String}

theorem addState_of_taken (h : g.stateId? name = some s) : (g.addState name labels).1 = g := by
  unfold addState
  rw [h]

theorem stateId?_addState_iff (hfree : g.stateId? name = none) {other : String} :
    (g.addState name labels).1.stateId? other = some s ↔
      other = name ∧ s = g.size ∨ g.stateId? other = some s := by
  unfold addState
  rw [hfree]
  simp only [stateId?, Std.HashMap.getElem?_insert]
  by_cases heq : name = other
  · subst heq
    simp only [stateId?] at hfree
    simp [hfree, eq_comm]
  · simp [heq, Ne.symm heq]

theorem labels_addState (h : g.Consistent) (hfree : g.stateId? name = none) :
    (g.addState name labels).1.labels.getD s [] =
      if s = g.size then sortedTexts labels else g.labels.getD s [] := by
  unfold addState
  rw [hfree]
  simp only [Array.getD_eq_getD_getElem?, Array.getElem?_push, h.labels_size]
  split <;> rfl

theorem edge_addState (hfree : g.stateId? name = none) :
    (g.addState name labels).1.Edge s t ↔ g.Edge s t := by
  unfold addState
  rw [hfree]
  simp only [Edge, getD_push_nil]

theorem initial_addState : (g.addState name labels).1.initial = g.initial := by
  unfold addState
  split <;> rfl

/-- A new state is told with its labels. -/
theorem tells_addState (h : g.WellFormed) (hfree : g.stateId? name = none) :
    (g.addState name labels).1.Tells fact ↔
      g.Tells fact ∨ fact = .state name ∨ ∃ label ∈ labels, fact = .label name label := by
  cases fact with
  | state other =>
    simp only [Tells, stateId?_addState_iff hfree, exists_or, exists_and_left, exists_eq, and_true,
      Fact.state.injEq, reduceCtorEq, and_false, exists_false, or_false]
    exact or_comm
  | label other a =>
    simp only [Tells, stateId?_addState_iff hfree, labels_addState h.toConsistent hfree]
    constructor
    · rintro ⟨s, ⟨rfl, rfl⟩ | hs, ha⟩
      · rw [if_pos rfl, mem_sortedTexts] at ha
        exact .inr (.inr ⟨a, ha, rfl⟩)
      · rw [if_neg (Nat.ne_of_lt (h.lt_of_index hs))] at ha
        exact .inl ⟨s, hs, ha⟩
    · rintro (⟨s, hs, ha⟩ | heq | ⟨label, hlabel, heq⟩)
      · exact ⟨s, .inr hs, by rwa [if_neg (Nat.ne_of_lt (h.lt_of_index hs))]⟩
      · cases heq
      · cases heq
        exact ⟨g.size, .inl ⟨rfl, rfl⟩, by rwa [if_pos rfl, mem_sortedTexts]⟩
  | edge source target =>
    simp only [Tells, stateId?_addState_iff hfree, edge_addState hfree]
    constructor
    · rintro ⟨s, t, hs, ht, hst⟩
      -- No edge leads from the new state or to it.
      have hs' := hs.resolve_left fun hnew => Nat.ne_of_lt (h.toConsistent.source_lt hst) hnew.2
      have ht' := ht.resolve_left fun hnew => Nat.ne_of_lt (h.target_lt s t hst) hnew.2
      exact .inl ⟨s, t, hs', ht', hst⟩
    · rintro (⟨s, t, hs, ht, hst⟩ | heq | ⟨label, -, heq⟩)
      · exact ⟨s, t, .inr hs, .inr ht, hst⟩
      · cases heq
      · cases heq
  | initial other =>
    simp only [Tells, stateId?_addState_iff hfree, initial_addState]
    constructor
    · rintro ⟨s, hs, hin⟩
      have hs' := hs.resolve_left fun hnew => Nat.ne_of_lt (h.initial_lt s hin) hnew.2
      exact .inl ⟨s, hs', hin⟩
    · rintro (⟨s, hs, hin⟩ | heq | ⟨label, -, heq⟩)
      · exact ⟨s, .inr hs, hin⟩
      · cases heq
      · cases heq

end NewState

/-! ## Drawing edges and marking states -/

theorem stateId?_link : (g.link s t).stateId? name = g.stateId? name := by
  unfold link
  split <;> rfl

theorem names_link : (g.link s t).names = g.names := by
  unfold link
  split <;> rfl

theorem labels_link : (g.link s t).labels = g.labels := by
  unfold link
  split <;> rfl

theorem initial_link : (g.link s t).initial = g.initial := by
  unfold link
  split <;> rfl

theorem tells_link (h : g.Consistent) (hs : g.stateId? source = some s)
    (ht : g.stateId? target = some t) :
    (g.link s t).Tells fact ↔ g.Tells fact ∨ fact = .edge source target := by
  cases fact with
  | state other => simp [Tells, stateId?_link]
  | label other a => simp [Tells, stateId?_link, labels_link]
  | initial other => simp [Tells, stateId?_link, initial_link]
  | edge a b =>
    simp only [Tells, stateId?_link, edge_link h (h.lt_of_index hs)]
    constructor
    · rintro ⟨s', t', hs', ht', hold | ⟨rfl, rfl⟩⟩
      · exact .inl ⟨s', t', hs', ht', hold⟩
      · exact .inr (by rw [h.name_unique hs' hs, h.name_unique ht' ht])
    · rintro (⟨s', t', hs', ht', hold⟩ | heq)
      · exact ⟨s', t', hs', ht', .inl hold⟩
      · cases heq
        exact ⟨s, t, hs, ht, .inr ⟨rfl, rfl⟩⟩

theorem mem_mark {a : Nat} : a ∈ (g.mark s).initial ↔ a ∈ g.initial ∨ a = s := by
  unfold mark
  split
  · next hin =>
    refine (or_iff_left_of_imp ?_).symm
    rintro rfl
    simpa using hin
  · simp

theorem stateId?_mark : (g.mark s).stateId? name = g.stateId? name := by
  unfold mark
  split <;> rfl

theorem names_mark : (g.mark s).names = g.names := by
  unfold mark
  split <;> rfl

theorem labels_mark : (g.mark s).labels = g.labels := by
  unfold mark
  split <;> rfl

theorem tells_mark (h : g.Consistent) (hs : g.stateId? name = some s) :
    (g.mark s).Tells fact ↔ g.Tells fact ∨ fact = .initial name := by
  cases fact with
  | state other => simp [Tells, stateId?_mark]
  | label other a => simp [Tells, stateId?_mark, labels_mark]
  | edge a b => simp [Tells, stateId?_mark, edge_mark]
  | initial other =>
    simp only [Tells, stateId?_mark, mem_mark]
    constructor
    · rintro ⟨s', hs', hold | rfl⟩
      · exact .inl ⟨s', hs', hold⟩
      · exact .inr (by rw [h.name_unique hs' hs])
    · rintro (⟨s', hs', hold⟩ | heq)
      · exact ⟨s', hs', .inl hold⟩
      · cases heq
        exact ⟨s, hs, .inr rfl⟩

/-! ## Sequences of calls -/

theorem Takes.tells {e : Edit} (h : g.Takes e next) (hg : g.WellFormed) :
    next.Tells fact ↔ g.Tells fact ∨ fact ∈ g.stated e := by
  have hc := hg.toConsistent
  cases h with
  | addState name labels =>
    cases hname : g.stateId? name with
    | none =>
      rw [tells_addState hg hname]
      simp only [stated, hname, List.mem_cons, List.mem_map, eq_comm]
    | some s => simp [addState_of_taken hname, stated, hname]
  | addEdge hs ht =>
    rw [tells_link hc (hc.stateId?_getD hs) (hc.stateId?_getD ht), stated, List.mem_singleton]
  | addEdgeByName hs ht => rw [tells_link hc hs ht, stated, List.mem_singleton]
  | markInitial hs => rw [tells_mark hc (hc.stateId?_getD hs), stated, List.mem_singleton]
  | setInitial hs => rw [tells_mark hc hs, stated, List.mem_singleton]

/-- A call adds what it states to what is told. -/
theorem tells_edit (h : g.WellFormed) (e : Edit) :
    (g.edit e).Tells fact ↔ g.Tells fact ∨ fact ∈ g.facts e := by
  cases hr : g.refusal? e with
  | some r =>
    have herror := call_of_refusal hr
    simp [edit_of_error herror, facts, herror]
  | none =>
    obtain ⟨next, hok, htake⟩ := call_of_no_refusal hr
    rw [edit_of_ok hok, facts, hok]
    exact htake.tells h

theorem tells_foldl_edit (h : g.WellFormed) (edits : List Edit) :
    (edits.foldl edit g).Tells fact ↔ g.Tells fact ∨ fact ∈ factsFrom g edits := by
  induction edits generalizing g with
  | nil => simp [factsFrom]
  | cons e rest ih =>
    have hnext := (consistent_edit h.toConsistent e).wellFormed
      (tidy_edit h.toConsistent h.toTidy e)
    rw [List.foldl_cons, ih hnext, tells_edit h, factsFrom, List.mem_append, or_assoc]

/-- A graph tells what the calls that built it stated, and nothing else. -/
theorem tells_ofEdits (edits : List Edit) : (ofEdits edits).Tells fact ↔ fact ∈ factsOf edits := by
  rw [ofEdits, tells_foldl_edit (consistent_empty.wellFormed tidy_empty), factsOf]
  exact or_iff_right (not_tells_empty fact)

end ActorLogic.Graph
