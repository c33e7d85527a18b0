import ActorLogic.Proofs.Graph.Consistency
import Mathlib.Data.List.Induction
import Mathlib.Data.List.Nodup
/-!
# Well-formed graphs

A graph can be built by any sequence of calls, of which some may fail. Whatever the sequence was,
its tables belong together, no list names a state twice, and the edges are counted right. A call
fails only for a state that the graph does not have, and then changes nothing; a call that succeeds
does what it says, and only appends to what was there.
-/

namespace ActorLogic.Graph

open Result

/-! ## Calls and refusals -/

/-- What a call that fails reports: a name that no state has, or a number outside the graph. -/
inductive Refusal where
  | unknown (e : GraphError)
  | foreign (f : GraphFault)
  deriving DecidableEq, Repr

/-- What a call returns. -/
def call (g : Graph) : Edit → Except Refusal Graph
  | .addState name labels => .ok (g.addState name labels).1
  | .addEdge s t => (g.addEdge s t).mapError .foreign
  | .addEdgeByName source target => (g.addEdgeByName source target).mapError .unknown
  | .markInitial s => (g.markInitial s).mapError .foreign
  | .setInitial name => ((g.setInitial name).map (·.1)).mapError .unknown

/-- The first of the numbers that is outside the graph. -/
def firstForeign (g : Graph) (states : List StateId) : Option Refusal :=
  (states.find? fun s => g.size ≤ s).map fun s => .foreign (.foreignState s g.size)

/-- The first of the names that no state has. -/
def firstUnknown (g : Graph) (names : List String) : Option Refusal :=
  (names.find? fun name => (g.stateId? name).isNone).map fun name => .unknown (.unknownState name)

/-- Why a call has to fail, if it has to. -/
def refusal? (g : Graph) : Edit → Option Refusal
  | .addState .. => none
  | .addEdge s t => g.firstForeign [s, t]
  | .addEdgeByName source target => g.firstUnknown [source, target]
  | .markInitial s => g.firstForeign [s]
  | .setInitial name => g.firstUnknown [name]

/-! ## What calls keep -/

/-- No list names a state twice, the initial states are states, and the edges are counted. -/
structure Tidy (g : Graph) : Prop where
  succ_nodup : ∀ s : Nat, (g.succ.getD s []).Nodup
  pred_nodup : ∀ s : Nat, (g.pred.getD s []).Nodup
  initial_nodup : g.initial.Nodup
  initial_lt : ∀ s ∈ g.initial, s < g.size
  edgeCount_succ : g.edgeCount = g.succ.toList.flatten.length
  edgeCount_pred : g.edgeCount = g.pred.toList.flatten.length

structure WellFormed (g : Graph) : Prop extends g.Consistent, g.Tidy where
  names_nodup : g.names.toList.Nodup
  source_lt : ∀ s t : Nat, s ∈ g.pred.getD t [] → s < g.size

/-- The later graph has all that the earlier one has, under the same numbers and in the same order,
and perhaps more behind it. -/
structure Grows (g next : Graph) : Prop where
  names : g.names.toList <+: next.names.toList
  labels : g.labels.toList <+: next.labels.toList
  stateId? : ∀ (name : String) (s : Nat), g.stateId? name = some s → next.stateId? name = some s
  succ : ∀ s : Nat, g.succ.getD s [] <+: next.succ.getD s []
  pred : ∀ s : Nat, g.pred.getD s [] <+: next.pred.getD s []
  initial : g.initial <+: next.initial

/-- What a call is made for. -/
def Achieved (g : Graph) : Edit → Prop
  | .addState name _ => ∃ s : Nat, g.stateId? name = some s
  | .addEdge s t => g.Edge s t
  | .addEdgeByName source target =>
    ∃ s t : Nat, g.stateId? source = some s ∧ g.stateId? target = some t ∧ g.Edge s t
  | .markInitial s => s ∈ g.initial
  | .setInitial name => ∃ s : Nat, g.stateId? name = some s ∧ s ∈ g.initial

variable {g next : Graph} {s t : Nat} {name : String}

theorem Grows.refl (g : Graph) : g.Grows g where
  names := List.prefix_rfl
  labels := List.prefix_rfl
  stateId? _ _ h := h
  succ _ := List.prefix_rfl
  pred _ := List.prefix_rfl
  initial := List.prefix_rfl

/-- The names of a graph whose index is right are pairwise distinct. -/
theorem Consistent.names_nodup (h : g.Consistent) : g.names.toList.Nodup := by
  rw [List.nodup_iff_getElem?_ne_getElem?]
  intro i j hij hj heq
  rw [Array.getElem?_toList, Array.getElem?_toList] at heq
  rw [Array.length_toList] at hj
  -- Both places would be the number of the one name.
  have hname : g.names[j]? = some g.names[j] := Array.getElem?_eq_getElem hj
  have hfound := (h.index_iff _ j).2 hname
  rw [(h.index_iff _ i).2 (heq.trans hname)] at hfound
  exact absurd (Option.some.inj hfound) (Nat.ne_of_lt hij)

theorem Consistent.wellFormed (h : g.Consistent) (htidy : g.Tidy) : g.WellFormed where
  toConsistent := h
  toTidy := htidy
  names_nodup := h.names_nodup
  source_lt s t hs := h.source_lt ((h.mem_pred_iff s t).1 hs)

/-! ## Adding states -/

theorem tidy_empty : empty.Tidy where
  succ_nodup s := by simp [empty]
  pred_nodup s := by simp [empty]
  initial_nodup := List.nodup_nil
  initial_lt s hs := absurd hs List.not_mem_nil
  edgeCount_succ := rfl
  edgeCount_pred := rfl

theorem tidy_addState (h : g.Tidy) (name : String) (labels : List String) :
    (g.addState name labels).1.Tidy := by
  unfold addState
  cases g.stateId? name with
  | some s => exact h
  | none =>
    exact
      { succ_nodup := fun s => by simpa only [getD_push_nil] using h.succ_nodup s
        pred_nodup := fun s => by simpa only [getD_push_nil] using h.pred_nodup s
        initial_nodup := h.initial_nodup
        initial_lt := fun s hs => by
          simpa [size] using Nat.lt_succ_of_lt (h.initial_lt s hs)
        edgeCount_succ := by simpa using h.edgeCount_succ
        edgeCount_pred := by simpa using h.edgeCount_pred }

theorem grows_addState (g : Graph) (name : String) (labels : List String) :
    g.Grows (g.addState name labels).1 := by
  unfold addState
  cases hname : g.stateId? name with
  | some s => exact .refl g
  | none =>
    exact
      { names := by simp
        labels := by simp
        stateId? := fun other s hs => by
          -- The new name is not the one that was found.
          have hne : name ≠ other := by
            rintro rfl
            simp [hname] at hs
          simpa [stateId?, Std.HashMap.getElem?_insert, hne] using hs
        succ := fun s => by simp only [getD_push_nil, List.prefix_rfl]
        pred := fun s => by simp only [getD_push_nil, List.prefix_rfl]
        initial := List.prefix_rfl }

theorem stateId?_addState (g : Graph) (name : String) (labels : List String) :
    ∃ s : Nat, (g.addState name labels).1.stateId? name = some s := by
  unfold addState
  cases hname : g.stateId? name with
  | some s => exact ⟨s, hname⟩
  | none => exact ⟨g.size, by simp [stateId?]⟩

/-! ## Drawing edges -/

section Tables

variable {table : Array (List StateId)} {i j : Nat}

theorem getD_modify_append (hi : i < table.size) (a : Nat) :
    (table.modify i (· ++ [j])).getD a [] =
      if a = i then table.getD a [] ++ [j] else table.getD a [] := by
  simp only [Array.getD_eq_getD_getElem?, Array.getElem?_modify]
  by_cases heq : i = a
  · subst heq
    simp [hi]
  · simp [heq, Ne.symm heq]

/-- A table in which one list grows by a state it does not have. -/
theorem nodup_modify_append (hi : i < table.size) (hnew : j ∉ table.getD i [])
    (h : ∀ a : Nat, (table.getD a []).Nodup) (a : Nat) :
    ((table.modify i (· ++ [j])).getD a []).Nodup := by
  rw [getD_modify_append hi]
  split
  · next heq =>
    subst heq
    rw [← List.concat_eq_append]
    exact (h a).concat hnew
  · exact h a

theorem prefix_modify_append (hi : i < table.size) (a : Nat) :
    table.getD a [] <+: (table.modify i (· ++ [j])).getD a [] := by
  rw [getD_modify_append hi]
  split
  · exact List.prefix_append _ _
  · exact List.prefix_rfl

theorem length_flatten_modify_append (hi : i < table.size) :
    (table.modify i (· ++ [j])).toList.flatten.length = table.toList.flatten.length + 1 := by
  obtain ⟨lists⟩ := table
  simp only [List.size_toArray] at hi
  rw [Array.toList_modify]
  dsimp only
  induction lists generalizing i with
  | nil => cases hi
  | cons l rest ih =>
    rw [List.flatten_cons, List.length_append]
    cases i with
    | zero =>
      rw [List.modify_zero_cons, List.flatten_cons, List.length_append, List.length_append,
        List.length_singleton, Nat.add_right_comm]
    | succ i =>
      rw [List.modify_succ_cons, List.flatten_cons, List.length_append,
        ih (Nat.lt_of_succ_lt_succ hi), Nat.add_assoc]

end Tables

theorem tidy_link (h : g.Consistent) (htidy : g.Tidy) (hs : s < g.size) (ht : t < g.size) :
    (g.link s t).Tidy := by
  unfold link
  split
  · exact htidy
  · next hnew =>
    have hsucc : t ∉ g.succ.getD s [] := by simpa using hnew
    -- The lists of predecessors are not looked at, but they miss the edge as well.
    have hpred : s ∉ g.pred.getD t [] := fun hin => hsucc ((h.mem_pred_iff s t).1 hin)
    have hs' : s < g.succ.size := h.succ_size ▸ hs
    have ht' : t < g.pred.size := h.pred_size ▸ ht
    exact
      { succ_nodup := nodup_modify_append hs' hsucc htidy.succ_nodup
        pred_nodup := nodup_modify_append ht' hpred htidy.pred_nodup
        initial_nodup := htidy.initial_nodup
        initial_lt := htidy.initial_lt
        edgeCount_succ := by rw [length_flatten_modify_append hs', htidy.edgeCount_succ]
        edgeCount_pred := by rw [length_flatten_modify_append ht', htidy.edgeCount_pred] }

theorem grows_link (h : g.Consistent) (hs : s < g.size) (ht : t < g.size) :
    g.Grows (g.link s t) := by
  unfold link
  split
  · exact .refl g
  · exact
      { Grows.refl g with
        succ := prefix_modify_append (h.succ_size ▸ hs)
        pred := prefix_modify_append (h.pred_size ▸ ht) }

/-! ## Marking initial states -/

theorem tidy_mark (h : g.Tidy) (hs : s < g.size) : (g.mark s).Tidy := by
  unfold mark
  split
  · exact h
  · next hnew =>
    refine { h with initial_nodup := ?_, initial_lt := ?_ }
    · dsimp only
      rw [← List.concat_eq_append]
      exact h.initial_nodup.concat (by simpa using hnew)
    · intro a ha
      cases List.mem_append.1 ha with
      | inl hold => exact h.initial_lt a hold
      | inr hlast => exact (List.mem_singleton.1 hlast) ▸ hs

theorem grows_mark (g : Graph) (s : StateId) : g.Grows (g.mark s) := by
  unfold mark
  split
  · exact .refl g
  · exact { Grows.refl g with initial := List.prefix_append _ _ }

theorem mem_initial_mark (g : Graph) (s : StateId) : s ∈ (g.mark s).initial := by
  unfold mark
  split
  · next hin => simpa using hin
  · simp

theorem edge_mark {a b : Nat} : (g.mark s).Edge a b ↔ g.Edge a b := by
  unfold mark
  split <;> rfl

/-! ## All calls -/

/-- A call that succeeds, case by case. -/
inductive Takes (g : Graph) : Edit → Graph → Prop where
  | addState (name : String) (labels : List String) :
    g.Takes (.addState name labels) (g.addState name labels).1
  | addEdge {s t : Nat} : s < g.size → t < g.size → g.Takes (.addEdge s t) (g.link s t)
  | addEdgeByName {source target : String} {s t : Nat} : g.stateId? source = some s →
    g.stateId? target = some t → g.Takes (.addEdgeByName source target) (g.link s t)
  | markInitial {s : Nat} : s < g.size → g.Takes (.markInitial s) (g.mark s)
  | setInitial {name : String} {s : Nat} : g.stateId? name = some s →
    g.Takes (.setInitial name) (g.mark s)

theorem firstForeign_cons (g : Graph) (s : StateId) (rest : List StateId) :
    g.firstForeign (s :: rest) =
      if s < g.size then g.firstForeign rest else some (.foreign (.foreignState s g.size)) := by
  by_cases hs : s < g.size
  · simp [firstForeign, hs]
  · simp [firstForeign, hs, Nat.not_lt.1 hs]

theorem firstUnknown_cons (g : Graph) (name : String) (rest : List String) :
    g.firstUnknown (name :: rest) =
      match g.stateId? name with
      | some _ => g.firstUnknown rest
      | none => some (.unknown (.unknownState name)) := by
  cases hname : g.stateId? name <;> simp [firstUnknown, hname]

/-- A call fails if it has to, with the first state that is missing, and succeeds otherwise. -/
theorem call_spec (g : Graph) (e : Edit) :
    match g.refusal? e with
    | some r => g.call e = .error r
    | none => ∃ next, g.call e = .ok next ∧ g.Takes e next := by
  cases e with
  | addState name labels => exact ⟨_, rfl, .addState name labels⟩
  | addEdge s t =>
    simp only [refusal?, firstForeign_cons, call, addEdge, check]
    by_cases hs : s < g.size
    · by_cases ht : t < g.size
      · simp only [if_pos hs, if_pos ht]
        exact ⟨_, rfl, .addEdge hs ht⟩
      · simp only [if_pos hs, if_neg ht]
        rfl
    · simp only [if_neg hs]
      rfl
  | addEdgeByName source target =>
    simp only [refusal?, firstUnknown_cons, call, addEdgeByName, lookup]
    cases hs : g.stateId? source with
    | none => rfl
    | some s =>
      cases ht : g.stateId? target with
      | none => rfl
      | some t => exact ⟨_, rfl, .addEdgeByName hs ht⟩
  | markInitial s =>
    simp only [refusal?, firstForeign_cons, call, markInitial, check]
    by_cases hs : s < g.size
    · simp only [if_pos hs]
      exact ⟨_, rfl, .markInitial hs⟩
    · simp only [if_neg hs]
      rfl
  | setInitial name =>
    simp only [refusal?, firstUnknown_cons, call, setInitial, lookup]
    cases hs : g.stateId? name with
    | none => rfl
    | some s => exact ⟨_, rfl, .setInitial hs⟩

variable {e : Edit} {r : Refusal}

theorem call_of_refusal (h : g.refusal? e = some r) : g.call e = .error r := by
  have hspec := g.call_spec e
  rwa [h] at hspec

theorem call_of_no_refusal (h : g.refusal? e = none) :
    ∃ next, g.call e = .ok next ∧ g.Takes e next := by
  have hspec := g.call_spec e
  rwa [h] at hspec

theorem Takes.tidy (h : g.Takes e next) (hg : g.Consistent) (htidy : g.Tidy) : next.Tidy := by
  cases h with
  | addState name labels => exact tidy_addState htidy name labels
  | addEdge hs ht => exact tidy_link hg htidy hs ht
  | addEdgeByName hs ht => exact tidy_link hg htidy (hg.lt_of_index hs) (hg.lt_of_index ht)
  | markInitial hs => exact tidy_mark htidy hs
  | setInitial hs => exact tidy_mark htidy (hg.lt_of_index hs)

theorem Takes.grows (h : g.Takes e next) (hg : g.Consistent) : g.Grows next := by
  cases h with
  | addState name labels => exact grows_addState g name labels
  | addEdge hs ht => exact grows_link hg hs ht
  | addEdgeByName hs ht => exact grows_link hg (hg.lt_of_index hs) (hg.lt_of_index ht)
  | markInitial hs => exact grows_mark g _
  | setInitial hs => exact grows_mark g _

theorem Takes.achieved (h : g.Takes e next) (hg : g.Consistent) : next.Achieved e := by
  have hgrows := h.grows hg
  cases h with
  | addState name labels => exact stateId?_addState g name labels
  | addEdge hs ht => exact (edge_link hg hs).2 (.inr ⟨rfl, rfl⟩)
  | addEdgeByName hs ht =>
    exact ⟨_, _, hgrows.stateId? _ _ hs, hgrows.stateId? _ _ ht,
      (edge_link hg (hg.lt_of_index hs)).2 (.inr ⟨rfl, rfl⟩)⟩
  | markInitial hs => exact mem_initial_mark g _
  | setInitial hs => exact ⟨_, hgrows.stateId? _ _ hs, mem_initial_mark g _⟩

theorem edit_eq_call (g : Graph) (e : Edit) : g.edit e = (g.call e).toOption.getD g := by
  cases e with
  | addState name labels => rfl
  | addEdge s t => cases hok : g.addEdge s t <;> simp only [edit, call, hok] <;> rfl
  | addEdgeByName source target =>
    cases hok : g.addEdgeByName source target <;> simp only [edit, call, hok] <;> rfl
  | markInitial s => cases hok : g.markInitial s <;> simp only [edit, call, hok] <;> rfl
  | setInitial name => cases hok : g.setInitial name <;> simp only [edit, call, hok] <;> rfl

theorem edit_of_error (h : g.call e = .error r) : g.edit e = g := by
  rw [edit_eq_call, h]
  rfl

theorem edit_of_ok (h : g.call e = .ok next) : g.edit e = next := by
  rw [edit_eq_call, h]
  rfl

theorem ofEdits_concat (edits : List Edit) (e : Edit) :
    ofEdits (edits ++ [e]) = (ofEdits edits).edit e := by
  simp only [ofEdits, List.foldl_append, List.foldl_cons, List.foldl_nil]

theorem tidy_edit (hg : g.Consistent) (htidy : g.Tidy) (e : Edit) : (g.edit e).Tidy := by
  cases hr : g.refusal? e with
  | some r => rwa [edit_of_error (call_of_refusal hr)]
  | none =>
    obtain ⟨next, hok, htake⟩ := call_of_no_refusal hr
    rw [edit_of_ok hok]
    exact htake.tidy hg htidy

theorem tidy_ofEdits (edits : List Edit) : (ofEdits edits).Tidy := by
  induction edits using List.reverseRecOn with
  | nil => exact tidy_empty
  | append_singleton edits e ih =>
    rw [ofEdits_concat]
    exact tidy_edit (consistent_ofEdits edits) ih e

/-- After any sequence of calls the graph is well-formed. One call more fails only for a state that
is missing, and then leaves the graph as it is; otherwise it does what it is made for and changes
nothing that is there. -/
theorem ofEdits_wellFormed (edits : List Edit) :
    (ofEdits edits).WellFormed ∧ ∀ e : Edit,
      match (ofEdits edits).refusal? e with
      | some r => (ofEdits edits).call e = .error r ∧ ofEdits (edits ++ [e]) = ofEdits edits
      | none => ∃ next, (ofEdits edits).call e = .ok next ∧ ofEdits (edits ++ [e]) = next ∧
          (ofEdits edits).Grows next ∧ next.Achieved e := by
  have hg := consistent_ofEdits edits
  refine ⟨hg.wellFormed (tidy_ofEdits edits), fun e => ?_⟩
  rw [ofEdits_concat]
  split
  · next r hr => exact ⟨call_of_refusal hr, edit_of_error (call_of_refusal hr)⟩
  · next hr =>
    obtain ⟨next, hok, htake⟩ := call_of_no_refusal hr
    exact ⟨next, hok, edit_of_ok hok, htake.grows hg, htake.achieved hg⟩

end ActorLogic.Graph
