import ActorLogic.Proofs.Ctl.Invariance
import ActorLogic.Proofs.Graph.Description
/-!
# Answers agree

A formula can be judged by the initial states, asked at all of them at once, and asked at a name. The
three questions are answered apart, each by an evaluation of its own, and their answers are the same:
what is asked by a name is what is asked by the number behind it.
-/

namespace ActorLogic

namespace Graph

open Result

variable {g : Graph} {set : StateSet} {f : Formula} {name : String} {s : Nat}

/-! ## Names of states -/

/-- The names are those of the members, in increasing order of these. -/
structure Lists (g : Graph) (set : StateSet) (names : List String) : Prop where
  ok : g.namesOf set = .ok names
  ascending : ∃ ids : List StateId, ids.Pairwise (· < ·) ∧ (∀ s : Nat, s ∈ ids ↔ s ∈ set) ∧
    ids.mapM g.nameOf = .ok names
  nodup : names.Nodup
  mem_iff : ∀ name, name ∈ names ↔ ∃ s : Nat, g.nameOf s = .ok name ∧ s ∈ set

theorem exists_lists (hg : g.Consistent) (hset : set.Packed) (hsize : set.size = g.size) :
    ∃ names, g.Lists set names := by
  obtain ⟨hascending, hmem⟩ := StateSet.toList_spec hset
  have hlt : ∀ s ∈ set.toList, s < g.size := fun s hs =>
    hsize ▸ StateSet.lt_size_of_mem ((hmem s).1 hs)
  have hok := mapM_nameOf hlt
  refine ⟨_, hok, ⟨_, hascending, hmem, hok⟩, ?_, fun name => ?_⟩
  · exact List.Nodup.map_on (fun s hs t ht => hg.getD_names_inj (hlt s hs) (hlt t ht))
      (hascending.imp Nat.ne_of_lt)
  · rw [List.mem_map]
    constructor
    · rintro ⟨s, hs, rfl⟩
      exact ⟨s, nameOf_ok (hlt s hs), (hmem s).1 hs⟩
    · rintro ⟨s, hname, hs⟩
      rw [nameOf_ok (hlt s ((hmem s).2 hs))] at hname
      exact ⟨s, (hmem s).2 hs, Except.ok.inj hname⟩

theorem Lists.mem_iff_of_nameOf {names : List String} (h : g.Lists set names) (hg : g.Consistent)
    (hname : g.nameOf s = .ok name) : s ∈ set ↔ name ∈ names := by
  rw [h.mem_iff]
  refine ⟨fun hs => ⟨s, hname, hs⟩, ?_⟩
  rintro ⟨t, ht, hin⟩
  have hid := hg.stateId?_iff.2 ht
  rw [hg.stateId?_iff.2 hname] at hid
  exact Option.some.inj hid ▸ hin

end Graph

/-! ## Verdicts -/

/-- What the verdict on a formula tells is what the formula answers when it is asked. -/
structure Verdict.Agrees (g : Graph) (f : Formula) (v : Verdict) : Prop where
  sat : f.sat g = .ok v.satisfying
  /-- The initial states that do not satisfy the formula, as they were registered. -/
  violating : v.violating = g.initial.filter fun s => s ∉ v.satisfying
  violating_nodup : v.violating.Nodup
  holdsInitially : f.holdsInitially g = .ok v.holds
  holds_iff : v.holds = true ↔
    ∀ s ∈ g.initial, ∃ name, g.nameOf s = .ok name ∧ f.holdsAt g name = .ok (some true)
  holdsAt_none : ∀ name, f.holdsAt g name = .ok none ↔ ∀ s, g.nameOf s ≠ .ok name
  /-- At the name of a state the answer is whether the name is listed. -/
  holdsAt_some : ∃ names, g.Lists v.satisfying names ∧ ∀ s name, g.nameOf s = .ok name →
    f.holdsAt g name = .ok (some (decide (name ∈ names)))

namespace Graph

variable {g : Graph} {f : Formula} {set : StateSet} {name : String} {s : Nat}

theorem judge_ok (hg : g.Consistent) (f : Formula) :
    ∃ v, Verdict.judge g f = .ok v ∧ f.sat g = .ok v.satisfying ∧ g.Denotes f v.satisfying ∧
      v.violating = g.initial.filter fun s => s ∉ v.satisfying := by
  obtain ⟨set, traces, hok, hdenotes⟩ := evaluate_ok hg f
  refine ⟨⟨f, set, g.initial.filter fun s => !set.contains s, traces⟩, ?_, ?_, hdenotes, ?_⟩
  · rw [Verdict.judge, hok]
    rfl
  · rw [Formula.sat, hok]
    rfl
  · refine List.filter_congr fun s _ => ?_
    rw [StateSet.contains_eq_decide, decide_not]

theorem holdsAt_of_nameOf (hg : g.Consistent) (hsat : f.sat g = .ok set)
    (hname : g.nameOf s = .ok name) : f.holdsAt g name = .ok (some (decide (s ∈ set))) := by
  rw [holdsAt_of_sat hsat, hg.stateId?_iff.2 hname, Option.map_some, StateSet.contains_eq_decide]

/-- There is an answer at a name if and only if it is the name of a state. -/
theorem holdsAt_eq_none_iff (hg : g.Consistent) (hsat : f.sat g = .ok set) :
    f.holdsAt g name = .ok none ↔ ∀ s, g.nameOf s ≠ .ok name := by
  rw [holdsAt_of_sat hsat, Except.ok.injEq, Option.map_eq_none_iff,
    Option.eq_none_iff_forall_ne_some]
  exact forall_congr' fun s => not_congr hg.stateId?_iff

/-- No initial state is outside the set if the formula holds at the names of all of them. -/
theorem filter_initial_eq_nil_iff (hg : g.WellFormed) (hsat : f.sat g = .ok set) :
    (g.initial.filter fun s => s ∉ set) = [] ↔
      ∀ s ∈ g.initial, ∃ name, g.nameOf s = .ok name ∧ f.holdsAt g name = .ok (some true) := by
  rw [List.filter_eq_nil_iff]
  refine forall₂_congr fun s hs => ?_
  rw [decide_eq_true_iff, not_not]
  constructor
  · intro hin
    have hname := nameOf_ok (hg.initial_lt s hs)
    exact ⟨_, hname, by rw [holdsAt_of_nameOf hg.toConsistent hsat hname, decide_eq_true hin]⟩
  · rintro ⟨name, hname, hholds⟩
    rw [holdsAt_of_nameOf hg.toConsistent hsat hname] at hholds
    exact of_decide_eq_true (Option.some.inj (Except.ok.inj hholds))

end Graph

/-- On a graph that can be built every formula gets a verdict, and all questions about the formula
are answered as the verdict tells. -/
theorem Verdict.agrees {g : Graph} (hbuilt : g.Built) (f : Formula) :
    ∃ v, Verdict.judge g f = .ok v ∧ v.Agrees g f := by
  have hg := hbuilt.wellFormed
  have hc := hg.toConsistent
  obtain ⟨v, hjudge, hsat, hdenotes, hviolating⟩ := Graph.judge_ok hc f
  obtain ⟨names, hlists⟩ := Graph.exists_lists hc hdenotes.packed hdenotes.size
  refine ⟨v, hjudge,
    { sat := hsat
      violating := hviolating
      violating_nodup := hviolating ▸ hg.initial_nodup.filter _
      holdsInitially := ?_
      holds_iff := ?_
      holdsAt_none := fun name => Graph.holdsAt_eq_none_iff hc hsat
      holdsAt_some := ⟨names, hlists, fun s name hname => ?_⟩ }⟩
  · rw [Graph.holdsInitially_of_sat hsat, Verdict.holds, hviolating]
    refine congrArg Except.ok (Bool.eq_iff_iff.2 ?_)
    rw [List.all_eq_true, List.isEmpty_iff, List.filter_eq_nil_iff]
    simp
  · rw [Verdict.holds, List.isEmpty_iff, hviolating, Graph.filter_initial_eq_nil_iff hg hsat]
  · rw [Graph.holdsAt_of_nameOf hc hsat hname, decide_eq_decide.2 (hlists.mem_iff_of_nameOf hc hname)]

/-- Two initial states, of which the one that was registered first violates the formula. -/
theorem Verdict.agrees_stop :
    let edits : List Graph.Edit := [.addState "wait" ["p"], .addState "stop" [], .addEdge 0 1,
      .markInitial 1, .setInitial "wait"]
    (Graph.ofEdits edits).Built ∧ ∃ v, Verdict.judge (Graph.ofEdits edits) (.ex (.not (.atom "p"))) =
      .ok v ∧ v.Agrees (Graph.ofEdits edits) (.ex (.not (.atom "p"))) := by
  intro edits
  have hbuilt : (Graph.ofEdits edits).Built := .inl ⟨edits, rfl⟩
  exact ⟨hbuilt, Verdict.agrees hbuilt (.ex (.not (.atom "p")))⟩

end ActorLogic
