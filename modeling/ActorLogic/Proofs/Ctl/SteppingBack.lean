import ActorLogic.Proofs.Ctl.Duality
import ActorLogic.Proofs.Ctl.Statistics
import ActorLogic.Proofs.StateSet.Refinement
/-!
# Stepping back from a set

One of the two ways to step back reads the predecessor lists and the other the successor lists. On a
graph that can be built both say what the successor lists say, so that each is the other one between
complements, a larger target is never stepped back from by fewer states, and they differ by the
states without successors.
-/

namespace ActorLogic.Graph

open Fixpoint

/-- The sets that step back from a target, in the one way and the other. -/
structure StepsBack (g : Graph) (target some every : StateSet) : Prop where
  some_ok : g.preSome target = .ok some
  every_ok : g.preEvery target = .ok every
  some_size : some.size = g.size
  every_size : every.size = g.size
  mem_some : ∀ s : Nat, s ∈ some ↔ ∃ next, g.successors s = .ok next ∧ ∃ t ∈ next, t ∈ target
  mem_every : ∀ s : Nat, s ∈ every ↔ ∃ next, g.successors s = .ok next ∧ ∀ t ∈ next, t ∈ target
  some_complement : g.preEvery target.complement = .ok some.complement
  every_complement : g.preSome target.complement = .ok every.complement
  some_mono : ∀ larger : StateSet, larger.Built → target.isSubset larger = .ok true →
    ∃ more, g.preSome larger = .ok more ∧ some.isSubset more = .ok true
  every_mono : ∀ larger : StateSet, larger.Built → target.isSubset larger = .ok true →
    ∃ more, g.preEvery larger = .ok more ∧ every.isSubset more = .ok true
  /-- The states without successors are those that step back in the second way only. -/
  deadlocks : ∃ stuck, every.difference some = .ok stuck ∧
    ∀ s : Nat, s ∈ stuck ↔ g.successors s = .ok []

variable {g : Graph} {kind : StepBack} {target larger found : StateSet} {s : Nat}

/-- The set that steps back from a target over the graph. -/
structure Finds (g : Graph) (kind : StepBack) (target found : StateSet) : Prop where
  ok : g.pre kind target = .ok found
  packed : found.Packed
  size : found.size = g.size
  mem_iff : ∀ s : Nat, s ∈ found ↔ s ∈ g.back kind target.members

theorem exists_finds (hg : g.Consistent) (kind : StepBack) (htarget : target.Packed)
    (hsize : target.size = g.size) : ∃ found, g.Finds kind target found := by
  obtain ⟨found, hok, hpacked, hfsize, hmem⟩ := pre_ok hg kind htarget hsize
  exact ⟨found, hok, hpacked, hfsize, hmem⟩

namespace Finds

/-- What steps back from the complement, in the other way, is the complement. -/
theorem dual (h : g.Finds kind target found) (hg : g.Consistent) (htarget : target.Packed)
    (hsize : target.size = g.size) :
    g.Finds kind.dual target.complement found.complement := by
  obtain ⟨other, hother⟩ := exists_finds hg kind.dual (StateSet.packed_complement htarget)
    (StateSet.size_complement.trans hsize)
  have heq : other = found.complement := by
    refine hother.packed.ext (StateSet.packed_complement h.packed)
      (hother.size.trans (StateSet.size_complement.trans h.size).symm) fun s => ?_
    rw [hother.mem_iff, members_complement htarget hsize, StateSet.mem_complement h.packed, h.size,
      h.mem_iff]
    constructor
    · intro hs
      exact ⟨lt_of_mem_back hs, (mem_back_outside hg (lt_of_mem_back hs)).1 hs⟩
    · rintro ⟨hs, hnot⟩
      exact (mem_back_outside hg hs).2 hnot
  exact heq ▸ hother

theorem mono (h : g.Finds kind target found) (hg : g.Consistent) (htarget : target.Packed)
    (hsize : target.size = g.size) (hlarger : larger.Packed)
    (hsub : target.isSubset larger = .ok true) :
    ∃ more, g.pre kind larger = .ok more ∧ found.isSubset more = .ok true := by
  obtain ⟨hsame, hmem⟩ := (StateSet.isSubset_iff htarget hlarger).1 hsub
  obtain ⟨more, hmore⟩ := exists_finds hg kind hlarger (hsame ▸ hsize)
  refine ⟨more, hmore.ok, (StateSet.isSubset_iff h.packed hmore.packed).2
    ⟨h.size.trans hmore.size.symm, fun s hs => ?_⟩⟩
  rw [hmore.mem_iff]
  refine back_mono (fun t ht => ?_) ((h.mem_iff s).1 hs)
  exact StateSet.mem_members.2 (hmem t (StateSet.mem_members.1 ht))

end Finds

/-! ## In terms of the successor lists -/

theorem mem_back_iff (hg : g.Consistent) :
    s ∈ g.back kind target.members ↔ ∃ next, g.successors s = .ok next ∧
      match kind with
      | .some => ∃ t ∈ next, t ∈ target
      | .every => ∀ t ∈ next, t ∈ target := by
  cases kind <;> simp [back, successors_eq_ok hg, Edge]

/-- A state with all successors in the target and none of them in it has none. -/
theorem mem_every_not_some_iff (hg : g.Consistent) :
    s ∈ g.back .every target.members ∧ s ∉ g.back .some target.members ↔
      g.successors s = .ok [] := by
  rw [mem_back_iff hg, mem_back_iff hg]
  constructor
  · rintro ⟨⟨next, hok, hall⟩, hnone⟩
    rw [hok, List.eq_nil_iff_forall_not_mem.2 fun t ht => hnone ⟨next, hok, t, ht, hall t ht⟩]
  · intro hok
    rw [hok]
    simp

/-- On a graph that can be built, both ways to step back from a set of its states find what the
successor lists say, and the laws between them hold. -/
theorem stepsBack (hg : g.Built) (htarget : target.Built) (hsize : target.size = g.size) :
    ∃ some every, g.StepsBack target some every := by
  have hc := hg.consistent
  have hpacked := htarget.packed
  obtain ⟨some, hsome⟩ := exists_finds hc .some hpacked hsize
  obtain ⟨every, hevery⟩ := exists_finds hc .every hpacked hsize
  obtain ⟨stuck, hstuck, -, -, hmem⟩ :=
    StateSet.difference_ok hevery.packed hsome.packed (hevery.size.trans hsome.size.symm)
  exact ⟨some, every,
    { some_ok := hsome.ok
      every_ok := hevery.ok
      some_size := hsome.size
      every_size := hevery.size
      mem_some := fun s => (hsome.mem_iff s).trans (mem_back_iff hc)
      mem_every := fun s => (hevery.mem_iff s).trans (mem_back_iff hc)
      some_complement := (hsome.dual hc hpacked hsize).ok
      every_complement := (hevery.dual hc hpacked hsize).ok
      some_mono := fun _ hlarger => hsome.mono hc hpacked hsize hlarger.packed
      every_mono := fun _ hlarger => hevery.mono hc hpacked hsize hlarger.packed
      deadlocks := ⟨stuck, hstuck, fun s => by
        rw [hmem, hevery.mem_iff, hsome.mem_iff, mem_every_not_some_iff hc]⟩ }⟩

/-- A state that can wait for ever or go to a state without successors, and the set of both. -/
theorem stepsBack_deadlock :
    let edits : List Edit := [.addState "wait" [], .addState "stop" [], .addEdge 0 0, .addEdge 0 1]
    let target := (StateSet.operations.runAll [.full 2 0]).2 0
    (ofEdits edits).Built ∧ target.Built ∧ target.size = (ofEdits edits).size ∧
      ∃ some every, (ofEdits edits).StepsBack target some every := by
  intro edits target
  have hbuilt : (ofEdits edits).Built := .inl ⟨edits, rfl⟩
  have htarget : target.Built := ⟨_, _, rfl⟩
  have hsize : target.size = (ofEdits edits).size := by
    cbv
  exact ⟨hbuilt, htarget, hsize, stepsBack hbuilt htarget hsize⟩

end ActorLogic.Graph
