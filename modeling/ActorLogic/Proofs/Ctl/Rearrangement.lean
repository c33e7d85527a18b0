import ActorLogic.Ctl.Verdict
import ActorLogic.Proofs.Ctl.Evaluation
import ActorLogic.Proofs.Graph.Description
import ActorLogic.Proofs.StateSet.Counting
/-!
# Evaluation does not look at the order of the lists

Where two graphs have the same states, labels and edges under the same numbers, formulas are
evaluated alike, down to the rounds of the fixpoints, in whatever order the edges of a state are
listed. So nothing is lost when a graph is written down and read back, although its predecessors are
listed in another order then.
-/

namespace ActorLogic.Graph

open Fixpoint Result

/-- The graphs have the same states, labels and edges, under the same numbers. -/
structure Rearranges (g h : Graph) : Prop where
  left : g.Consistent
  right : h.Consistent
  size : h.size = g.size
  labels : ∀ s : Nat, h.labels.getD s [] = g.labels.getD s []
  edge : ∀ s t : Nat, h.Edge s t ↔ g.Edge s t

variable {g h : Graph} {kind : StepBack} {set target start : StateSet} {hold : Option StateSet}

/-! ## Results that are determined -/

theorem found_unique {x y : Except GraphFault StateSet} {P Q : Nat → Prop} {m n : Nat}
    (hx : ∃ a, x = .ok a ∧ a.Packed ∧ a.size = m ∧ ∀ s : Nat, s ∈ a ↔ P s)
    (hy : ∃ b, y = .ok b ∧ b.Packed ∧ b.size = n ∧ ∀ s : Nat, s ∈ b ↔ Q s) (hsize : n = m)
    (hiff : ∀ s, Q s ↔ P s) : y = x := by
  obtain ⟨a, rfl, ha, hasize, hamem⟩ := hx
  obtain ⟨b, rfl, hb, hbsize, hbmem⟩ := hy
  refine congrArg Except.ok (hb.ext ha ?_ fun s => ?_)
  · rw [hbsize, hsize, hasize]
  · rw [hbmem, hiff, hamem]

theorem settled_unique {x y : Except GraphFault (StateSet × Nat)} {round : Set Nat → Set Nat}
    {first : Set Nat} {m n : Nat}
    (hx : ∃ a r, x = .ok (a, r) ∧ a.Packed ∧ a.size = m ∧ Settles round first a.members r)
    (hy : ∃ b r, y = .ok (b, r) ∧ b.Packed ∧ b.size = n ∧ Settles round first b.members r)
    (hsize : n = m) : y = x := by
  obtain ⟨a, r, rfl, ha, hasize, hasettles⟩ := hx
  obtain ⟨b, r', rfl, hb, hbsize, hbsettles⟩ := hy
  obtain ⟨hmembers, rfl⟩ := hbsettles.unique hasettles
  have heq : b = a := hb.ext ha (by rw [hbsize, hsize, hasize]) fun s => by
    simpa using Set.ext_iff.1 hmembers s
  rw [heq]

/-! ## The operators -/

namespace Rearranges

theorem back_eq (halike : g.Rearranges h) (kind : StepBack) (target : Set Nat) :
    h.back kind target = g.back kind target := by
  ext s
  cases kind <;> simp only [back, halike.size, halike.edge]

theorem widen_eq (halike : g.Rearranges h) (kind : StepBack) (hold : Set Nat) :
    widen h kind hold = widen g kind hold := by
  funext current
  rw [widen, widen, halike.back_eq]

theorem narrow_eq (halike : g.Rearranges h) (kind : StepBack) : narrow h kind = narrow g kind := by
  funext current
  rw [narrow, narrow, halike.back_eq]

theorem statesWithLabel_eq (halike : g.Rearranges h) (label : String) :
    h.statesWithLabel label = g.statesWithLabel label :=
  found_unique (statesWithLabel_ok halike.left label) (statesWithLabel_ok halike.right label)
    halike.size fun s => by rw [halike.size, halike.labels]

theorem preSome_eq (halike : g.Rearranges h) (hset : set.Packed) (hsize : set.size = g.size) :
    h.preSome set = g.preSome set :=
  found_unique (preSome_ok halike.left hset hsize)
    (preSome_ok halike.right hset (hsize.trans halike.size.symm)) halike.size
    fun s => by rw [halike.back_eq]

theorem preEvery_eq (halike : g.Rearranges h) (set : StateSet) : h.preEvery set = g.preEvery set :=
  found_unique (preEvery_ok halike.left set) (preEvery_ok halike.right set) halike.size
    fun s => by rw [halike.back_eq]

theorem least_eq (halike : g.Rearranges h) (ht : target.Packed) (hsize : target.size = g.size) :
    least h kind hold target = least g kind hold target :=
  settled_unique (least_ok halike.left kind hold ht hsize)
    (halike.widen_eq kind (within hold) ▸
      least_ok halike.right kind hold ht (hsize.trans halike.size.symm)) halike.size

theorem greatest_eq (halike : g.Rearranges h) (hs : start.Packed) (hsize : start.size = g.size) :
    greatest h kind start = greatest g kind start :=
  settled_unique (greatest_ok halike.left kind hs hsize)
    (halike.narrow_eq kind ▸ greatest_ok halike.right kind hs (hsize.trans halike.size.symm))
    halike.size

/-! ## Formulas -/

/-- Formulas have the same sets and the same traces. -/
theorem evaluate_eq (halike : g.Rearranges h) (f : Formula) : f.evaluate h = f.evaluate g := by
  induction f with
  | top => rw [Formula.evaluate_top, Formula.evaluate_top, fullSet, fullSet, halike.size]
  | bot => rw [Formula.evaluate_bot, Formula.evaluate_bot, emptySet, emptySet, halike.size]
  | atom name => simp only [Formula.evaluate, halike.statesWithLabel_eq]
  | not f ih => simp only [Formula.evaluate, ih]
  | and f k ihf ihk => simp only [Formula.evaluate, ihf, ihk]
  | or f k ihf ihk => simp only [Formula.evaluate, ihf, ihk]
  | ex f ih =>
    obtain ⟨a, t, ha, hden⟩ := evaluate_ok halike.left f
    simp only [Formula.evaluate, ih, ha, ok_bind, halike.preSome_eq hden.packed hden.size]
  | ax f ih => simp only [Formula.evaluate, ih, halike.preEvery_eq]
  | ef f ih =>
    obtain ⟨a, t, ha, hden⟩ := evaluate_ok halike.left f
    simp only [Formula.evaluate, ih, ha, ok_bind, halike.least_eq hden.packed hden.size]
  | af f ih =>
    obtain ⟨a, t, ha, hden⟩ := evaluate_ok halike.left f
    simp only [Formula.evaluate, ih, ha, ok_bind, halike.least_eq hden.packed hden.size]
  | eg f ih =>
    obtain ⟨a, t, ha, hden⟩ := evaluate_ok halike.left f
    simp only [Formula.evaluate, ih, ha, ok_bind, halike.greatest_eq hden.packed hden.size]
  | ag f ih =>
    obtain ⟨a, t, ha, hden⟩ := evaluate_ok halike.left f
    simp only [Formula.evaluate, ih, ha, ok_bind, halike.greatest_eq hden.packed hden.size]
  | eu f k ihf ihk =>
    obtain ⟨b, u, hb, hden⟩ := evaluate_ok halike.left k
    simp only [Formula.evaluate, ihf, ihk, hb, ok_bind, halike.least_eq hden.packed hden.size]
  | au f k ihf ihk =>
    obtain ⟨b, u, hb, hden⟩ := evaluate_ok halike.left k
    simp only [Formula.evaluate, ihf, ihk, hb, ok_bind, halike.least_eq hden.packed hden.size]

end Rearranges

theorem Restores.rearranges (h' : g.Restores h) (hg : g.Consistent) (hh : h.Consistent) :
    g.Rearranges h where
  left := hg
  right := hh
  size := by rw [Graph.size, h'.names, Graph.size]
  labels s := by rw [h'.labels]
  edge s t := by rw [Edge, h'.succ, Edge]

/-- A graph that can be built is read back from its description with all of its tables, except that
its predecessors are put in ascending order. So it has the same description again, and the same
verdict on every formula: the states that satisfy it, the initial states that do not, and what the
fixpoints took. -/
theorem Built.toGraph_describe (hbuilt : g.Built) :
    ∃ h, g.describe.toGraph = .ok h ∧ g.Restores h ∧ h.describe = g.describe ∧
      ∀ f : Formula, ∃ verdict, Verdict.judge g f = .ok verdict ∧ Verdict.judge h f = .ok verdict := by
  obtain ⟨h, hok, hread, hrestores⟩ := hbuilt.exists_restores
  refine ⟨h, hok, hrestores, hrestores.describe_eq, fun f => ?_⟩
  have heq := (hrestores.rearranges hbuilt.consistent hread.consistent).evaluate_eq f
  obtain ⟨set, traces, heval, -⟩ := evaluate_ok hbuilt.consistent f
  refine ⟨⟨f, set, g.initial.filter fun s => !set.contains s, traces⟩, ?_, ?_⟩
  · rw [Verdict.judge, heval]
    rfl
  · rw [Verdict.judge, heq, heval, hrestores.initial]
    rfl

/-- Two states that lead to each other and to themselves, whose edges are drawn from the later state
first, with a call that fails in between. -/
theorem Built.toGraph_describe_knot :
    let g := Graph.ofEdits
      [.addState "b" ["q", "p"], .addState "a" [], .addEdge 1 0, .addEdge 0 0, .addEdge 0 2,
        .addEdgeByName "a" "a", .addEdge 0 1, .addEdge 1 0, .setInitial "a", .markInitial 0]
    g.Built ∧ ∃ h, g.describe.toGraph = .ok h ∧ g.Restores h ∧ h.describe = g.describe ∧
      ∀ f : Formula, ∃ verdict,
        Verdict.judge g f = .ok verdict ∧ Verdict.judge h f = .ok verdict := by
  intro g
  have hbuilt : g.Built := .inl ⟨_, rfl⟩
  exact ⟨hbuilt, Built.toGraph_describe hbuilt⟩

end ActorLogic.Graph
