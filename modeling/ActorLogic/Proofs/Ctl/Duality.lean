import ActorLogic.Proofs.Ctl.Evaluation
import ActorLogic.Proofs.StateSet.Counting
/-!
# Dual operators

A growing set and the complement of its start, shrunk by the dual way to step back, run side by
side: after every round one is the complement of the other. So both take the same rounds. The laws
between formulas follow, those of the operators that are no fixpoints from what the formulas say of
paths. None of them needs a state to have a successor.
-/

namespace ActorLogic

/-- The way to step back that the complement of a set takes. -/
def StepBack.dual : StepBack → StepBack
  | .some => .every
  | .every => .some

namespace Graph

/-- The states of the graph outside a set. -/
def outside (g : Graph) (current : Set Nat) : Set Nat := {s | s < g.size ∧ s ∉ current}

variable {g : Graph} {kind : StepBack} {s : Nat} {current : Set Nat}

/-- A state steps back from the complement in the one way if it does not step back in the other. -/
theorem mem_back_outside (h : g.Consistent) (hs : s < g.size) :
    s ∈ g.back kind.dual (g.outside current) ↔ s ∉ g.back kind current := by
  cases kind with
  | some =>
    constructor
    · rintro ⟨_, hall⟩ ⟨_, t, hst, ht⟩
      exact (hall t hst).2 ht
    · intro hnone
      exact ⟨hs, fun t hst => ⟨h.target_lt s t hst, fun ht => hnone ⟨hs, t, hst, ht⟩⟩⟩
  | every =>
    constructor
    · rintro ⟨_, t, hst, ht⟩ ⟨_, hall⟩
      exact ht.2 (hall t hst)
    · intro hnot
      by_contra hnone
      refine hnot ⟨hs, fun t hst => ?_⟩
      by_contra ht
      exact hnone ⟨hs, t, hst, h.target_lt s t hst, ht⟩

end Graph

namespace Fixpoint

open ActorLogic.Graph Result

variable {g : Graph} {kind : StepBack} {s : Nat} {current : Set Nat}

/-! ## Rounds side by side -/

namespace Settles

variable {round round' : Set Nat → Set Nat} {start final : Set Nat} {r : Nat}

/-- A map that turns the one round into the other, and does not hide a change, turns the one run
into the other. -/
theorem map {φ : Set Nat → Set Nat} (h : Settles round start final r)
    (hround : ∀ current, φ (round current) = round' (φ current))
    (hchange : ∀ current, round current ≠ current → φ (round current) ≠ φ current) :
    Settles round' (φ start) (φ final) r := by
  have hiterate : ∀ i, round'^[i] (φ start) = φ (round^[i] start) := by
    intro i
    induction i with
    | zero => rfl
    | succ i ih => rw [Function.iterate_succ_apply', Function.iterate_succ_apply', ih, hround]
  refine ⟨?_, ?_, fun i hi => ?_⟩
  · rw [hiterate, h.reached]
  · rw [← hround, h.fixed]
  · rw [hiterate, ← hround]
    exact hchange _ (h.changing i hi)

end Settles

/-- The complement of a grown set is the complement, shrunk. -/
theorem outside_widen (h : g.Consistent) (current : Set Nat) :
    g.outside (widen g kind Set.univ current) = narrow g kind.dual (g.outside current) := by
  ext s
  simp only [outside, widen, narrow, Set.mem_ofPred_eq, Set.mem_union, Set.mem_inter_iff,
    Set.mem_univ, true_and]
  constructor
  · rintro ⟨hs, hout⟩
    obtain ⟨hcur, hback⟩ := not_or.1 hout
    exact ⟨⟨hs, hcur⟩, (mem_back_outside h hs).2 hback⟩
  · rintro ⟨⟨hs, hcur⟩, hback⟩
    exact ⟨hs, not_or.2 ⟨hcur, (mem_back_outside h hs).1 hback⟩⟩

/-- Whatever joins a set leaves its complement. -/
theorem outside_widen_ne (hne : widen g kind Set.univ current ≠ current) :
    g.outside (widen g kind Set.univ current) ≠ g.outside current := by
  intro heq
  apply hne
  refine subset_antisymm ?_ Set.subset_union_left
  rintro s (hin | ⟨-, hback⟩)
  · exact hin
  · by_contra hout
    have hs : s ∈ g.outside current := ⟨lt_of_mem_back hback, hout⟩
    rw [← heq] at hs
    exact hs.2 (.inr ⟨trivial, hback⟩)

theorem Settles.dual (hg : g.Consistent) {start final : Set Nat} {r : Nat}
    (h : Settles (widen g kind Set.univ) start final r) :
    Settles (narrow g kind.dual) (g.outside start) (g.outside final) r :=
  h.map (outside_widen hg) fun _ => outside_widen_ne

/-! ## Loops side by side -/

variable {a : StateSet}

theorem members_complement (ha : a.Packed) (hsize : a.size = g.size) :
    (a.complement.members : Set Nat) = g.outside a.members := by
  ext s
  simp [outside, StateSet.mem_complement ha, hsize]

/-- The loop that grows a set and the dual loop that shrinks its complement find complements, in the
same rounds. -/
theorem least_dual (hg : g.Consistent) (kind : StepBack) (ha : a.Packed) (hsize : a.size = g.size) :
    ∃ final r, least g kind none a = .ok (final, r) ∧
      greatest g kind.dual a.complement = .ok (final.complement, r) ∧
      final.Packed ∧ final.size = g.size := by
  obtain ⟨final, r, hleast, hfinal, hfsize, hgrown⟩ := least_ok hg kind none ha hsize
  obtain ⟨other, r', hgreatest, hother, hosize, hshrunk⟩ :=
    greatest_ok hg kind.dual (StateSet.packed_complement ha) (StateSet.size_complement.trans hsize)
  have hnone : within none = Set.univ := by
    ext s
    simp [within]
  rw [hnone] at hgrown
  rw [members_complement ha hsize] at hshrunk
  obtain ⟨hmembers, rfl⟩ := (hgrown.dual hg).unique hshrunk
  rw [← members_complement hfinal hfsize] at hmembers
  have heq : final.complement = other :=
    (StateSet.packed_complement hfinal).ext hother
      ((StateSet.size_complement.trans hfsize).trans hosize.symm)
      fun s => by simpa using Set.ext_iff.1 hmembers s
  exact ⟨final, r, hleast, heq ▸ hgreatest, hfinal, hfsize⟩

/-- To hold everywhere is no condition on what joins. -/
theorem least_full (hg : g.Consistent) (kind : StepBack) (ha : a.Packed) (hsize : a.size = g.size) :
    least g kind (some g.fullSet) a = least g kind none a := by
  obtain ⟨final, r, hleast, hfinal, hfsize, hgrown⟩ := least_ok hg kind none ha hsize
  obtain ⟨other, r', hother, hopacked, hosize, hogrown⟩ :=
    least_ok hg kind (some g.fullSet) ha hsize
  have hround : widen g kind (within (some g.fullSet)) = widen g kind (within none) := by
    funext current
    refine congrArg (current ∪ ·) (Set.ext fun s => and_congr_left fun hback => ?_)
    have hlt := lt_of_mem_back hback
    simp [within, fullSet, hlt]
  rw [hround] at hogrown
  obtain ⟨hmembers, rfl⟩ := hgrown.unique hogrown
  have heq : final = other :=
    hfinal.ext hopacked (hfsize.trans hosize.symm) fun s => by
      simpa using Set.ext_iff.1 hmembers s
  rw [hleast, hother, heq]

end Fixpoint

/-! ## Laws between formulas -/

namespace Graph

variable {g : Graph} {s t : Nat} {f h : Formula}

theorem satisfies_ex_iff : g.Satisfies (.ex f) s ↔ g.Satisfies (.not (.ax (.not f))) s := by
  simp

/-- Some path stays outside the target and meets a state that is outside `f` too, or goes on outside
the target for ever: this is all that can keep every path from holding `f` until the target. -/
theorem satisfies_au_iff :
    g.Satisfies (.au f h) s ↔
      g.Satisfies (.not (.or (.eu (.not h) (.and (.not f) (.not h))) (.eg (.not h)))) s := by
  simp only [satisfies_au, satisfies_not, satisfies_or, satisfies_eu, satisfies_and, satisfies_eg,
    not_or]
  constructor
  · rintro ⟨hvisits, hstays⟩
    constructor
    · rintro ⟨n, path, hpath, ⟨hf, hh⟩, hbefore⟩
      refine hf (hstays n path hpath (fun i hi => ?_) n (Nat.le_refl n))
      rcases Nat.lt_or_eq_of_le hi with hlt | rfl
      · exact hbefore i hlt
      · exact hh
    · rintro ⟨path, hpath, hnever⟩
      obtain ⟨i, hi⟩ := hvisits path hpath
      exact hnever i hi
  · rintro ⟨hnobreak, hnoescape⟩
    constructor
    · intro path hpath
      by_contra hnever
      exact hnoescape ⟨path, hpath, fun i hi => hnever ⟨i, hi⟩⟩
    · intro n path hpath hnone i hi
      by_contra hf
      -- The path up to the state that breaks `f`.
      exact hnobreak ⟨i, path, ⟨hpath.1, fun j hj => hpath.2 j (Nat.lt_of_lt_of_le hj hi)⟩,
        ⟨hf, hnone i hi⟩, fun j hj => hnone j (Nat.le_of_lt (Nat.lt_of_lt_of_le hj hi))⟩

/-- Formulas that the same states satisfy are evaluated to the same set. -/
theorem evaluate_congr (hg : g.Consistent) (hiff : ∀ s, g.Satisfies f s ↔ g.Satisfies h s) :
    ∃ set t u, f.evaluate g = .ok (set, t) ∧ h.evaluate g = .ok (set, u) := by
  obtain ⟨a, t, ha, hf⟩ := evaluate_ok hg f
  obtain ⟨b, u, hb, hh⟩ := evaluate_ok hg h
  have heq : a = b := hf.packed.ext hh.packed (hf.size.trans hh.size.symm) fun s => by
    rw [hf.mem_iff, hh.mem_iff, hiff]
  exact ⟨a, t, u, ha, heq ▸ hb⟩

end Graph

/-! ## What an evaluation leaves behind -/

namespace Evaluator

open Fixpoint ActorLogic.Graph Result

variable {e : Evaluator} {f h : Formula} {set : StateSet} {traces : List FixpointTrace}

/-- The evaluator finds the same states for both formulas. -/
def Agree (e : Evaluator) (f h : Formula) : Prop :=
  ∃ set left right, e.sat f = .ok (set, left) ∧ e.sat h = .ok (set, right)

/-- The evaluator finds the same states for both formulas, each of which ends with a fixpoint of the
operator behind it. It records the same before these two, and the same number of rounds for them;
the sizes that it records are related. -/
def InStep (e : Evaluator) (sizes : Nat → Nat → Prop) (f : Formula) (op : FixpointOp) (h : Formula)
    (op' : FixpointOp) : Prop :=
  ∃ set before r k l,
    e.sat f = .ok (set, { e with traces := e.traces ++ (before ++ [⟨op, r, k⟩]) }) ∧
    e.sat h = .ok (set, { e with traces := e.traces ++ (before ++ [⟨op', r, l⟩]) }) ∧ sizes k l

theorem sat_eq_ok (h : f.evaluate e.graph = .ok (set, traces)) :
    e.sat f = .ok (set, { e with traces := e.traces ++ traces }) := by
  rw [sat, h]
  rfl

theorem agree_of_satisfies (hg : e.graph.Consistent)
    (hiff : ∀ s, e.graph.Satisfies f s ↔ e.graph.Satisfies h s) : e.Agree f h := by
  obtain ⟨set, t, u, hf, hh⟩ := evaluate_congr hg hiff
  exact ⟨set, _, _, sat_eq_ok hf, sat_eq_ok hh⟩

/-- With this operator the formula is evaluated by the loop, from the states of its operand. -/
def EndsWith (g : Graph) (loop : StateSet → Except GraphFault (StateSet × Nat)) (op : FixpointOp)
    (f p : Formula) : Prop :=
  ∀ {a : StateSet} {t : List FixpointTrace} {set : StateSet} {r : Nat},
    f.evaluate g = .ok (a, t) → loop a = .ok (set, r) →
    p.evaluate g = .ok (set, t ++ [⟨op, r, set.card⟩])

variable {p q : Formula} {op op' : FixpointOp} {kind : StepBack}

/-- A formula that ends with a growing loop is in step with the negation of one that ends with the
dual loop, which shrinks the complement. -/
theorem inStep_dual (hg : e.graph.Consistent)
    (hp : EndsWith e.graph (least e.graph kind none) op f p)
    (hq : EndsWith e.graph (greatest e.graph kind.dual) op' (.not f) q) :
    e.InStep (fun k l => k + l = e.graph.size) p op (.not q) op' := by
  obtain ⟨a, t, ha, hf⟩ := evaluate_ok hg f
  obtain ⟨set, r, hleast, hgreatest, hpacked, hsize⟩ := least_dual hg kind hf.packed hf.size
  have hnot := Formula.evaluate_not (hq (Formula.evaluate_not ha) hgreatest)
  rw [StateSet.complement_complement hpacked] at hnot
  exact ⟨set, t, r, _, _, sat_eq_ok (hp ha hleast), sat_eq_ok hnot,
    hsize ▸ StateSet.card_add_card_complement hpacked⟩

/-- A formula that ends with a growing loop is in step with one whose loop asks for what holds
everywhere. -/
theorem inStep_until (hg : e.graph.Consistent)
    (hp : EndsWith e.graph (least e.graph kind none) op f p)
    (hq : EndsWith e.graph (least e.graph kind (some e.graph.fullSet)) op' f q) :
    e.InStep Eq p op q op' := by
  obtain ⟨a, t, ha, hf⟩ := evaluate_ok hg f
  obtain ⟨set, r, hleast, -⟩ := least_dual hg kind hf.packed hf.size
  have hfull := (least_full hg kind hf.packed hf.size).trans hleast
  exact ⟨set, t, r, _, _, sat_eq_ok (hp ha hleast), sat_eq_ok (hq ha hfull), rfl⟩

/-- The laws that tie the operators to one another, at two operands. -/
structure Duality (e : Evaluator) (f h : Formula) : Prop where
  ex_ax : e.Agree (.ex f) (.not (.ax (.not f)))
  ef_ag : e.InStep (fun k l => k + l = e.graph.size) (.ef f) .ef (.not (.ag (.not f))) .ag
  af_eg : e.InStep (fun k l => k + l = e.graph.size) (.af f) .af (.not (.eg (.not f))) .eg
  ef_eu : e.InStep Eq (.ef f) .ef (.eu .top f) .eu
  af_au : e.InStep Eq (.af f) .af (.au .top f) .au
  au_eu_eg : e.Agree (.au f h) (.not (.or (.eu (.not h) (.and (.not f) (.not h))) (.eg (.not h))))

/-- The laws hold on every graph that can be built, whatever was evaluated before. -/
theorem sat_duality (e : Evaluator) (hbuilt : e.graph.Built) (f h : Formula) : e.Duality f h where
  ex_ax := agree_of_satisfies hbuilt.consistent fun _ => satisfies_ex_iff
  ef_ag := inStep_dual hbuilt.consistent Formula.evaluate_ef Formula.evaluate_ag
  af_eg := inStep_dual hbuilt.consistent Formula.evaluate_af Formula.evaluate_eg
  ef_eu := inStep_until hbuilt.consistent Formula.evaluate_ef
    (Formula.evaluate_eu Formula.evaluate_top)
  af_au := inStep_until hbuilt.consistent Formula.evaluate_af
    (Formula.evaluate_au Formula.evaluate_top)
  au_eu_eg := agree_of_satisfies hbuilt.consistent fun _ => satisfies_au_iff

/-- A state that can wait for ever or go to a state without successors. -/
theorem sat_duality_deadlock :
    let g := Graph.ofEdits
      [.addState "wait" ["p"], .addState "stop" ["q"], .addEdge 0 0, .addEdgeByName "wait" "stop"]
    g.Built ∧ (Evaluator.mk g []).Duality (.atom "p") (.atom "q") := by
  intro g
  have hbuilt : g.Built := .inl ⟨_, rfl⟩
  exact ⟨hbuilt, sat_duality ⟨g, []⟩ hbuilt (.atom "p") (.atom "q")⟩

end Evaluator

end ActorLogic
