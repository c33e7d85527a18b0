import ActorLogic.Ctl.Statistics
import ActorLogic.Proofs.Ctl.Rounds
/-!
# What the statistics record

A loop that repeats a whole round ends by itself: every round before the last one takes something off
what is left to do, and what is left to do is at most the number of states. So any limit above that
number is as good as none, and the check on the number of rounds passes. What the loop finds is
what the loop over layers finds, with the same number of rounds, because a start settles in one way
only. From there on the evaluator that carries its statistics along agrees, operator by operator,
with the one that puts them together in the end.
-/

namespace ActorLogic

open Result

/-! ## Rounds -/

theorem Graph.pre_ok {g : Graph} {set : StateSet} (hg : g.Consistent) (kind : StepBack)
    (hset : set.Packed) (hsize : set.size = g.size) :
    ∃ found, g.pre kind set = .ok found ∧ found.Packed ∧ found.size = g.size ∧
      ∀ s : Nat, s ∈ found ↔ s ∈ g.back kind set.members := by
  cases kind with
  | some => exact preSome_ok hg hset hsize
  | every => exact preEvery_ok hg set

namespace Fixpoint

variable {g : Graph} {kind : StepBack} {hold : Option StateSet} {current start target set : StateSet}
  {round : StateSet → Except GraphFault (StateSet × Bool)} {step : Set Nat → Set Nat}
  {left : StateSet → Nat} {limit r : Nat}

/-- On the sets over the graph the round never stops with a fault. It does the step to the members,
tells whether that changed the set, and if so less is left to do. -/
def Performs (g : Graph) (round : StateSet → Except GraphFault (StateSet × Bool))
    (step : Set Nat → Set Nat) (left : StateSet → Nat) : Prop :=
  ∀ current : StateSet, current.Packed → current.size = g.size →
    ∃ next, round current = .ok (next, decide (next ≠ current)) ∧ next.Packed ∧
      next.size = g.size ∧ (next.members : Set Nat) = step current.members ∧
      (next ≠ current → left next < left current)

/-- The set given to hold lies over the graph. -/
def HoldFits (g : Graph) (hold : Option StateSet) : Prop :=
  ∀ set ∈ hold, set.Packed ∧ set.size = g.size

theorem frontier_ok (hg : g.Consistent) (kind : StepBack) (hhold : HoldFits g hold)
    (hcur : current.Packed) (hsize : current.size = g.size) :
    ∃ front, frontier g kind hold current = .ok front ∧ front.Packed ∧ front.size = g.size ∧
      ∀ s : Nat, s ∈ front ↔ s ∈ within hold ∩ g.back kind current.members := by
  obtain ⟨back, hback, hpacked, hbsize, hmem⟩ := g.pre_ok hg kind hcur hsize
  cases hold with
  | none =>
    refine ⟨back, by rw [frontier, hback]; rfl, hpacked, hbsize, ?_⟩
    intro s
    rw [hmem]
    simp [within]
  | some set =>
    obtain ⟨hset, hssize⟩ := hhold set rfl
    obtain ⟨front, hfront, hfpacked, hfsize, hfmem⟩ :=
      StateSet.intersection_ok hpacked hset (hbsize.trans hssize.symm)
    refine ⟨front, by rw [frontier, hback]; exact hfront, hfpacked, hfsize.trans hbsize, ?_⟩
    intro s
    rw [hfmem, hmem]
    simp [within, and_comm]

/-- Sets of which one is part of the other differ in their number of members, if they differ. -/
theorem card_lt_of_ne {small large : StateSet} (hsmall : small.Packed) (hlarge : large.Packed)
    (hsize : small.size = large.size) (hsub : small.members ⊆ large.members)
    (hne : small ≠ large) : small.members.card < large.members.card := by
  refine Finset.card_lt_card (Finset.ssubset_iff_subset_ne.2 ⟨hsub, fun heq => hne ?_⟩)
  exact hsmall.ext_members hlarge hsize (congrArg _ heq)

/-- A growing set is left with the states that are not members yet. -/
theorem growRound_performs (hg : g.Consistent) (kind : StepBack) (hhold : HoldFits g hold) :
    Performs g (growRound g kind hold) (widen g kind (within hold))
      fun set => g.size - set.members.card := by
  intro current hcur hsize
  obtain ⟨front, hfront, hfpacked, hfsize, hfmem⟩ := frontier_ok hg kind hhold hcur hsize
  obtain ⟨next, hnext, hpacked, hnsize, hmem⟩ :=
    StateSet.unionWith_ok hcur hfpacked (hsize.trans hfsize.symm)
  refine ⟨next, by rw [growRound, hfront, ok_bind, hnext], hpacked, hnsize.trans hsize, ?_, ?_⟩
  · ext s
    simp [widen, hmem, hfmem]
  · intro hne
    have hsub : current.members ⊆ next.members := fun s hs =>
      StateSet.mem_members.2 ((hmem s).2 (.inl (StateSet.mem_members.1 hs)))
    have hlt := card_lt_of_ne hcur hpacked hnsize.symm hsub hne.symm
    have hle := next.card_members_le
    dsimp only
    omega

/-- A shrinking set is left with its members. -/
theorem shrinkRound_performs (hg : g.Consistent) (kind : StepBack) :
    Performs g (shrinkRound g kind) (narrow g kind) fun set => set.members.card := by
  intro current hcur hsize
  obtain ⟨keep, hkeep, hkpacked, hksize, hkmem⟩ := g.pre_ok hg kind hcur hsize
  obtain ⟨next, hnext, hpacked, hnsize, hmem⟩ :=
    StateSet.intersectWith_ok hcur hkpacked (hsize.trans hksize.symm)
  refine ⟨next, by rw [shrinkRound, hkeep, ok_bind, hnext], hpacked, hnsize.trans hsize, ?_, ?_⟩
  · ext s
    simp [narrow, hmem, hkmem]
  · intro hne
    exact card_lt_of_ne hpacked hcur hnsize
      (fun s hs => StateSet.mem_members.2 ((hmem s).1 (StateSet.mem_members.1 hs)).1) hne

/-! ## Loops -/

/-- A loop with a limit above what is left to do settles, and every counted round took something
off. -/
theorem repeatRound_ok (hround : Performs g round step left) (rounds : Nat)
    (hcur : current.Packed) (hsize : current.size = g.size) (hlimit : left current < limit) :
    ∃ final r, repeatRound round limit rounds current = .ok (final, rounds + r) ∧ final.Packed ∧
      final.size = g.size ∧ Settles step current.members final.members r ∧
      left final + r ≤ left current := by
  induction limit generalizing current rounds with
  | zero => exact absurd hlimit (Nat.not_lt_zero _)
  | succ limit ih =>
    obtain ⟨next, hnext, hpacked, hnsize, hmem, hless⟩ := hround current hcur hsize
    rw [repeatRound, hnext, ok_bind]
    by_cases heq : next = current
    · subst heq
      exact ⟨next, 0, if_neg (by simp), hcur, hsize, .stop hmem.symm, Nat.le_refl _⟩
    · have hlt := hless heq
      obtain ⟨final, r, hok, hfinal, hfsize, hsettles, hleft⟩ :=
        ih (rounds + 1) hpacked hnsize (by omega)
      have hne : step current.members ≠ current.members := fun h =>
        heq (hpacked.ext_members hcur (hnsize.trans hsize.symm) (hmem.trans h))
      refine ⟨final, r + 1, ?_, hfinal, hfsize, .cons hne (hmem ▸ hsettles), by omega⟩
      simp only [heq, ne_eq, not_false_eq_true, decide_true, if_true, hok]
      rw [Nat.add_right_comm, Nat.add_assoc]

/-- Where the rounds are known to settle, the loop gets there. -/
theorem repeatRound_of_settles (hround : Performs g round step left) (hstart : start.Packed)
    (hsize : start.size = g.size) (hset : set.Packed) (hssize : set.size = g.size)
    (h : Settles step start.members set.members r) (hlimit : left start < limit) :
    repeatRound round limit 0 start = .ok (set, r) ∧ left set + r ≤ left start := by
  obtain ⟨final, r', hok, hfinal, hfsize, hsettles, hleft⟩ := repeatRound_ok hround 0 hstart hsize hlimit
  obtain ⟨hmem, rfl⟩ := hsettles.unique h
  obtain rfl := hfinal.ext_members hset (hfsize.trans hssize.symm) hmem
  exact ⟨by rw [hok, Nat.zero_add], hleft⟩

/-- Whole rounds find what the layers find, and take as many rounds. -/
theorem repeatRound_of_least (hg : g.Consistent) (hhold : HoldFits g hold) (htarget : target.Packed)
    (hsize : target.size = g.size) (hlimit : g.size < limit)
    (hok : least g kind hold target = .ok (set, r)) :
    repeatRound (growRound g kind hold) limit 0 target = .ok (set, r) ∧ r ≤ g.size := by
  obtain ⟨set', r', hok', hset, hssize, hsettles⟩ := least_ok hg kind hold htarget hsize
  cases hok.symm.trans hok'
  obtain ⟨hrun, hleft⟩ := repeatRound_of_settles (growRound_performs hg kind hhold) htarget hsize hset
    hssize hsettles (Nat.lt_of_le_of_lt (Nat.sub_le _ _) hlimit)
  exact ⟨hrun, by omega⟩

theorem repeatRound_of_greatest (hg : g.Consistent) (hstart : start.Packed)
    (hsize : start.size = g.size) (hlimit : g.size < limit)
    (hok : greatest g kind start = .ok (set, r)) :
    repeatRound (shrinkRound g kind) limit 0 start = .ok (set, r) ∧ r ≤ g.size := by
  obtain ⟨set', r', hok', hset, hssize, hsettles⟩ := greatest_ok hg kind hstart hsize
  cases hok.symm.trans hok'
  have hcard : start.members.card ≤ g.size := hsize ▸ start.card_members_le
  obtain ⟨hrun, hleft⟩ := repeatRound_of_settles (shrinkRound_performs hg kind) hstart hsize hset
    hssize hsettles (Nat.lt_of_le_of_lt hcard hlimit)
  exact ⟨hrun, by omega⟩

end Fixpoint

/-! ## Formulas -/

namespace Graph

open Fixpoint

variable {g : Graph} {f p : Formula} {a set : StateSet} {traces : List FixpointTrace}
  {op : FixpointOp} {kind : StepBack} {hold : Option StateSet} {r : Nat}

/-- The trace is what the statistics keep of a fixpoint: its operator, no more rounds than there are
states, and the number of states that the formula is found to hold at. -/
structure Records (g : Graph) (f : Formula) (t : FixpointTrace) : Prop where
  operator : operatorOf? f = some t.operator
  rounds_le : t.rounds ≤ g.size
  resultSize : ∃ set, f.sat g = .ok set ∧ t.resultSize = set.members.card

/-- A fixpoint is recorded behind its operands. -/
theorem records_concat {formulas : List Formula} (hg : g.Consistent)
    (hbefore : List.Forall₂ g.Records formulas traces)
    (hok : p.evaluate g = .ok (set, traces ++ [⟨op, r, set.card⟩])) (hop : operatorOf? p = some op)
    (hr : r ≤ g.size) :
    List.Forall₂ g.Records (formulas ++ [p]) (traces ++ [⟨op, r, set.card⟩]) := by
  refine List.rel_append hbefore (.cons ⟨hop, hr, set, ?_, ?_⟩ .nil)
  · rw [Formula.sat, hok, ok_map]
  · exact StateSet.card_eq_card_members (denotes_of_evaluate hg hok).packed

theorem Denotes.holdFits (h : g.Denotes f set) : HoldFits g (some set) := by
  rintro _ ⟨⟩
  exact ⟨h.packed, h.size⟩

theorem holdFits_none : HoldFits g none := nofun

theorem rounds_le_of_least (hg : g.Consistent) (hhold : HoldFits g hold) (hf : g.Denotes f a)
    (hok : least g kind hold a = .ok (set, r)) : r ≤ g.size :=
  (repeatRound_of_least hg hhold hf.packed hf.size (Nat.lt_succ_self g.size) hok).2

theorem rounds_le_of_greatest (hg : g.Consistent) (hf : g.Denotes f a)
    (hok : greatest g kind a = .ok (set, r)) : r ≤ g.size :=
  (repeatRound_of_greatest hg hf.packed hf.size (Nat.lt_succ_self g.size) hok).2

/-- Evaluation records the fixpoints in their order. -/
theorem evaluate_records (hg : g.Consistent) (hok : f.evaluate g = .ok (set, traces)) :
    List.Forall₂ g.Records f.fixpoints traces := by
  induction f generalizing set traces with
  | top | bot =>
    cases hok
    exact .nil
  | atom name =>
    obtain ⟨a, -, hend⟩ := bind_eq_ok.1 hok
    cases hend
    exact .nil
  | not f ih =>
    obtain ⟨⟨a, t⟩, ha, hend⟩ := bind_eq_ok.1 hok
    cases hend
    exact ih ha
  | ex f ih | ax f ih =>
    obtain ⟨⟨a, t⟩, ha, hrest⟩ := bind_eq_ok.1 hok
    obtain ⟨b, -, hend⟩ := bind_eq_ok.1 hrest
    cases hend
    exact ih ha
  | and f h ihf ihh | or f h ihf ihh =>
    obtain ⟨⟨a, t⟩, ha, hrest⟩ := bind_eq_ok.1 hok
    obtain ⟨⟨b, u⟩, hb, hrest⟩ := bind_eq_ok.1 hrest
    obtain ⟨c, -, hend⟩ := bind_eq_ok.1 hrest
    cases hend
    exact List.rel_append (ihf ha) (ihh hb)
  | ef f ih | af f ih =>
    obtain ⟨⟨a, t⟩, ha, hrest⟩ := bind_eq_ok.1 hok
    obtain ⟨⟨b, r⟩, hleast, hend⟩ := bind_eq_ok.1 hrest
    cases hend
    exact records_concat hg (ih ha) hok rfl
      (rounds_le_of_least hg holdFits_none (denotes_of_evaluate hg ha) hleast)
  | eg f ih | ag f ih =>
    obtain ⟨⟨a, t⟩, ha, hrest⟩ := bind_eq_ok.1 hok
    obtain ⟨⟨b, r⟩, hgreatest, hend⟩ := bind_eq_ok.1 hrest
    cases hend
    exact records_concat hg (ih ha) hok rfl
      (rounds_le_of_greatest hg (denotes_of_evaluate hg ha) hgreatest)
  | eu f h ihf ihh | au f h ihf ihh =>
    obtain ⟨⟨a, t⟩, ha, hrest⟩ := bind_eq_ok.1 hok
    obtain ⟨⟨b, u⟩, hb, hrest⟩ := bind_eq_ok.1 hrest
    obtain ⟨⟨c, r⟩, hleast, hend⟩ := bind_eq_ok.1 hrest
    cases hend
    exact records_concat hg (List.rel_append (ihf ha) (ihh hb)) hok rfl
      (rounds_le_of_least hg (denotes_of_evaluate hg ha).holdFits (denotes_of_evaluate hg hb) hleast)

end Graph

/-! ## Evaluators -/

namespace Evaluator

open Fixpoint ActorLogic.Graph

variable {g : Graph} {f h : Formula} {a b set : StateSet} {before traces : List FixpointTrace}
  {op : FixpointOp} {kind : StepBack} {hold : Option StateSet} {limit r : Nat}

theorem record_ok (hr : r ≤ g.size) :
    (mk g before).record op (set, r) = .ok (set, ⟨g, before ++ [⟨op, r, set.card⟩]⟩) :=
  if_pos hr

theorem grow_of_least (hg : g.Consistent) (hlimit : g.size < limit) (hhold : HoldFits g hold)
    (ha : a.Packed) (hsize : a.size = g.size) (hok : least g kind hold a = .ok (set, r)) :
    (mk g before).grow limit op kind hold a = .ok (set, ⟨g, before ++ [⟨op, r, set.card⟩]⟩) := by
  obtain ⟨hrun, hr⟩ := repeatRound_of_least hg hhold ha hsize hlimit hok
  rw [grow, hrun, ok_bind, record_ok hr]

theorem shrink_of_greatest (hg : g.Consistent) (hlimit : g.size < limit) (ha : a.Packed)
    (hsize : a.size = g.size) (hok : greatest g kind a = .ok (set, r)) :
    (mk g before).shrink limit op kind a = .ok (set, ⟨g, before ++ [⟨op, r, set.card⟩]⟩) := by
  obtain ⟨hrun, hr⟩ := repeatRound_of_greatest hg ha hsize hlimit hok
  rw [shrink, hrun, ok_bind, record_ok hr]

/-- With the statistics in hand the same set is found, and the traces are put behind those that are
there. -/
theorem run_of_evaluate (hg : g.Consistent) (hlimit : g.size < limit)
    (hok : f.evaluate g = .ok (set, traces)) :
    run limit f ⟨g, before⟩ = .ok (set, ⟨g, before ++ traces⟩) := by
  induction f generalizing set traces before with
  | top | bot =>
    cases hok
    rw [List.append_nil]
    rfl
  | atom name =>
    obtain ⟨a, ha, hend⟩ := bind_eq_ok.1 hok
    cases hend
    rw [List.append_nil]
    exact bind_eq_ok.2 ⟨_, ha, rfl⟩
  | not f ih =>
    obtain ⟨⟨a, t⟩, ha, hend⟩ := bind_eq_ok.1 hok
    cases hend
    exact bind_eq_ok.2 ⟨_, ih ha, rfl⟩
  | ex f ih | ax f ih =>
    obtain ⟨⟨a, t⟩, ha, hrest⟩ := bind_eq_ok.1 hok
    obtain ⟨b, hb, hend⟩ := bind_eq_ok.1 hrest
    cases hend
    exact bind_eq_ok.2 ⟨_, ih ha, bind_eq_ok.2 ⟨_, hb, rfl⟩⟩
  | and f h ihf ihh | or f h ihf ihh =>
    obtain ⟨⟨a, t⟩, ha, hrest⟩ := bind_eq_ok.1 hok
    obtain ⟨⟨b, u⟩, hb, hrest⟩ := bind_eq_ok.1 hrest
    obtain ⟨c, hc, hend⟩ := bind_eq_ok.1 hrest
    cases hend
    rw [← List.append_assoc]
    exact bind_eq_ok.2 ⟨_, ihf ha, bind_eq_ok.2 ⟨_, ihh hb, bind_eq_ok.2 ⟨_, hc, rfl⟩⟩⟩
  | ef f ih | af f ih =>
    obtain ⟨⟨a, t⟩, ha, hrest⟩ := bind_eq_ok.1 hok
    obtain ⟨⟨b, r⟩, hleast, hend⟩ := bind_eq_ok.1 hrest
    cases hend
    have hdenotes := denotes_of_evaluate hg ha
    rw [← List.append_assoc]
    exact bind_eq_ok.2 ⟨_, ih ha,
      grow_of_least hg hlimit holdFits_none hdenotes.packed hdenotes.size hleast⟩
  | eg f ih | ag f ih =>
    obtain ⟨⟨a, t⟩, ha, hrest⟩ := bind_eq_ok.1 hok
    obtain ⟨⟨b, r⟩, hgreatest, hend⟩ := bind_eq_ok.1 hrest
    cases hend
    have hdenotes := denotes_of_evaluate hg ha
    rw [← List.append_assoc]
    exact bind_eq_ok.2 ⟨_, ih ha,
      shrink_of_greatest hg hlimit hdenotes.packed hdenotes.size hgreatest⟩
  | eu f h ihf ihh | au f h ihf ihh =>
    obtain ⟨⟨a, t⟩, ha, hrest⟩ := bind_eq_ok.1 hok
    obtain ⟨⟨b, u⟩, hb, hrest⟩ := bind_eq_ok.1 hrest
    obtain ⟨⟨c, r⟩, hleast, hend⟩ := bind_eq_ok.1 hrest
    cases hend
    have hdenotes := denotes_of_evaluate hg hb
    rw [← List.append_assoc, ← List.append_assoc]
    exact bind_eq_ok.2 ⟨_, ihf ha, bind_eq_ok.2 ⟨_, ihh hb,
      grow_of_least hg hlimit (denotes_of_evaluate hg ha).holdFits hdenotes.packed hdenotes.size
        hleast⟩⟩

/-- Formulas that each put their traces behind what is there do so one after the other. -/
theorem evaluateAll_ok {step : Formula → Evaluator → Except GraphFault (StateSet × Evaluator)}
    {formulas : List Formula} {found : List Traced}
    (hstep : List.Forall₂ (fun f one => ∀ before,
      step f ⟨g, before⟩ = .ok (one.1, ⟨g, before ++ one.2⟩)) formulas found) :
    evaluateAll step formulas ⟨g, before⟩ =
      .ok (found.map (·.1), ⟨g, before ++ found.flatMap (·.2)⟩) := by
  induction hstep generalizing before with
  | nil =>
    rw [List.flatMap_nil, List.append_nil]
    rfl
  | cons hf _ ih =>
    rw [List.flatMap_cons, ← List.append_assoc]
    exact bind_eq_ok.2 ⟨_, hf before, bind_eq_ok.2 ⟨_, ih, rfl⟩⟩

/-- What a formula gives by itself: a set over the graph, and a record of each of its fixpoints,
operands first and from left to right. -/
structure Answers (limit : Nat) (g : Graph) (f : Formula) (found : Traced) : Prop where
  size : found.1.size = g.size
  alone : run limit f ⟨g, []⟩ = .ok (found.1, ⟨g, found.2⟩)
  records : List.Forall₂ g.Records f.fixpoints found.2

theorem answers_of_evaluate (hg : g.Consistent) (hlimit : g.size < limit)
    (hok : f.evaluate g = .ok (set, traces)) : Answers limit g f (set, traces) where
  size := (denotes_of_evaluate hg hok).size
  alone := run_of_evaluate hg hlimit hok
  records := evaluate_records hg hok

/-- However many formulas are evaluated on one evaluator, each gives what it gives by itself, and its
records are put behind those of the formulas before. No step stops with a fault, and no loop needs a
limit; the evaluator that looks at layers only does the same. -/
theorem evaluateAll_records (e : Evaluator) (hbuilt : e.graph.Built) {limit : Nat}
    (hlimit : e.graph.size < limit) (formulas : List Formula) :
    ∃ found : List Traced, List.Forall₂ (Answers limit e.graph) formulas found ∧
      evaluateAll (run limit) formulas e =
        .ok (found.map (·.1), { e with traces := e.traces ++ found.flatMap (·.2) }) ∧
      evaluateAll (fun f e => e.sat f) formulas e =
        .ok (found.map (·.1), { e with traces := e.traces ++ found.flatMap (·.2) }) := by
  obtain ⟨g, before⟩ := e
  have hg := hbuilt.consistent
  choose set traces hok _ using fun f => evaluate_ok hg f
  refine ⟨formulas.map fun f => (set f, traces f), ?_, evaluateAll_ok ?_, evaluateAll_ok ?_⟩
  · exact List.forall₂_map_right_iff.2 (List.forall₂_same.2 fun f _ =>
      answers_of_evaluate hg hlimit (hok f))
  · exact List.forall₂_map_right_iff.2 (List.forall₂_same.2 fun f _ before =>
      run_of_evaluate hg hlimit (hok f))
  · exact List.forall₂_map_right_iff.2 (List.forall₂_same.2 fun f _ before => sat_eq_ok (hok f))

/-- Two formulas on a ring of two states with a way out of it: one with an operator of two operands
that are fixpoints themselves, and one that shrinks a set. -/
theorem evaluateAll_records_ring :
    let g := Graph.ofEdits
      [.addState "a" ["p"], .addState "b" ["p"], .addState "c" ["q"], .addEdge 0 1, .addEdge 1 0,
        .addEdgeByName "b" "c"]
    let formulas : List Formula :=
      [.au (.ef (.atom "q")) (.not (.eu (.atom "p") (.af (.atom "q")))), .ag (.eg (.atom "p"))]
    let e : Evaluator := ⟨g, [⟨.ef, 1, 2⟩]⟩
    g.Built ∧ g.size < g.size + 1 ∧
      ∃ found : List Traced, List.Forall₂ (Answers (g.size + 1) g) formulas found ∧
        evaluateAll (run (g.size + 1)) formulas e =
          .ok (found.map (·.1), { e with traces := e.traces ++ found.flatMap (·.2) }) ∧
        evaluateAll (fun f e => e.sat f) formulas e =
          .ok (found.map (·.1), { e with traces := e.traces ++ found.flatMap (·.2) }) := by
  intro g formulas e
  have hbuilt : g.Built := .inl ⟨_, rfl⟩
  have hlimit : g.size < g.size + 1 := Nat.lt_succ_self g.size
  exact ⟨hbuilt, hlimit, evaluateAll_records e hbuilt hlimit formulas⟩

end Evaluator

end ActorLogic
