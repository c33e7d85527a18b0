import ActorLogic.Proofs.Ctl.Statistics
import ActorLogic.Proofs.StateSet.Calls
/-!
# Least and greatest sets

For any sets over a graph, a set that grows from a target ends as the least one that has the target
and takes in what steps back into it from within `hold`; a set that shrinks from a start ends as the
greatest part of the start that steps back into itself. Either is a fixpoint of its equation, and each
round that changes the set moves at least one state.
-/

namespace ActorLogic

open ActorLogic.Graph

variable {g : Graph} {kind : StepBack} {hold : Option StateSet}
  {target start set found other : StateSet} {r : Nat}

/-- A set over the states of the graph that can be built. -/
structure StateSet.Over (set : StateSet) (g : Graph) : Prop where
  built : set.Built
  size : set.size = g.size

namespace StateSet.Over

theorem of_packed (h : set.Packed) (hsize : set.size = g.size) : set.Over g :=
  ⟨built_iff_packed.2 h, hsize⟩

theorem packed (h : set.Over g) : set.Packed := h.built.packed

theorem size_eq (h : set.Over g) (h' : other.Over g) : set.size = other.size :=
  h.size.trans h'.size.symm

theorem ext_members (h : set.Over g) (h' : other.Over g)
    (hmem : (set.members : Set Nat) = other.members) : set = other :=
  h.packed.ext_members h'.packed (h.size_eq h') hmem

end StateSet.Over

namespace Fixpoint

theorem holdFits_of_over (h : ∀ set ∈ hold, set.Over g) : HoldFits g hold := fun set hset =>
  ⟨(h set hset).packed, (h set hset).size⟩

/-! ## Fixpoint equations -/

/-- A least fixpoint is its target with the states within `hold` that step back into it. -/
theorem Settles.eq_union {hold target final : Set Nat}
    (h : Settles (widen g kind hold) target final r) :
    final = target ∪ (hold ∩ g.back kind final) := by
  obtain ⟨htarget, hsteps⟩ := h.closed
  have hsub : target ∪ (hold ∩ g.back kind final) ⊆ final := Set.union_subset htarget hsteps
  -- The right side is smaller, so no more steps back into it, and it is closed as well.
  refine (h.subset_of_closed Set.subset_union_left ?_).antisymm hsub
  exact (Set.inter_subset_inter_right hold (back_mono hsub)).trans Set.subset_union_right

/-- A greatest fixpoint is what its start has of the states that step back into it. -/
theorem Settles.eq_inter {start final : Set Nat} (h : Settles (narrow g kind) start final r) :
    final = start ∩ g.back kind final := by
  obtain ⟨hstart, hsteps⟩ := h.steady
  have hsub : final ⊆ start ∩ g.back kind final := Set.subset_inter hstart hsteps
  refine hsub.antisymm (h.subset_of_steady Set.inter_subset_left ?_)
  exact Set.inter_subset_right.trans (back_mono hsub)

/-! ## Growing -/

/-- The set has the target, and the states within `hold` that step back into the set. -/
structure TakesIn (g : Graph) (kind : StepBack) (hold : Option StateSet) (target set : StateSet) :
    Prop where
  target : ∀ s : Nat, s ∈ target → s ∈ set
  steps : ∃ front, frontier g kind hold set = .ok front ∧ ∀ s : Nat, s ∈ front → s ∈ set

theorem takesIn_iff (hg : g.Consistent) (hhold : HoldFits g hold) (hset : set.Over g) :
    TakesIn g kind hold target set ↔
      (target.members : Set Nat) ⊆ set.members ∧
        within hold ∩ g.back kind set.members ⊆ set.members := by
  obtain ⟨front, hfront, -, -, hmem⟩ := frontier_ok hg kind hhold hset.packed hset.size
  have htarget : (∀ s : Nat, s ∈ target → s ∈ set) ↔ (target.members : Set Nat) ⊆ set.members := by
    simp [Set.subset_def]
  have hsteps : (∀ s : Nat, s ∈ front → s ∈ set) ↔
      within hold ∩ g.back kind set.members ⊆ set.members := by
    simp [Set.subset_def, hmem]
  rw [← htarget, ← hsteps]
  constructor
  · rintro ⟨hin, _, hfront', hsub⟩
    cases hfront.symm.trans hfront'
    exact ⟨hin, hsub⟩
  · rintro ⟨hin, hsub⟩
    exact ⟨hin, front, hfront, hsub⟩

/-- The equation of a least fixpoint, on the sets themselves. -/
theorem Settles.union_frontier (h : Settles (widen g kind (within hold)) target.members found.members r)
    (hg : g.Consistent) (hhold : HoldFits g hold) (htarget : target.Over g) (hfound : found.Over g) :
    ∃ front, frontier g kind hold found = .ok front ∧ target.union front = .ok found := by
  obtain ⟨front, hfront, hfpacked, hfsize, hfmem⟩ :=
    frontier_ok hg kind hhold hfound.packed hfound.size
  obtain ⟨joined, hjoined, hjpacked, hjsize, hjmem⟩ :=
    StateSet.union_ok htarget.packed hfpacked (htarget.size.trans hfsize.symm)
  have hjover : joined.Over g := .of_packed hjpacked (hjsize.trans htarget.size)
  obtain rfl : joined = found := hjover.ext_members hfound <| by
    rw [h.eq_union]
    ext s
    simp [hjmem, hfmem]
  exact ⟨front, hfront, hjoined⟩

/-- Every round that changes a growing set adds a state. -/
theorem Settles.card_add_le (h : Settles (widen g kind (within hold)) target.members found.members r)
    (hg : g.Consistent) (hhold : HoldFits g hold) (htarget : target.Over g) (hfound : found.Over g) :
    target.card + r ≤ found.card := by
  obtain ⟨-, hleft⟩ := repeatRound_of_settles (growRound_performs hg kind hhold) htarget.packed
    htarget.size hfound.packed hfound.size h (Nat.lt_succ_self _)
  rw [StateSet.card_eq_card_members htarget.packed, StateSet.card_eq_card_members hfound.packed]
  have hle := hfound.size ▸ found.card_members_le
  have hle' := htarget.size ▸ target.card_members_le
  omega

/-- What a set that grows from a target ends as, and the number of rounds that change it. -/
structure GrowsTo (g : Graph) (kind : StepBack) (hold : Option StateSet) (target found : StateSet)
    (rounds : Nat) : Prop where
  layers : least g kind hold target = .ok (found, rounds)
  /-- The loop over whole sets ends by itself: no limit above the number of states is felt. -/
  whole : ∀ limit op before, g.size < limit →
    (Evaluator.mk g before).grow limit op kind hold target =
      .ok (found, ⟨g, before ++ [⟨op, rounds, found.card⟩]⟩)
  overGraph : found.Over g
  takesIn : TakesIn g kind hold target found
  smallest : ∀ other : StateSet, other.Over g → TakesIn g kind hold target other →
    ∀ s : Nat, s ∈ found → s ∈ other
  fixed : ∃ front, frontier g kind hold found = .ok front ∧ target.union front = .ok found
  rounds_le : target.card + rounds ≤ found.card

theorem exists_growsTo (hg : g.Consistent) (kind : StepBack) (hhold : HoldFits g hold)
    (htarget : target.Over g) : ∃ found rounds, GrowsTo g kind hold target found rounds := by
  obtain ⟨found, r, hok, hpacked, hsize, hsettles⟩ :=
    least_ok hg kind hold htarget.packed htarget.size
  have hfound : found.Over g := .of_packed hpacked hsize
  refine ⟨found, r,
    { layers := hok
      whole := fun limit op before hlimit =>
        Evaluator.grow_of_least hg hlimit hhold htarget.packed htarget.size hok
      overGraph := hfound
      takesIn := (takesIn_iff hg hhold hfound).2 hsettles.closed
      smallest := fun other hother htakes s hs => ?_
      fixed := hsettles.union_frontier hg hhold htarget hfound
      rounds_le := hsettles.card_add_le hg hhold htarget hfound }⟩
  obtain ⟨hin, hsteps⟩ := (takesIn_iff hg hhold hother).1 htakes
  exact StateSet.mem_members.1 (hsettles.subset_of_closed hin hsteps (StateSet.mem_members.2 hs))

/-! ## Shrinking -/

/-- The set is a part of the start, and its states step back into the set. -/
structure StaysIn (g : Graph) (kind : StepBack) (start set : StateSet) : Prop where
  start : ∀ s : Nat, s ∈ set → s ∈ start
  steps : ∃ back, g.pre kind set = .ok back ∧ ∀ s : Nat, s ∈ set → s ∈ back

theorem staysIn_iff (hg : g.Consistent) (hset : set.Over g) :
    StaysIn g kind start set ↔
      (set.members : Set Nat) ⊆ start.members ∧
        (set.members : Set Nat) ⊆ g.back kind set.members := by
  obtain ⟨back, hback, -, -, hmem⟩ := g.pre_ok hg kind hset.packed hset.size
  have hstart : (∀ s : Nat, s ∈ set → s ∈ start) ↔ (set.members : Set Nat) ⊆ start.members := by
    simp [Set.subset_def]
  have hsteps : (∀ s : Nat, s ∈ set → s ∈ back) ↔
      (set.members : Set Nat) ⊆ g.back kind set.members := by
    simp [Set.subset_def, hmem]
  rw [← hstart, ← hsteps]
  constructor
  · rintro ⟨hin, _, hback', hsub⟩
    cases hback.symm.trans hback'
    exact ⟨hin, hsub⟩
  · rintro ⟨hin, hsub⟩
    exact ⟨hin, back, hback, hsub⟩

/-- The equation of a greatest fixpoint, on the sets themselves. -/
theorem Settles.intersection_pre (h : Settles (narrow g kind) start.members found.members r)
    (hg : g.Consistent) (hstart : start.Over g) (hfound : found.Over g) :
    ∃ back, g.pre kind found = .ok back ∧ start.intersection back = .ok found := by
  obtain ⟨back, hback, hbpacked, hbsize, hbmem⟩ := g.pre_ok hg kind hfound.packed hfound.size
  obtain ⟨kept, hkept, hkpacked, hksize, hkmem⟩ :=
    StateSet.intersection_ok hstart.packed hbpacked (hstart.size.trans hbsize.symm)
  have hkover : kept.Over g := .of_packed hkpacked (hksize.trans hstart.size)
  obtain rfl : kept = found := hkover.ext_members hfound <| by
    rw [h.eq_inter]
    ext s
    simp [hkmem, hbmem]
  exact ⟨back, hback, hkept⟩

/-- Every round that changes a shrinking set takes a state away. -/
theorem Settles.card_add_le_card (h : Settles (narrow g kind) start.members found.members r)
    (hg : g.Consistent) (hstart : start.Over g) (hfound : found.Over g) :
    found.card + r ≤ start.card := by
  obtain ⟨-, hleft⟩ := repeatRound_of_settles (shrinkRound_performs hg kind) hstart.packed
    hstart.size hfound.packed hfound.size h (Nat.lt_succ_self _)
  rwa [StateSet.card_eq_card_members hstart.packed, StateSet.card_eq_card_members hfound.packed]

/-- What a set that shrinks from a start ends as, and the number of rounds that change it. -/
structure ShrinksTo (g : Graph) (kind : StepBack) (start found : StateSet) (rounds : Nat) : Prop where
  layers : greatest g kind start = .ok (found, rounds)
  whole : ∀ limit op before, g.size < limit →
    (Evaluator.mk g before).shrink limit op kind start =
      .ok (found, ⟨g, before ++ [⟨op, rounds, found.card⟩]⟩)
  overGraph : found.Over g
  staysIn : StaysIn g kind start found
  largest : ∀ other : StateSet, other.Over g → StaysIn g kind start other →
    ∀ s : Nat, s ∈ other → s ∈ found
  fixed : ∃ back, g.pre kind found = .ok back ∧ start.intersection back = .ok found
  rounds_le : found.card + rounds ≤ start.card

theorem exists_shrinksTo (hg : g.Consistent) (kind : StepBack) (hstart : start.Over g) :
    ∃ found rounds, ShrinksTo g kind start found rounds := by
  obtain ⟨found, r, hok, hpacked, hsize, hsettles⟩ := greatest_ok hg kind hstart.packed hstart.size
  have hfound : found.Over g := .of_packed hpacked hsize
  refine ⟨found, r,
    { layers := hok
      whole := fun limit op before hlimit =>
        Evaluator.shrink_of_greatest hg hlimit hstart.packed hstart.size hok
      overGraph := hfound
      staysIn := (staysIn_iff hg hfound).2 hsettles.steady
      largest := fun other hother hstays s hs => ?_
      fixed := hsettles.intersection_pre hg hstart hfound
      rounds_le := hsettles.card_add_le_card hg hstart hfound }⟩
  obtain ⟨hin, hsteps⟩ := (staysIn_iff hg hother).1 hstays
  exact StateSet.mem_members.1 (hsettles.subset_of_steady hin hsteps (StateSet.mem_members.2 hs))

/-! ## Both loops -/

/-- On a graph that can be built, from any sets over it and for both ways to step back, the one loop
ends with a least set and the other with a greatest one. -/
theorem extremal (hg : g.Built) (kind : StepBack) :
    (∀ (hold : Option StateSet) (target : StateSet), (∀ set ∈ hold, set.Over g) → target.Over g →
      ∃ found rounds, GrowsTo g kind hold target found rounds) ∧
    ∀ start : StateSet, start.Over g → ∃ found rounds, ShrinksTo g kind start found rounds :=
  ⟨fun _ _ hhold htarget => exists_growsTo hg.consistent kind (holdFits_of_over hhold) htarget,
    fun _ hstart => exists_shrinksTo hg.consistent kind hstart⟩

/-- A state with a loop and a way out, and a detour that is not held. -/
theorem extremal_detour :
    let g := Graph.ofEdits
      [.addState "loop" [], .addState "detour" [], .addState "goal" [], .addEdge 0 0, .addEdge 0 1,
        .addEdge 1 2, .addEdge 0 2]
    let hold := (StateSet.operations.runAll [.empty 3 0, .insert 0 0]).2 0
    let target := (StateSet.operations.runAll [.empty 3 0, .insert 0 2]).2 0
    let start := (StateSet.operations.runAll [.empty 3 0, .extend 0 [0, 1]]).2 0
    g.Built ∧ (∀ set ∈ some hold, set.Over g) ∧ target.Over g ∧ start.Over g ∧
      (∃ found rounds, GrowsTo g .some (some hold) target found rounds) ∧
      ∃ found rounds, ShrinksTo g .every start found rounds := by
  intro g hold target start
  have hbuilt : g.Built := .inl ⟨_, rfl⟩
  have hsize : g.size = 3 := by
    change (Graph.ofEdits _).size = 3
    cbv
  have hheld : hold.Over g := ⟨⟨_, _, rfl⟩, hsize.symm⟩
  have htarget : target.Over g := ⟨⟨_, _, rfl⟩, hsize.symm⟩
  have hstart : start.Over g := ⟨⟨_, _, rfl⟩, hsize.symm⟩
  have hhold : ∀ set ∈ some hold, set.Over g := fun _ hset => Option.mem_some_iff.1 hset ▸ hheld
  exact ⟨hbuilt, hhold, htarget, hstart, (extremal hbuilt .some).1 _ _ hhold htarget,
    (extremal hbuilt .every).2 _ hstart⟩

end Fixpoint

end ActorLogic
