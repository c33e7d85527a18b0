import ActorLogic.Ctl.Fixpoint
import ActorLogic.Proofs.Ctl.Predecessor
import Mathlib.Data.Finset.Lattice.Basic
import Mathlib.Data.Set.Lattice
import Mathlib.Logic.Function.Iterate
/-!
# What the fixpoint loops find

A round is a function on sets of states: `widen` adds the states within `hold` that step back into
the set, `narrow` keeps those that step back into it. A loop settles: its set is what the counted
number of rounds makes of the start, another round changes nothing, and each counted round did
change something. The loops look only at the predecessors of the last layer, and still take the same
rounds as if they looked at all states.
-/

namespace ActorLogic.Fixpoint

open Result ActorLogic.Graph
open scoped Classical

/-! ## Rounds -/

/-- The states within the given set, or all states. -/
def within (hold : Option StateSet) : Set Nat := {s | ∀ set ∈ hold, s ∈ set}

/-- A round of a growing set. -/
def widen (g : Graph) (kind : StepBack) (hold current : Set Nat) : Set Nat :=
  current ∪ (hold ∩ g.back kind current)

/-- A round of a shrinking set. -/
def narrow (g : Graph) (kind : StepBack) (current : Set Nat) : Set Nat :=
  current ∩ g.back kind current

/-- The counted rounds lead from the start to the final set. All of them change the set, and no more
would. -/
structure Settles (round : Set Nat → Set Nat) (start final : Set Nat) (rounds : Nat) : Prop where
  reached : round^[rounds] start = final
  fixed : round final = final
  changing : ∀ i < rounds, round (round^[i] start) ≠ round^[i] start

namespace Settles

variable {round : Set Nat → Set Nat} {start final final' : Set Nat} {rounds rounds' : Nat}

theorem stop (h : round start = start) : Settles round start start 0 :=
  ⟨rfl, h, fun _ hi => absurd hi (Nat.not_lt_zero _)⟩

/-- One more round in front. -/
theorem cons (hne : round start ≠ start) (h : Settles round (round start) final rounds) :
    Settles round start final (rounds + 1) where
  reached := h.reached
  fixed := h.fixed
  changing i hi := by
    cases i with
    | zero => exact hne
    | succ i => exact h.changing i (Nat.lt_of_succ_lt_succ hi)

/-- What holds of the start and is kept by every round holds of the final set. -/
theorem keeps {P : Set Nat → Prop} (h : Settles round start final rounds) (hstart : P start)
    (hround : ∀ current, P current → P (round current)) : P final := by
  rw [← h.reached]
  -- That no round more changes the set plays no part in this.
  generalize rounds = n
  induction n with
  | zero => exact hstart
  | succ n ih =>
    rw [Function.iterate_succ_apply']
    exact hround _ ih

/-- Where the rounds lead from a start is determined, and so is their number. -/
theorem unique (h : Settles round start final rounds)
    (h' : Settles round start final' rounds') :
    final = final' ∧ rounds = rounds' := by
  have hle : ∀ {a b : Set Nat} {m n : Nat}, Settles round start a m → Settles round start b n →
      ¬ m < n := by
    intro a b m n ha hb hlt
    -- The longer run would have changed the set that the shorter one ends with.
    have hchange := hb.changing m hlt
    rw [ha.reached] at hchange
    exact hchange ha.fixed
  have heq : rounds = rounds' :=
    Nat.le_antisymm (Nat.not_lt.1 (hle h' h)) (Nat.not_lt.1 (hle h h'))
  subst heq
  exact ⟨h.reached.symm.trans h'.reached, rfl⟩

end Settles

/-! ## Layers -/

variable {g : Graph} {kind : StepBack} {hold : Option StateSet} {set current : StateSet} {s t : Nat}

theorem addLayer_ok {states : List StateId} (hset : set.Packed)
    (hs : ∀ s ∈ states, s < set.size) (layer : List StateId) :
    ∃ next added, addLayer states set layer = .ok (next, added) ∧ next.Packed ∧
      next.size = set.size ∧ (∀ t : Nat, t ∈ next ↔ t ∈ states ∨ t ∈ set) ∧
      ∀ t : Nat, t ∈ added ↔ t ∈ layer ∨ (t ∈ states ∧ t ∉ set) := by
  induction states generalizing set layer with
  | nil => exact ⟨set, layer, rfl, hset, rfl, by simp, by simp⟩
  | cons s rest ih =>
    obtain ⟨one, hone, hpacked, hsize, hmem⟩ := StateSet.insert_ok hset (hs s (by simp))
    obtain ⟨next, added, hok, hnext, hnsize, hnmem, hadded⟩ :=
      ih hpacked (fun t ht => hsize ▸ hs t (List.mem_cons_of_mem s ht))
        (if !set.contains s then s :: layer else layer)
    refine ⟨next, added, by rw [addLayer, hone, ok_bind, ← hok], hnext, hnsize.trans hsize, ?_, ?_⟩
    · intro t
      rw [hnmem, hmem, List.mem_cons]
      tauto
    · -- A state that is listed twice is new only the first time, and in the layer once.
      intro t
      rw [hadded, hmem, List.mem_cons]
      cases hin : set.contains s <;> rcases eq_or_ne t s with rfl | hne <;> simp_all

theorem dropLayer_ok {states : List StateId} (hset : set.Packed)
    (hs : ∀ s ∈ states, s < set.size) (layer : List StateId) :
    ∃ next dropped, dropLayer states set layer = .ok (next, dropped) ∧ next.Packed ∧
      next.size = set.size ∧ (∀ t : Nat, t ∈ next ↔ t ∈ set ∧ t ∉ states) ∧
      ∀ t : Nat, t ∈ dropped ↔ t ∈ layer ∨ (t ∈ states ∧ t ∈ set) := by
  induction states generalizing set layer with
  | nil => exact ⟨set, layer, rfl, hset, rfl, by simp, by simp⟩
  | cons s rest ih =>
    obtain ⟨one, hone, hpacked, hsize, hmem⟩ := StateSet.remove_ok hset (hs s (by simp))
    obtain ⟨next, dropped, hok, hnext, hnsize, hnmem, hdropped⟩ :=
      ih hpacked (fun t ht => hsize ▸ hs t (List.mem_cons_of_mem s ht))
        (if set.contains s then s :: layer else layer)
    refine ⟨next, dropped, by rw [dropLayer, hone, ok_bind, ← hok], hnext, hnsize.trans hsize,
      ?_, ?_⟩
    · intro t
      rw [hnmem, hmem, List.mem_cons]
      tauto
    · intro t
      rw [hdropped, hmem, List.mem_cons]
      cases hin : set.contains s <;> rcases eq_or_ne t s with rfl | hne <;> simp_all

/-! ## Growing -/

/-- The states that join a growing set in its next round. -/
def joining (g : Graph) (kind : StepBack) (hold current : Set Nat) : Set Nat :=
  {s | s ∉ current ∧ s ∈ hold ∧ s ∈ g.back kind current}

theorem joins_ok (h : g.Consistent) (hs : s < g.size) :
    joins g kind hold current s =
      .ok (decide (s ∈ joining g kind (within hold) current.members)) := by
  have hall : hold.all (·.contains s) = decide (s ∈ within hold) := by
    rw [Bool.eq_iff_iff]
    cases hold <;> simp [within]
  rw [joins, stepsInto_ok h hs, hall]
  cases hin : current.contains s <;> by_cases hw : s ∈ within hold <;>
    simp_all [joining] <;> rfl

theorem mem_widen {hold current : Set Nat} :
    s ∈ widen g kind hold current ↔ s ∈ current ∨ s ∈ joining g kind hold current := by
  simp only [widen, joining, Set.mem_union, Set.mem_inter_iff, Set.mem_ofPred_eq]
  tauto

/-- A state that joins in a round steps back into what joined in the round before. -/
theorem exists_edge_of_joining {hold current : Set Nat}
    (hs : s ∈ joining g kind hold (widen g kind hold current)) :
    ∃ t, g.Edge s t ∧ t ∈ joining g kind hold current := by
  obtain ⟨hout, hhold, hback⟩ := hs
  have hstill : s ∉ g.back kind current := fun hin =>
    hout (.inr ⟨hhold, hin⟩)
  obtain ⟨t, hst, ht, hnew⟩ := exists_edge_of_mem_back hback hstill
  exact ⟨t, hst, (mem_widen.1 ht).resolve_left hnew⟩

theorem widen_ne_of_joining {hold current : Set Nat} (hs : s ∈ joining g kind hold current) :
    widen g kind hold current ≠ current :=
  fun heq => hs.1 (heq ▸ mem_widen.2 (.inr hs))

/-- A set that some state joins grows. -/
theorem card_lt_of_joining {hold : Set Nat} {next : StateSet}
    (hnext : (next.members : Set Nat) = widen g kind hold current.members)
    (hs : s ∈ joining g kind hold current.members) : current.members.card < next.members.card := by
  apply Finset.card_lt_card
  rw [← Finset.coe_ssubset, hnext]
  exact ⟨Set.subset_union_left, fun hsub => hs.1 (hsub (mem_widen.2 (.inr hs)))⟩

/-- A round adds the states that join, and they are its layer. -/
theorem addLayer_joining {new : List StateId} (hcur : current.Packed) (hsize : current.size = g.size)
    (hnew : ∀ s : Nat, s ∈ new ↔ s ∈ joining g kind (within hold) current.members) :
    ∃ next layer, addLayer new current [] = .ok (next, layer) ∧ next.Packed ∧ next.size = g.size ∧
      (next.members : Set Nat) = widen g kind (within hold) current.members ∧
      ∀ s : Nat, s ∈ layer ↔ s ∈ joining g kind (within hold) current.members := by
  have hlt : ∀ s ∈ new, s < current.size := fun s hs =>
    hsize ▸ lt_of_mem_back ((hnew s).1 hs).2.2
  obtain ⟨next, layer, hadd, hnext, hnsize, hnmem, hlayer⟩ := addLayer_ok hcur hlt []
  refine ⟨next, layer, hadd, hnext, hnsize.trans hsize, ?_, ?_⟩
  · ext s
    rw [mem_widen, ← hnew]
    simp [hnmem, or_comm]
  · intro s
    rw [hlayer, ← hnew]
    refine ⟨fun hs => (hs.resolve_left List.not_mem_nil).1, fun hs => .inr ⟨hs, ?_⟩⟩
    simpa using ((hnew s).1 hs).1

/-- While `near` has all states that join, `grow` settles. The fuel covers the states that are not
members yet. -/
theorem grow_ok (h : g.Consistent) {fuel : Nat} (rounds : Nat) {near : List StateId}
    (hcur : current.Packed) (hsize : current.size = g.size) (hlt : ∀ s ∈ near, s < g.size)
    (hnear : ∀ s, s ∈ joining g kind (within hold) current.members → s ∈ near)
    (hfuel : g.size < fuel + current.members.card) :
    ∃ final r, grow g kind hold fuel rounds current near = .ok (final, rounds + r) ∧
      final.Packed ∧ final.size = g.size ∧
      Settles (widen g kind (within hold)) current.members final.members r := by
  induction fuel generalizing current rounds near with
  | zero =>
    -- There are no more members than states, so the fuel cannot have run out.
    have := current.card_members_le
    omega
  | succ fuel ih =>
    have hjoin : near.filterM (joins g kind hold current) =
        .ok (near.filter fun s => decide (s ∈ joining g kind (within hold) current.members)) :=
      filterM_ok fun s hs => joins_ok h (hlt s hs)
    generalize hnew :
      near.filter (fun s => decide (s ∈ joining g kind (within hold) current.members)) = new at hjoin
    have hmem : ∀ s : Nat, s ∈ new ↔ s ∈ joining g kind (within hold) current.members := by
      intro s
      rw [← hnew, List.mem_filter, decide_eq_true_eq]
      exact and_iff_right_of_imp (hnear s)
    rw [grow, hjoin, ok_bind]
    cases new with
    | nil =>
      refine ⟨current, 0, rfl, hcur, hsize, .stop ?_⟩
      ext s
      rw [mem_widen, ← hmem]
      simp
    | cons first rest =>
      obtain ⟨next, layer, hadd, hnext, hnsize, hround, hlayer⟩ := addLayer_joining hcur hsize hmem
      obtain ⟨sources, hpred, hsources⟩ := predecessorsOf_ok h fun s hs =>
        lt_of_mem_back ((hlayer s).1 hs).2.2
      have hfirst := (hmem first).1 List.mem_cons_self
      -- The predecessors of the layer are all that has to be looked at next.
      have hclose : ∀ s, s ∈ joining g kind (within hold) next.members → s ∈ sources := by
        intro s hs
        rw [hround] at hs
        obtain ⟨t, hst, ht⟩ := exists_edge_of_joining hs
        exact (hsources s).2 ⟨t, (hlayer t).2 ht, hst⟩
      -- Some state joined, which pays for the fuel of the round.
      have hcard := card_lt_of_joining hround hfirst
      obtain ⟨final, r, hok, hfinal, hfsize, hsettles⟩ :=
        ih (rounds + 1) hnext hnsize (lt_of_mem_predecessorsOf h hsources) hclose (by omega)
      refine ⟨final, r + 1, ?_, hfinal, hfsize, .cons (widen_ne_of_joining hfirst) ?_⟩
      · simp only [List.isEmpty_cons, Bool.false_eq_true, if_false, hadd, ok_bind, hpred]
        rw [hok, Nat.add_right_comm, Nat.add_assoc]
      · exact hround ▸ hsettles

theorem least_ok (h : g.Consistent) (kind : StepBack) (hold : Option StateSet) {target : StateSet}
    (ht : target.Packed) (hsize : target.size = g.size) :
    ∃ final r, least g kind hold target = .ok (final, r) ∧ final.Packed ∧ final.size = g.size ∧
      Settles (widen g kind (within hold)) target.members final.members r := by
  obtain ⟨final, r, hok, hfinal⟩ := grow_ok h 0 ht hsize (fun s hs => mem_states.1 hs)
    (fun s hs => mem_states.2 (lt_of_mem_back hs.2.2)) (Nat.lt_add_right _ (Nat.lt_succ_self g.size))
  exact ⟨final, r, by rw [least, hok, Nat.zero_add], hfinal⟩

/-! ## Shrinking -/

/-- The states that leave a shrinking set in its next round. -/
def leaving (g : Graph) (kind : StepBack) (current : Set Nat) : Set Nat :=
  {s | s ∈ current ∧ s ∉ g.back kind current}

theorem leaves_ok (h : g.Consistent) (hs : s < g.size) :
    leaves g kind current s = .ok (decide (s ∈ leaving g kind current.members)) := by
  rw [leaves, stepsInto_ok h hs]
  cases hin : current.contains s with
  | true => simp_all [leaving]
  | false =>
    simp_all [leaving]
    rfl

theorem mem_narrow {current : Set Nat} :
    s ∈ narrow g kind current ↔ s ∈ current ∧ s ∉ leaving g kind current := by
  simp only [narrow, leaving, Set.mem_inter_iff, Set.mem_ofPred_eq]
  tauto

/-- A state that leaves in a round steps back into what left in the round before. -/
theorem exists_edge_of_leaving {current : Set Nat}
    (hs : s ∈ leaving g kind (narrow g kind current)) :
    ∃ t, g.Edge s t ∧ t ∈ leaving g kind current := by
  obtain ⟨hin, hback⟩ := hs
  obtain ⟨t, hst, ht, hgone⟩ := exists_edge_of_mem_back hin.2 hback
  refine ⟨t, hst, ?_⟩
  by_contra hstays
  exact hgone (mem_narrow.2 ⟨ht, hstays⟩)

theorem narrow_ne_of_leaving {current : Set Nat} (hs : s ∈ leaving g kind current) :
    narrow g kind current ≠ current := by
  intro heq
  have hin := hs.1
  rw [← heq] at hin
  exact (mem_narrow.1 hin).2 hs

/-- A set that some state leaves shrinks. -/
theorem card_lt_of_leaving {next : StateSet}
    (hnext : (next.members : Set Nat) = narrow g kind current.members)
    (hs : s ∈ leaving g kind current.members) : next.members.card < current.members.card := by
  apply Finset.card_lt_card
  rw [← Finset.coe_ssubset, hnext]
  exact ⟨Set.inter_subset_left, fun hsub => (mem_narrow.1 (hsub hs.1)).2 hs⟩

/-- A round takes away the states that leave, and they are its layer. -/
theorem dropLayer_leaving {old : List StateId} (hcur : current.Packed) (hsize : current.size = g.size)
    (hold : ∀ s : Nat, s ∈ old ↔ s ∈ leaving g kind current.members) :
    ∃ next layer, dropLayer old current [] = .ok (next, layer) ∧ next.Packed ∧ next.size = g.size ∧
      (next.members : Set Nat) = narrow g kind current.members ∧
      ∀ s : Nat, s ∈ layer ↔ s ∈ leaving g kind current.members := by
  have hin : ∀ s ∈ old, s ∈ current := fun s hs => StateSet.mem_members.1 ((hold s).1 hs).1
  obtain ⟨next, layer, hdrop, hnext, hnsize, hnmem, hlayer⟩ :=
    dropLayer_ok hcur (fun s hs => StateSet.lt_size_of_mem (hin s hs)) []
  refine ⟨next, layer, hdrop, hnext, hnsize.trans hsize, ?_, ?_⟩
  · ext s
    rw [mem_narrow, ← hold]
    simp [hnmem]
  · intro s
    rw [hlayer, ← hold]
    exact ⟨fun hs => (hs.resolve_left List.not_mem_nil).1, fun hs => .inr ⟨hs, hin s hs⟩⟩

/-- While `near` has all states that leave, `shrink` settles. The fuel covers the members. -/
theorem shrink_ok (h : g.Consistent) {fuel : Nat} (rounds : Nat) {near : List StateId}
    (hcur : current.Packed) (hsize : current.size = g.size) (hlt : ∀ s ∈ near, s < g.size)
    (hnear : ∀ s, s ∈ leaving g kind current.members → s ∈ near)
    (hfuel : current.members.card < fuel) :
    ∃ final r, shrink g kind fuel rounds current near = .ok (final, rounds + r) ∧
      final.Packed ∧ final.size = g.size ∧
      Settles (narrow g kind) current.members final.members r := by
  induction fuel generalizing current rounds near with
  | zero => exact absurd hfuel (Nat.not_lt_zero _)
  | succ fuel ih =>
    have hleave : near.filterM (leaves g kind current) =
        .ok (near.filter fun s => decide (s ∈ leaving g kind current.members)) :=
      filterM_ok fun s hs => leaves_ok h (hlt s hs)
    generalize hold :
      near.filter (fun s => decide (s ∈ leaving g kind current.members)) = old at hleave
    have hmem : ∀ s : Nat, s ∈ old ↔ s ∈ leaving g kind current.members := by
      intro s
      rw [← hold, List.mem_filter, decide_eq_true_eq]
      exact and_iff_right_of_imp (hnear s)
    rw [shrink, hleave, ok_bind]
    cases old with
    | nil =>
      refine ⟨current, 0, rfl, hcur, hsize, .stop ?_⟩
      ext s
      rw [mem_narrow, ← hmem]
      simp
    | cons first rest =>
      obtain ⟨next, layer, hdrop, hnext, hnsize, hround, hlayer⟩ := dropLayer_leaving hcur hsize hmem
      obtain ⟨sources, hpred, hsources⟩ := predecessorsOf_ok h fun s hs =>
        hsize ▸ StateSet.lt_size_of_mem (StateSet.mem_members.1 ((hlayer s).1 hs).1)
      have hfirst := (hmem first).1 List.mem_cons_self
      -- The predecessors of the layer are all that has to be looked at next.
      have hclose : ∀ s, s ∈ leaving g kind next.members → s ∈ sources := by
        intro s hs
        rw [hround] at hs
        obtain ⟨t, hst, ht⟩ := exists_edge_of_leaving hs
        exact (hsources s).2 ⟨t, (hlayer t).2 ht, hst⟩
      -- Some state left, which pays for the fuel of the round.
      have hcard := card_lt_of_leaving hround hfirst
      obtain ⟨final, r, hok, hfinal, hfsize, hsettles⟩ :=
        ih (rounds + 1) hnext hnsize (lt_of_mem_predecessorsOf h hsources) hclose (by omega)
      refine ⟨final, r + 1, ?_, hfinal, hfsize, .cons (narrow_ne_of_leaving hfirst) ?_⟩
      · simp only [List.isEmpty_cons, Bool.false_eq_true, if_false, hdrop, ok_bind, hpred]
        rw [hok, Nat.add_right_comm, Nat.add_assoc]
      · exact hround ▸ hsettles

theorem greatest_ok (h : g.Consistent) (kind : StepBack) {start : StateSet} (hs : start.Packed)
    (hsize : start.size = g.size) :
    ∃ final r, greatest g kind start = .ok (final, r) ∧ final.Packed ∧ final.size = g.size ∧
      Settles (narrow g kind) start.members final.members r := by
  have hcard : start.members.card < g.size + 1 :=
    Nat.lt_succ_of_le (hsize ▸ start.card_members_le)
  obtain ⟨final, r, hok, hfinal⟩ := shrink_ok h 0 hs hsize (fun s hs => mem_states.1 hs)
    (fun s hs => mem_states.2 (hsize ▸ StateSet.lt_size_of_mem (by simpa using hs.1))) hcard
  exact ⟨final, r, by rw [greatest, hok, Nat.zero_add], hfinal⟩

/-! ## Least and greatest sets -/

/-- The least fixpoint is part of every set that has the target and takes in whatever steps back
into it from within `hold`. -/
theorem Settles.subset_of_closed {hold target final closed : Set Nat} {r : Nat}
    (h : Settles (widen g kind hold) target final r) (htarget : target ⊆ closed)
    (hclosed : hold ∩ g.back kind closed ⊆ closed) : final ⊆ closed := by
  apply h.keeps (P := fun current => current ⊆ closed) htarget
  intro current hsub
  rintro s (hs | ⟨hhold, hback⟩)
  · exact hsub hs
  · exact hclosed ⟨hhold, back_mono hsub hback⟩

/-- A least fixpoint has its target and whatever steps back into it from within `hold`. -/
theorem Settles.closed {hold target final : Set Nat} {r : Nat}
    (h : Settles (widen g kind hold) target final r) :
    target ⊆ final ∧ hold ∩ g.back kind final ⊆ final := by
  constructor
  · exact h.keeps (P := fun current => target ⊆ current) subset_rfl
      fun current hsub => hsub.trans Set.subset_union_left
  · intro s hs
    rw [← h.fixed]
    exact .inr hs

/-- The greatest fixpoint has every part of the start that steps back into itself. -/
theorem Settles.subset_of_steady {start final steady : Set Nat} {r : Nat}
    (h : Settles (narrow g kind) start final r) (hstart : steady ⊆ start)
    (hsteady : steady ⊆ g.back kind steady) : steady ⊆ final := by
  apply h.keeps (P := fun current => steady ⊆ current) hstart
  intro current hsub
  exact Set.subset_inter hsub (hsteady.trans (back_mono hsub))

/-- A greatest fixpoint is a part of its start that steps back into itself. -/
theorem Settles.steady {start final : Set Nat} {r : Nat}
    (h : Settles (narrow g kind) start final r) :
    final ⊆ start ∧ final ⊆ g.back kind final := by
  constructor
  · exact h.keeps (P := fun current => current ⊆ start) subset_rfl
      fun current hsub => Set.inter_subset_left.trans hsub
  · intro s hs
    rw [← h.fixed] at hs
    exact hs.2

end ActorLogic.Fixpoint
