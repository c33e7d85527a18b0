import ActorLogic.Proofs.StateSet.Commands
import ActorLogic.Proofs.StateSet.Counting
import Mathlib.Algebra.Order.Floor.Div
import Mathlib.Data.Finset.Lattice.Lemmas
import Mathlib.Data.List.TakeWhile
/-!
# Packed sets against finite sets

A packed set does what a finite set of numbers does: every sequence of commands gets the same answers
from both, and leaves in every place words that are exactly as many as the universe needs, with a one
for each member and zeros past the universe. So nothing that a command tells depends on how a set was
built.
-/

namespace ActorLogic

/-! ## Plain sets -/

/-- A set of numbers below `size`, without words. -/
@[ext] structure PlainSet where
  size : Nat
  members : Finset Nat
  inside : members ⊆ Finset.range size

namespace SetJoin

def onMembers : SetJoin → Finset Nat → Finset Nat → Finset Nat
  | .union, x, y => x ∪ y
  | .intersection, x, y => x ∩ y
  | .difference, x, y => x \ y

theorem onMembers_subset (how : SetJoin) {x y all : Finset Nat} (hx : x ⊆ all) (hy : y ⊆ all) :
    how.onMembers x y ⊆ all := by
  cases how with
  | union => exact Finset.union_subset hx hy
  | intersection => exact Finset.inter_subset_left.trans hx
  | difference => exact Finset.sdiff_subset.trans hx

end SetJoin

namespace PlainSet

variable {x next : PlainSet} {s : Nat} {b : Bool} {f : GraphFault} {rest : List StateId}

def insert (x : PlainSet) (s : StateId) : Except GraphFault (PlainSet × Bool) :=
  if h : s < x.size then
    .ok (⟨x.size, {s} ∪ x.members,
      Finset.union_subset (Finset.singleton_subset_iff.2 (Finset.mem_range.2 h)) x.inside⟩,
      s ∉ x.members)
  else .error (.outsideSet s x.size)

def remove (x : PlainSet) (s : StateId) : Except GraphFault (PlainSet × Bool) :=
  if s < x.size then
    .ok (⟨x.size, x.members.erase s, (Finset.erase_subset s x.members).trans x.inside⟩,
      s ∈ x.members)
  else .error (.outsideSet s x.size)

/-- The states before the first one outside the universe. -/
def fitting (x : PlainSet) (states : List StateId) : List StateId := states.takeWhile (· < x.size)

theorem toFinset_fitting_subset (x : PlainSet) (states : List StateId) :
    (x.fitting states).toFinset ⊆ Finset.range x.size := by
  intro s hs
  have hlt := List.mem_takeWhile_imp (List.mem_toFinset.1 hs)
  simpa using hlt

/-- Add the states before the first one outside the universe, which is the fault. -/
def extend (x : PlainSet) (states : List StateId) : PlainSet × Option GraphFault :=
  (⟨x.size, (x.fitting states).toFinset ∪ x.members,
    Finset.union_subset (x.toFinset_fitting_subset states) x.inside⟩,
    (states.find? (x.size ≤ ·)).map (.outsideSet · x.size))

theorem extend_of_inserted (h : x.insert s = .ok (next, b)) :
    x.extend (s :: rest) = next.extend rest := by
  unfold insert at h
  split at h
  · next hs =>
    cases h
    refine Prod.ext (PlainSet.ext rfl ?_) ?_
    · simp only [extend, fitting, List.takeWhile_cons, hs, decide_true, if_true,
        List.toFinset_cons, Finset.insert_eq]
      rw [Finset.union_left_comm, Finset.union_assoc]
    · simp [extend, hs]
  · cases h

theorem extend_of_refused (h : x.insert s = .error f) : x.extend (s :: rest) = (x, some f) := by
  unfold insert at h
  split at h
  · cases h
  · next hs =>
    cases h
    refine Prod.ext (PlainSet.ext rfl ?_) ?_
    · simp [extend, fitting, hs]
    · simp [extend, Nat.not_lt.1 hs]

def joined (how : SetJoin) (x y : PlainSet) (h : x.size = y.size) : PlainSet :=
  ⟨x.size, how.onMembers x.members y.members, how.onMembers_subset x.inside (h ▸ y.inside)⟩

def joinWith (how : SetJoin) (x y : PlainSet) : Except GraphFault (PlainSet × Bool) :=
  if h : x.size = y.size then
    .ok (joined how x y h, how.onMembers x.members y.members ≠ x.members)
  else .error .differentUniverses

/-- The operations on finite sets of numbers. -/
def operations : SetOperations PlainSet where
  empty n := ⟨n, ∅, Finset.empty_subset _⟩
  full n := ⟨n, Finset.range n, Finset.Subset.refl _⟩
  insert := insert
  remove := remove
  extend := extend
  joinWith := joinWith
  join how x y :=
    if h : x.size = y.size then .ok (joined how x y h) else .error .differentUniverses
  complement x := ⟨x.size, Finset.range x.size \ x.members, Finset.sdiff_subset⟩
  contains x s := s ∈ x.members
  isEmpty x := x.members = ∅
  isSubset x y :=
    if x.size = y.size then .ok (x.members ⊆ y.members) else .error .differentUniverses
  equal x y := x.size = y.size ∧ x.members = y.members

end PlainSet

namespace StateSet

/-- The operations on packed words. -/
def operations : SetOperations StateSet where
  empty := empty
  full := full
  insert := insert
  remove := remove
  extend := extend
  joinWith
    | .union => unionWith
    | .intersection => intersectWith
    | .difference => differenceWith
  join
    | .union => union
    | .intersection => intersection
    | .difference => difference
  complement := complement
  contains := contains
  isEmpty := isEmpty
  isSubset := isSubset
  equal := (· == ·)

/-! ## What the words hold -/

/-- The words are those of the plain set: just enough for the universe, a one for each member, and
zeros past the universe. -/
structure Packs (set : StateSet) (x : PlainSet) : Prop where
  size : set.size = x.size
  words_size : set.words.size = x.size ⌈/⌉ 64
  bit : ∀ s, set.bit s = decide (s ∈ x.members)
  tail : ∀ s, x.size ≤ s → set.bit s = false

variable {set other : StateSet} {x y : PlainSet} {s : Nat}

theorem packs_of_packed (h : set.Packed) (hsize : set.size = x.size)
    (hmem : ∀ s, s ∈ set ↔ s ∈ x.members) : set.Packs x where
  size := hsize
  words_size := by rw [h.words_size, hsize, wordCount, Nat.ceilDiv_eq_add_pred_div]; rfl
  bit s := by rw [Bool.eq_iff_iff, ← mem_iff_bit h, hmem, decide_eq_true_iff]
  tail s hs := h.tail s (hsize ▸ hs)

namespace Packs

theorem packed (h : set.Packs x) : set.Packed where
  words_size := by rw [h.words_size, h.size, wordCount, Nat.ceilDiv_eq_add_pred_div]; rfl
  tail s hs := h.tail s (h.size ▸ hs)

theorem mem_iff (h : set.Packs x) : s ∈ set ↔ s ∈ x.members := by
  rw [mem_iff_bit h.packed, h.bit, decide_eq_true_iff]

theorem contains_eq (h : set.Packs x) (s : Nat) : set.contains s = decide (s ∈ x.members) := by
  rw [Bool.eq_iff_iff, contains_iff, h.mem_iff, decide_eq_true_iff]

/-- Sets are equal if they pack the same. -/
theorem eq_iff (h : set.Packs x) (h' : other.Packs y) :
    set = other ↔ x.size = y.size ∧ x.members = y.members := by
  constructor
  · rintro rfl
    exact ⟨h.size.symm.trans h'.size, Finset.ext fun s => h.mem_iff.symm.trans h'.mem_iff⟩
  · rintro ⟨hsize, hmembers⟩
    refine h.packed.ext h'.packed (by rw [h.size, hsize, h'.size]) fun s => ?_
    rw [h.mem_iff, h'.mem_iff, hmembers]

end Packs

theorem isEmpty_iff_bit : set.isEmpty = true ↔ ∀ s, set.bit s = false := by
  rw [isEmpty, Array.all_eq_true]
  constructor
  · intro h s
    by_cases hs : s / 64 < set.words.size
    · simp [bit, hs, beq_iff_eq.1 (h _ hs)]
    · simp [bit, hs]
  · intro h i hi
    rw [beq_iff_eq]
    apply BitVec.eq_of_getLsbD_eq
    intro j hj
    have hbit := h (64 * i + j)
    rw [← getLsbD_word hj] at hbit
    simpa [hi] using hbit

theorem Packs.isEmpty_eq (h : set.Packs x) : set.isEmpty = decide (x.members = ∅) := by
  rw [Bool.eq_iff_iff, isEmpty_iff_bit, decide_eq_true_iff, Finset.eq_empty_iff_forall_notMem]
  simp [h.bit]

/-! ## Operations on one set -/

theorem packs_insert (h : set.Packs x) (s : Nat) :
    SetOperations.AlikeChange Packs (set.insert s) (x.insert s) := by
  by_cases hs : s < x.size
  · obtain ⟨grown, hok, hpacked, hsize, hmem⟩ := insert_ok h.packed (h.size ▸ hs)
    rw [hok, PlainSet.insert, dif_pos hs]
    refine ⟨packs_of_packed hpacked (hsize.trans h.size) fun t => ?_, ?_⟩
    · rw [hmem, h.mem_iff, Finset.mem_union, Finset.mem_singleton]
    · rw [h.contains_eq, ← decide_not]
  · rw [PlainSet.insert, dif_neg hs, insert, if_neg (h.size ▸ hs), h.size]
    rfl

theorem packs_remove (h : set.Packs x) (s : Nat) :
    SetOperations.AlikeChange Packs (set.remove s) (x.remove s) := by
  by_cases hs : s < x.size
  · obtain ⟨left, hok, hpacked, hsize, hmem⟩ := remove_ok h.packed (h.size ▸ hs)
    rw [hok, PlainSet.remove, if_pos hs]
    refine ⟨packs_of_packed hpacked (hsize.trans h.size) fun t => ?_, h.contains_eq s⟩
    rw [hmem, h.mem_iff, Finset.mem_erase, and_comm]
  · rw [PlainSet.remove, if_neg hs, remove, if_neg (h.size ▸ hs), h.size]
    rfl

/-- Two extensions go on as long as states fit, and stop with the same fault. -/
theorem packs_extend (h : set.Packs x) (states : List StateId) :
    (set.extend states).1.Packs (x.extend states).1 ∧
      (set.extend states).2 = (x.extend states).2 := by
  induction states generalizing set x with
  | nil =>
    have hnil : x.extend [] = (x, none) := by simp [PlainSet.extend, PlainSet.fitting]
    rw [hnil]
    exact ⟨h, rfl⟩
  | cons s rest ih =>
    have hfirst := packs_insert h s
    rw [extend]
    cases hx : x.insert s with
    | ok plain =>
      obtain ⟨next, b⟩ := plain
      cases hset : set.insert s with
      | ok result =>
        rw [hset, hx] at hfirst
        rw [PlainSet.extend_of_inserted hx]
        exact ih hfirst.1
      | error f =>
        rw [hset, hx] at hfirst
        exact hfirst.elim
    | error f =>
      cases hset : set.insert s with
      | ok result =>
        rw [hset, hx] at hfirst
        exact hfirst.elim
      | error f' =>
        rw [hset, hx] at hfirst
        obtain rfl : f' = f := hfirst
        rw [PlainSet.extend_of_refused hx]
        exact ⟨h, rfl⟩

theorem packs_empty (n : Nat) : (empty n).Packs (PlainSet.operations.empty n) :=
  packs_of_packed packed_empty rfl fun s => by simp [PlainSet.operations]

theorem packs_full (n : Nat) : (full n).Packs (PlainSet.operations.full n) :=
  packs_of_packed packed_full size_full fun s => by simp [PlainSet.operations]

theorem packs_complement (h : set.Packs x) :
    set.complement.Packs (PlainSet.operations.complement x) := by
  refine packs_of_packed (packed_complement h.packed) (size_complement.trans h.size) fun s => ?_
  simp [mem_complement h.packed, h.size, h.mem_iff, PlainSet.operations]

/-! ## Operations on two sets -/

/-- A word-by-word join whose bits follow the members joins the sets, and notices every change. -/
theorem packs_combine {how : SetJoin} {f : BitVec 64 → BitVec 64 → BitVec 64}
    {b : Bool → Bool → Bool}
    (hf : ∀ u v j, j < 64 → (f u v).getLsbD j = b (u.getLsbD j) (v.getLsbD j))
    (hb : b false false = false)
    (hmem : ∀ (x y : Finset Nat) s,
      s ∈ how.onMembers x y ↔ b (decide (s ∈ x)) (decide (s ∈ y)) = true)
    (h : set.Packs x) (h' : other.Packs y) :
    SetOperations.AlikeChange Packs (combine f set other) (x.joinWith how y) := by
  by_cases hsize : x.size = y.size
  · obtain ⟨joined, hok, hpacked, hjsize, hbit⟩ :=
      combine_ok hf hb h.packed h'.packed (by rw [h.size, hsize, h'.size])
    have hpacks : joined.Packs (x.joined how y hsize) := by
      refine packs_of_packed hpacked (hjsize.trans h.size) fun s => ?_
      rw [mem_iff_bit hpacked, hbit, h.bit, h'.bit, ← hmem]
      rfl
    have hwords : joined.words = set.words ↔ joined = set := by
      constructor
      · exact fun heq => by cases joined; cases set; simp_all
      · exact fun heq => heq ▸ rfl
    rw [hok, PlainSet.joinWith, dif_pos hsize]
    refine ⟨hpacks, ?_⟩
    rw [Bool.eq_iff_iff, bne_iff_ne, ne_eq, hwords, hpacks.eq_iff h, decide_eq_true_iff]
    exact not_congr (and_iff_right rfl)
  · rw [PlainSet.joinWith, dif_neg hsize, combine, if_neg (by rwa [h.size, h'.size])]
    rfl

theorem packs_joinWith (how : SetJoin) (h : set.Packs x) (h' : other.Packs y) :
    SetOperations.AlikeChange Packs (operations.joinWith how set other) (x.joinWith how y) := by
  cases how with
  | union => exact packs_combine (b := or) (by simp) rfl (by simp [SetJoin.onMembers]) h h'
  | intersection => exact packs_combine (b := and) (by simp) rfl (by simp [SetJoin.onMembers]) h h'
  | difference =>
    refine packs_combine (b := fun p q => p && !q) (fun u v j hj => ?_) rfl
      (by simp [SetJoin.onMembers]) h h'
    simp [hj]

/-- The join into a new set is the join in place, without the word on whether anything changed. -/
theorem join_eq_map (how : SetJoin) (set other : StateSet) :
    operations.join how set other = (operations.joinWith how set other).map (·.1) := by
  cases how <;> rfl

theorem plain_join_eq_map (how : SetJoin) (x y : PlainSet) :
    PlainSet.operations.join how x y = (x.joinWith how y).map (·.1) := by
  by_cases h : x.size = y.size
  · simp only [PlainSet.operations, PlainSet.joinWith, dif_pos h]
    rfl
  · simp only [PlainSet.operations, PlainSet.joinWith, dif_neg h]
    rfl

theorem packs_join (how : SetJoin) (h : set.Packs x) (h' : other.Packs y) :
    SetOperations.Alike Packs (operations.join how set other)
      (PlainSet.operations.join how x y) := by
  have hboth := packs_joinWith how h h'
  rw [join_eq_map, plain_join_eq_map]
  match operations.joinWith how set other, x.joinWith how y, hboth with
  | .ok _, .ok _, hok => exact hok.1
  | .error _, .error _, hf => exact hf

/-- A set is a part of another if nothing is left when the other is taken away. -/
theorem isSubset_of_difference {left : StateSet} (h : set.difference other = .ok left) :
    set.isSubset other = .ok left.isEmpty := by
  unfold difference differenceWith combine at h
  split at h
  · next hsize =>
    cases h
    rw [isSubset, if_pos hsize]
    rfl
  · cases h

theorem isSubset_eq (h : set.Packs x) (h' : other.Packs y) :
    set.isSubset other = PlainSet.operations.isSubset x y := by
  by_cases hsize : x.size = y.size
  · have hplain : PlainSet.operations.join .difference x y =
        .ok (x.joined .difference y hsize) := dif_pos hsize
    have hboth : SetOperations.Alike Packs (set.difference other)
        (PlainSet.operations.join .difference x y) := packs_join .difference h h'
    rw [hplain] at hboth
    match hleft : set.difference other, hboth with
    | .ok left, hpacks =>
      have hempty : left.isEmpty = _ := Packs.isEmpty_eq hpacks
      rw [isSubset_of_difference hleft, hempty]
      simp only [PlainSet.operations, if_pos hsize, PlainSet.joined, SetJoin.onMembers,
        Finset.sdiff_eq_empty_iff_subset]
  · simp only [PlainSet.operations, if_neg hsize]
    rw [isSubset, if_neg (by rwa [h.size, h'.size])]

/-- The plain set with the members of a set. -/
def plain (set : StateSet) : PlainSet := ⟨set.size, set.members, Finset.filter_subset _ _⟩

theorem packs_plain (h : set.Packed) : set.Packs set.plain :=
  packs_of_packed h rfl fun _ => mem_members.symm

theorem isSubset_iff (h : set.Packed) (ho : other.Packed) :
    set.isSubset other = .ok true ↔ set.size = other.size ∧ ∀ s : Nat, s ∈ set → s ∈ other := by
  rw [isSubset_eq (packs_plain h) (packs_plain ho)]
  by_cases hsize : set.size = other.size
  · simp [PlainSet.operations, plain, hsize, Finset.subset_iff]
  · simp [PlainSet.operations, plain, hsize]

/-! ## Sequences of commands -/

/-- Packed sets answer every command as the sets that they pack, and go on to pack them. -/
theorem operations_refines : SetOperations.Refines Packs operations PlainSet.operations where
  empty := packs_empty
  full := packs_full
  insert _ _ s h := packs_insert h s
  remove _ _ s h := packs_remove h s
  extend _ _ states h := packs_extend h states
  joinWith how _ _ _ _ h h' := packs_joinWith how h h'
  join how _ _ _ _ h h' := packs_join how h h'
  complement _ _ h := packs_complement h
  contains _ _ s h := h.contains_eq s
  isEmpty _ _ h := h.isEmpty_eq
  isSubset _ _ _ _ h h' := isSubset_eq h h'
  equal _ _ _ _ h h' := by
    rw [Bool.eq_iff_iff]
    simpa [operations, PlainSet.operations] using h.eq_iff h'

/-- The set is found in some place after some commands. -/
def Built (set : StateSet) : Prop := ∃ commands place, set = (operations.runAll commands).2 place

theorem Built.packed (h : set.Built) : set.Packed := by
  obtain ⟨commands, place, rfl⟩ := h
  exact ((operations_refines.run (fun _ => packs_empty 0) commands).2 place).packed

/-- Every sequence of commands, begun with empty sets, is answered as on finite sets of numbers, and
leaves sets that pack the finite ones. One command more that is stopped changes no set; an extension
alone keeps what it keeps of a finite set, the states before the fault. -/
theorem runAll_refines (commands : List SetCommand) :
    (operations.runAll commands).1 = (PlainSet.operations.runAll commands).1 ∧
      (∀ place, ((operations.runAll commands).2 place).Packs
        ((PlainSet.operations.runAll commands).2 place)) ∧
      operations.Unharmed (operations.runAll commands).2 := by
  have hstart : ∀ _ : Nat, (operations.empty 0).Packs (PlainSet.operations.empty 0) :=
    fun _ => packs_empty 0
  obtain ⟨hanswers, hsets⟩ := operations_refines.run hstart commands
  exact ⟨hanswers, hsets, SetOperations.unharmed operations _⟩

end StateSet

end ActorLogic
