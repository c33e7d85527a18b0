import ActorLogic.Proofs.StateSet.Members
/-!
# Equal sets, and the number of members

Two packed sets over one universe are equal as soon as they have the same members. The bits that are
set, counted word by word, are as many as the members, so that a set and its complement together
count the universe.
-/

namespace ActorLogic.StateSet

variable {set other : StateSet} {s n : Nat}

/-! ## Equality -/

theorem getLsbD_word {j : Nat} (hj : j < 64) (i : Nat) :
    (set.words.getD i 0#64).getLsbD j = set.bit (64 * i + j) := by
  rw [bit, show (64 * i + j) / 64 = i by omega, show (64 * i + j) % 64 = j by omega]

theorem Packed.ext (h : set.Packed) (ho : other.Packed) (hsize : set.size = other.size)
    (hmem : ∀ s : Nat, s ∈ set ↔ s ∈ other) : set = other := by
  have hbit : ∀ s : Nat, set.bit s = other.bit s := by
    intro s
    rw [Bool.eq_iff_iff, ← mem_iff_bit h, ← mem_iff_bit ho]
    exact hmem s
  have hwords : set.words = other.words := by
    apply Array.ext
    · rw [h.words_size, ho.words_size, hsize]
    · intro i hi hi'
      apply BitVec.eq_of_getLsbD_eq
      intro j hj
      have hword : (set.words.getD i 0#64).getLsbD j = (other.words.getD i 0#64).getLsbD j := by
        rw [getLsbD_word hj, getLsbD_word hj, hbit]
      simpa [hi, hi'] using hword
  cases set
  cases other
  simp_all

theorem Packed.ext_members (h : set.Packed) (ho : other.Packed) (hsize : set.size = other.size)
    (hmem : (set.members : Set Nat) = other.members) : set = other :=
  h.ext ho hsize fun s => by rw [← mem_members, ← mem_members, Finset.coe_injective hmem]

theorem complement_complement (h : set.Packed) : set.complement.complement = set := by
  refine (packed_complement (packed_complement h)).ext h ?_ fun s => ?_
  · rw [size_complement, size_complement]
  · rw [mem_complement (packed_complement h), mem_complement h, size_complement]
    have hlt : s ∈ set → s < set.size := lt_size_of_mem
    tauto

/-! ## Counting -/

/-- The bits of a list of words, counted word by word, are those counted place by place. -/
theorem foldr_countOnes (words : List (BitVec 64)) :
    words.foldr (fun w n => countOnes w + n) 0 =
      (List.range (64 * words.length)).countP
        fun s => (words.getD (s / 64) 0#64).getLsbD (s % 64) := by
  induction words with
  | nil => rfl
  | cons w rest ih =>
    rw [List.foldr_cons, ih, List.length_cons,
      show 64 * (rest.length + 1) = 64 + 64 * rest.length by omega, List.range_add,
      List.countP_append, List.countP_map, countOnes]
    refine congrArg₂ (· + ·) ?_ ?_
    · apply List.countP_congr
      intro s hs
      have hlt : s < 64 := List.mem_range.1 hs
      simp [Nat.div_eq_of_lt hlt, Nat.mod_eq_of_lt hlt]
    · apply List.countP_congr
      intro s _
      simp

theorem card_members (set : StateSet) :
    set.members.card = (List.range set.size).countP (· ∈ set) :=
  (List.countP_eq_length_filter ..).symm

theorem card_eq_card_members (h : set.Packed) : set.card = set.members.card := by
  have hle : set.size ≤ 64 * set.words.toList.length := by
    rw [Array.length_toList, h.words_size, wordCount]
    omega
  obtain ⟨k, hk⟩ := Nat.exists_eq_add_of_le hle
  -- Past the universe there is nothing to count.
  have hpast : ∀ s ∈ (List.range k).map (set.size + ·), ¬ set.bit s = true := by
    intro s hs
    obtain ⟨j, -, rfl⟩ := List.mem_map.1 hs
    simp [h.tail _ (Nat.le_add_right set.size j)]
  have hcount : set.card = (List.range (64 * set.words.toList.length)).countP set.bit := by
    rw [card, foldr_countOnes]
    apply List.countP_congr
    intro s _
    simp [bit]
  rw [hcount, hk, List.range_add, List.countP_append, List.countP_eq_zero.2 hpast, Nat.add_zero,
    card_members]
  apply List.countP_congr
  intro s _
  rw [decide_eq_true_eq, mem_iff_bit h]

/-- A set and its complement share the universe out. -/
theorem card_add_card_complement (h : set.Packed) : set.card + set.complement.card = set.size := by
  have hout : set.complement.members = (Finset.range set.size).filter (· ∉ set) := by
    ext s
    simp [mem_complement h]
  rw [card_eq_card_members h, card_eq_card_members (packed_complement h), hout, members,
    Finset.card_filter_add_card_filter_not, Finset.card_range]

end ActorLogic.StateSet
