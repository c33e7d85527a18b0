import ActorLogic.Proofs.Result
import ActorLogic.StateSet
import Mathlib.Data.Finset.Card
import Mathlib.Data.Finset.Range
/-!
# Members of state sets

What the operations on packed words do to the members of a set. Every set that the operations build
is packed: it has one bit for each state of its universe, rounded up to whole words, and the bits
past the universe are zero. On packed sets membership can be read off the words alone.
-/

namespace ActorLogic.StateSet

open Result

/-- The bit of a state, whatever the universe. -/
def bit (set : StateSet) (s : Nat) : Bool := (set.words.getD (s / 64) 0#64).getLsbD (s % 64)

/-- The words fit the universe, and nothing is set past it. -/
structure Packed (set : StateSet) : Prop where
  words_size : set.words.size = wordCount set.size
  tail : ∀ s : Nat, set.size ≤ s → set.bit s = false

instance : Membership Nat StateSet := ⟨fun set s => set.contains s = true⟩

variable {set other : StateSet} {s t n : Nat}

instance : Decidable (s ∈ set) := inferInstanceAs (Decidable (set.contains s = true))

theorem lt_size_of_mem (h : s ∈ set) : s < set.size := by
  change set.contains s = true at h
  simp only [contains, Bool.and_eq_true, decide_eq_true_eq] at h
  exact h.1

theorem mem_iff_bit (h : set.Packed) : s ∈ set ↔ set.bit s = true := by
  change set.contains s = true ↔ _
  rcases Nat.lt_or_ge s set.size with hs | hs
  · simp [contains, bit, hs]
  · simp [contains, Nat.not_lt.2 hs, h.tail s hs]

@[simp] theorem contains_iff : set.contains s = true ↔ s ∈ set := Iff.rfl

@[simp] theorem contains_eq_false_iff : set.contains s = false ↔ s ∉ set := by
  rw [← contains_iff, Bool.not_eq_true]

theorem contains_eq_decide : set.contains s = decide (s ∈ set) := by
  rw [Bool.eq_iff_iff, contains_iff, decide_eq_true_iff]

/-- The members as a finite set of numbers. -/
def members (set : StateSet) : Finset Nat := (Finset.range set.size).filter (· ∈ set)

@[simp] theorem mem_members : s ∈ set.members ↔ s ∈ set := by
  simp only [members, Finset.mem_filter, Finset.mem_range, and_iff_right_iff_imp]
  exact lt_size_of_mem

theorem card_members_le : set.members.card ≤ set.size := by
  simpa [members] using Finset.card_filter_le (Finset.range set.size) (· ∈ set)

/-! ## Single bits -/

theorem div_lt_wordCount (h : s < n) : s / 64 < wordCount n := by
  unfold wordCount; omega

theorem getLsbD_mask (s j : Nat) : (mask s).getLsbD j = decide (j = s % 64) := by
  rw [mask, ← BitVec.twoPow_eq, BitVec.getLsbD_twoPow]
  have := Nat.mod_lt s (by decide : 64 > 0)
  simp [this, eq_comm]

theorem bit_modify (f : BitVec 64 → BitVec 64) {i : Nat} (hi : i < set.words.size) :
    bit { set with words := set.words.modify i f } t =
      if t / 64 = i then (f (set.words.getD i 0#64)).getLsbD (t % 64) else set.bit t := by
  simp only [bit, Array.getD_eq_getD_getElem?, Array.getElem?_modify]
  by_cases h : i = t / 64
  · subst h
    simp [hi]
  · simp [h, Ne.symm h]

/-- Inserting a state of the universe adds it and nothing else, and tells whether it is new. -/
theorem insert_ok (h : set.Packed) (hs : s < set.size) :
    ∃ grown, set.insert s = .ok (grown, !set.contains s) ∧ grown.Packed ∧ grown.size = set.size ∧
      ∀ t : Nat, t ∈ grown ↔ t = s ∨ t ∈ set := by
  have hword : s / 64 < set.words.size := h.words_size ▸ div_lt_wordCount hs
  let grown : StateSet := { set with words := set.words.modify (s / 64) (· ||| mask s) }
  have hbit : ∀ t : Nat, grown.bit t = (decide (t = s) || set.bit t) := by
    intro t
    -- Only the word of the state is written, and in it only the bit of the state.
    rw [show grown.bit t = _ from bit_modify _ hword]
    by_cases heq : t / 64 = s / 64
    · have : t % 64 = s % 64 ↔ t = s := by omega
      simp [heq, BitVec.getLsbD_or, getLsbD_mask, bit, this, Bool.or_comm]
    · have : t ≠ s := fun h => heq (h ▸ rfl)
      simp [heq, this]
  have hpacked : grown.Packed := by
    refine ⟨by simp [grown, h.words_size], ?_⟩
    intro t ht
    have : t ≠ s := by simp only [grown] at ht; omega
    simp [hbit, this, h.tail t ht]
  refine ⟨grown, by simp [insert, hs, grown], hpacked, rfl, ?_⟩
  intro t
  simp [mem_iff_bit hpacked, mem_iff_bit h, hbit]

/-- Removing a state of the universe takes it away and nothing else, and tells whether it was
there. -/
theorem remove_ok (h : set.Packed) (hs : s < set.size) :
    ∃ left, set.remove s = .ok (left, set.contains s) ∧ left.Packed ∧ left.size = set.size ∧
      ∀ t : Nat, t ∈ left ↔ t ∈ set ∧ t ≠ s := by
  have hword : s / 64 < set.words.size := h.words_size ▸ div_lt_wordCount hs
  let left : StateSet := { set with words := set.words.modify (s / 64) (· &&& ~~~(mask s)) }
  have hbit : ∀ t : Nat, left.bit t = (set.bit t && decide (t ≠ s)) := by
    intro t
    rw [show left.bit t = _ from bit_modify _ hword]
    by_cases heq : t / 64 = s / 64
    · have hiff : t % 64 = s % 64 ↔ t = s := by omega
      have hlt : t % 64 < 64 := Nat.mod_lt _ (by decide)
      simp only [heq, if_true, BitVec.getLsbD_and, BitVec.getLsbD_not, getLsbD_mask, bit, hiff, hlt,
        decide_true, Bool.true_and, ne_eq, decide_not]
    · have : t ≠ s := fun h => heq (h ▸ rfl)
      simp [heq, this]
  have hpacked : left.Packed := by
    refine ⟨by simp [left, h.words_size], ?_⟩
    intro t ht
    simp [hbit, h.tail t ht]
  refine ⟨left, by simp [remove, hs, left], hpacked, rfl, ?_⟩
  intro t
  simp [mem_iff_bit hpacked, mem_iff_bit h, hbit]

/-! ## The last word -/

/-- The mask that keeps the first `k` bits of a word. -/
theorem getLsbD_low_mask {k j : Nat} (hk : k < 64) (hj : j < 64) :
    ((1#64 <<< k) - 1#64).getLsbD j = decide (j < k) := by
  have h : (1#64 <<< k) - 1#64 = BitVec.ofNat 64 (2 ^ k - 1) := by
    have hlt : 2 ^ k < 2 ^ 64 := Nat.pow_lt_pow_right (by decide) hk
    -- The power is not zero, so that taking one away does not wrap around.
    have hpos : 0 < 2 ^ k := Nat.two_pow_pos k
    apply BitVec.eq_of_toNat_eq
    rw [← BitVec.twoPow_eq, BitVec.toNat_sub]
    simp only [BitVec.toNat_twoPow, BitVec.toNat_ofNat]
    omega
  rw [h, BitVec.getLsbD_ofNat, Nat.testBit_two_pow_sub_one]
  simp [hj]

theorem size_clearTail : set.clearTail.size = set.size := by
  unfold clearTail
  dsimp only
  split <;> rfl

theorem bit_clearTail (hw : set.words.size = wordCount set.size) :
    set.clearTail.bit t = (decide (t < set.size) && set.bit t) := by
  unfold clearTail
  by_cases h0 : set.size % 64 = 0
  · -- The universe ends with a word, and nothing has to be cleared.
    simp only [h0, if_true]
    by_cases ht : t < set.size
    · simp [ht]
    · have : ¬ t / 64 < set.words.size := by rw [hw, wordCount]; omega
      simp [bit, ht, this]
  · simp only [h0, if_false]
    have hlast : set.words.size - 1 < set.words.size := by rw [hw, wordCount]; omega
    rw [bit_modify _ hlast]
    by_cases heq : t / 64 = set.words.size - 1
    · have hiff : t % 64 < set.size % 64 ↔ t < set.size := by rw [hw, wordCount] at heq; omega
      have hlt : t % 64 < 64 := Nat.mod_lt _ (by decide)
      have hkept := getLsbD_low_mask (Nat.mod_lt set.size (by decide)) hlt
      simp only [heq, if_true, BitVec.getLsbD_and, hkept, hiff, bit, Bool.and_comm]
    · -- The words before the last one lie in the universe, those behind it are none.
      by_cases ht : t < set.size
      · simp [heq, ht]
      · have : ¬ t / 64 < set.words.size := by rw [hw, wordCount] at heq ⊢; omega
        simp [heq, ht, bit, this]

theorem packed_clearTail (hw : set.words.size = wordCount set.size) : set.clearTail.Packed := by
  refine ⟨?_, ?_⟩
  · rw [size_clearTail, ← hw]
    unfold clearTail
    dsimp only
    split <;> simp
  · intro t ht
    rw [size_clearTail] at ht
    simp [bit_clearTail hw, Nat.not_lt.2 ht]

theorem mem_clearTail (hw : set.words.size = wordCount set.size) :
    t ∈ set.clearTail ↔ t < set.size ∧ set.bit t = true := by
  simp [mem_iff_bit (packed_clearTail hw), bit_clearTail hw]

/-! ## Whole words -/

@[simp] theorem size_empty : (empty n).size = n := rfl

theorem bit_empty : (empty n).bit t = false := by
  have : ((Array.replicate (wordCount n) 0#64).getD (t / 64) 0#64) = 0#64 := by
    by_cases h : t / 64 < wordCount n <;> simp [h]
  simp only [bit, empty, this, BitVec.getLsbD_zero]

theorem packed_empty : (empty n).Packed := ⟨by simp [empty], fun _ _ => bit_empty⟩

@[simp] theorem not_mem_empty : t ∉ empty n := by simp [mem_iff_bit packed_empty, bit_empty]

@[simp] theorem size_full : (full n).size = n := size_clearTail

theorem packed_full : (full n).Packed := packed_clearTail (by simp)

@[simp] theorem mem_full : t ∈ full n ↔ t < n := by
  rw [full, mem_clearTail (by simp)]
  apply and_iff_left_of_imp
  intro (ht : t < n)
  have hword : (Array.replicate (wordCount n) (BitVec.allOnes 64)).getD (t / 64) 0#64
      = BitVec.allOnes 64 := by
    simp [div_lt_wordCount ht]
  simp only [bit, hword, BitVec.getLsbD_allOnes, decide_eq_true_eq]
  exact Nat.mod_lt t (by decide)

@[simp] theorem size_complement : set.complement.size = set.size := size_clearTail

theorem packed_complement (h : set.Packed) : set.complement.Packed :=
  packed_clearTail (by simp [h.words_size])

theorem mem_complement (h : set.Packed) : t ∈ set.complement ↔ t < set.size ∧ t ∉ set := by
  rw [complement, mem_clearTail (by simp [h.words_size])]
  apply and_congr_right
  intro ht
  have hword : t / 64 < set.words.size := h.words_size ▸ div_lt_wordCount ht
  simp [mem_iff_bit h, bit, hword, Nat.mod_lt]

/-- Joining two sets of one universe word by word joins their bits, if the join keeps zeros. -/
theorem combine_ok {f : BitVec 64 → BitVec 64 → BitVec 64} {b : Bool → Bool → Bool}
    (hf : ∀ u v j, j < 64 → (f u v).getLsbD j = b (u.getLsbD j) (v.getLsbD j))
    (hb : b false false = false) (h : set.Packed) (ho : other.Packed)
    (hsize : set.size = other.size) :
    ∃ joined, combine f set other = .ok (joined, joined.words != set.words) ∧ joined.Packed ∧
      joined.size = set.size ∧ ∀ t : Nat, joined.bit t = b (set.bit t) (other.bit t) := by
  let joined : StateSet := { set with words := Array.zipWith f set.words other.words }
  have hwords : other.words.size = set.words.size := by rw [h.words_size, ho.words_size, hsize]
  have hbit : ∀ t : Nat, joined.bit t = b (set.bit t) (other.bit t) := by
    intro t
    by_cases ht : t / 64 < set.words.size
    · have hlt : t % 64 < 64 := Nat.mod_lt _ (by decide)
      simp [bit, joined, ht, hwords, hf _ _ _ hlt]
    · -- Past the words, two zeros are joined.
      simp [bit, joined, ht, hwords, hb]
  have hpacked : joined.Packed := by
    refine ⟨by simp [joined, hwords, h.words_size], ?_⟩
    intro t ht
    rw [hbit, h.tail t ht, ho.tail t (hsize ▸ ht), hb]
  exact ⟨joined, by simp [combine, hsize, joined], hpacked, rfl, hbit⟩

/-- Sets over one universe differ as soon as their words do. -/
theorem words_bne (hsize : other.size = set.size) :
    (other.words != set.words) = decide (other ≠ set) := by
  have hiff : other.words ≠ set.words ↔ other ≠ set := by
    cases set
    cases other
    cases hsize
    simp
  rw [Bool.eq_iff_iff, bne_iff_ne, decide_eq_true_eq]
  exact hiff

theorem unionWith_ok (h : set.Packed) (ho : other.Packed) (hsize : set.size = other.size) :
    ∃ joined, set.unionWith other = .ok (joined, decide (joined ≠ set)) ∧ joined.Packed ∧
      joined.size = set.size ∧ ∀ t : Nat, t ∈ joined ↔ t ∈ set ∨ t ∈ other := by
  obtain ⟨joined, hok, hpacked, hs, hbit⟩ :=
    combine_ok (f := fun a b => a ||| b) (b := or) (by simp) rfl h ho hsize
  refine ⟨joined, words_bne hs ▸ hok, hpacked, hs, ?_⟩
  intro t
  simp [mem_iff_bit hpacked, mem_iff_bit h, mem_iff_bit ho, hbit]

theorem intersectWith_ok (h : set.Packed) (ho : other.Packed) (hsize : set.size = other.size) :
    ∃ joined, set.intersectWith other = .ok (joined, decide (joined ≠ set)) ∧ joined.Packed ∧
      joined.size = set.size ∧ ∀ t : Nat, t ∈ joined ↔ t ∈ set ∧ t ∈ other := by
  obtain ⟨joined, hok, hpacked, hs, hbit⟩ :=
    combine_ok (f := fun a b => a &&& b) (b := and) (by simp) rfl h ho hsize
  refine ⟨joined, words_bne hs ▸ hok, hpacked, hs, ?_⟩
  intro t
  simp [mem_iff_bit hpacked, mem_iff_bit h, mem_iff_bit ho, hbit]

theorem union_ok (h : set.Packed) (ho : other.Packed) (hsize : set.size = other.size) :
    ∃ joined, set.union other = .ok joined ∧ joined.Packed ∧ joined.size = set.size ∧
      ∀ t : Nat, t ∈ joined ↔ t ∈ set ∨ t ∈ other := by
  obtain ⟨joined, hok, hjoined⟩ := unionWith_ok h ho hsize
  exact ⟨joined, by rw [union, hok, ok_map], hjoined⟩

theorem intersection_ok (h : set.Packed) (ho : other.Packed) (hsize : set.size = other.size) :
    ∃ joined, set.intersection other = .ok joined ∧ joined.Packed ∧ joined.size = set.size ∧
      ∀ t : Nat, t ∈ joined ↔ t ∈ set ∧ t ∈ other := by
  obtain ⟨joined, hok, hjoined⟩ := intersectWith_ok h ho hsize
  exact ⟨joined, by rw [intersection, hok, ok_map], hjoined⟩

theorem difference_ok (h : set.Packed) (ho : other.Packed) (hsize : set.size = other.size) :
    ∃ left, set.difference other = .ok left ∧ left.Packed ∧ left.size = set.size ∧
      ∀ t : Nat, t ∈ left ↔ t ∈ set ∧ t ∉ other := by
  obtain ⟨left, hok, hpacked, hs, hbit⟩ :=
    combine_ok (f := fun a b => a &&& ~~~b) (b := fun p q => p && !q)
      (fun u v j hj => by simp [hj]) rfl h ho hsize
  refine ⟨left, by rw [difference, differenceWith, hok, ok_map], hpacked, hs, ?_⟩
  intro t
  simp [mem_iff_bit hpacked, mem_iff_bit h, mem_iff_bit ho, hbit]

/-! ## Lists of states -/

/-- Adding states of the universe one by one adds all of them. -/
theorem extend_ok (h : set.Packed) (states : List Nat) (hs : ∀ s ∈ states, s < set.size) :
    ∃ grown, set.extend states = (grown, none) ∧ grown.Packed ∧ grown.size = set.size ∧
      ∀ t : Nat, t ∈ grown ↔ t ∈ states ∨ t ∈ set := by
  induction states generalizing set with
  | nil => exact ⟨set, rfl, h, rfl, by simp⟩
  | cons s rest ih =>
    obtain ⟨one, hone, hpacked, hsize, hmem⟩ := insert_ok h (hs s (by simp))
    obtain ⟨grown, hgrown, hpacked', hsize', hmem'⟩ :=
      ih hpacked fun t ht => hsize ▸ hs t (by simp [ht])
    refine ⟨grown, by simp [extend, hone, hgrown], hpacked', hsize'.trans hsize, ?_⟩
    intro t
    rw [hmem', hmem, List.mem_cons]
    tauto

theorem ofList_ok {states : List Nat} (hs : ∀ s ∈ states, s < n) :
    ∃ set, ofList n states = .ok set ∧ set.Packed ∧ set.size = n ∧
      ∀ t : Nat, t ∈ set ↔ t ∈ states := by
  obtain ⟨set, hok, hpacked, hsize, hmem⟩ := extend_ok (packed_empty (n := n)) states hs
  exact ⟨set, by simp [ofList, hok], hpacked, hsize, by simpa using hmem⟩

end ActorLogic.StateSet
