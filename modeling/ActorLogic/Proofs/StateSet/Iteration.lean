import ActorLogic.Proofs.StateSet.Members
import Mathlib.Algebra.Group.Nat.Defs
/-!
# Iterating over a state set

A cursor still holds the bits that are left in its word and those of the words behind it. The next
state is the least one that it holds, and only this one is given up. So the list of a packed set
names its members in increasing order, each once.
-/

namespace ActorLogic.StateSet

/-! ## The lowest bit of a word -/

/-- Below its lowest bit that is set, a word that is not zero has only zeros. -/
theorem toNat_eq_of_ctz {w : BitVec 64} (hw : w ≠ 0#64) :
    w.toNat = 2 ^ (w.ctz.toNat + 1) * (w.toNat / 2 ^ (w.ctz.toNat + 1)) + 2 ^ w.ctz.toNat := by
  apply Nat.eq_of_testBit_eq
  intro j
  -- The quotient has the bits above the lowest one, the power has the lowest one itself.
  have hlt : 2 ^ w.ctz.toNat < 2 ^ (w.ctz.toNat + 1) := Nat.pow_lt_pow_right (by decide) (by omega)
  rw [Nat.testBit_two_pow_mul_add _ hlt, Nat.testBit_div_two_pow]
  by_cases hj : j < w.ctz.toNat + 1
  · rw [if_pos hj, Nat.testBit_two_pow, BitVec.testBit_toNat]
    by_cases heq : j = w.ctz.toNat
    · simp [heq, BitVec.getLsbD_true_ctz_of_ne_zero hw]
    · simp [Ne.symm heq, BitVec.getLsbD_false_of_lt_ctz (x := w) (i := j) (by omega)]
  · rw [if_neg hj, Nat.sub_add_cancel (by omega)]

theorem getLsbD_sub_one {w : BitVec 64} (hw : w ≠ 0#64) (j : Nat) :
    (w - 1#64).getLsbD j =
      if j < w.ctz.toNat + 1 then decide (j < w.ctz.toNat) else w.getLsbD j := by
  have hsplit := toNat_eq_of_ctz hw
  have hpos : 0 < 2 ^ w.ctz.toNat := Nat.two_pow_pos _
  have hlt : 2 ^ w.ctz.toNat < 2 ^ (w.ctz.toNat + 1) := Nat.pow_lt_pow_right (by decide) (by omega)
  -- Taking one away leaves the quotient alone and makes ones of the zeros below.
  have hsub : (w - 1#64).toNat =
      2 ^ (w.ctz.toNat + 1) * (w.toNat / 2 ^ (w.ctz.toNat + 1)) + (2 ^ w.ctz.toNat - 1) := by
    have := w.isLt
    rw [BitVec.toNat_sub, BitVec.toNat_ofNat]
    omega
  rw [← BitVec.testBit_toNat, hsub, Nat.testBit_two_pow_mul_add _ (by omega)]
  split
  · exact Nat.testBit_two_pow_sub_one _ _
  · rw [Nat.testBit_div_two_pow, Nat.sub_add_cancel (by omega), BitVec.testBit_toNat]

theorem getLsbD_dropLowest {w : BitVec 64} (hw : w ≠ 0#64) (j : Nat) :
    (dropLowest w).getLsbD j = (w.getLsbD j && decide (j ≠ w.ctz.toNat)) := by
  rw [dropLowest, BitVec.getLsbD_and, getLsbD_sub_one hw]
  by_cases hlow : j < w.ctz.toNat
  · simp [BitVec.getLsbD_false_of_lt_ctz hlow]
  · by_cases heq : j = w.ctz.toNat
    · simp [heq]
    · simp [heq, show ¬ j < w.ctz.toNat + 1 by omega]

theorem ctz_lt {w : BitVec 64} (hw : w ≠ 0#64) : w.ctz.toNat < 64 := by
  have := BitVec.ctz_lt_iff_ne_zero.2 hw
  simpa [BitVec.lt_def] using this

theorem lowestBit_eq_ctz {w : BitVec 64} (hw : w ≠ 0#64) : lowestBit w = w.ctz.toNat := by
  have hxor : w ^^^ dropLowest w = BitVec.twoPow 64 w.ctz.toNat := by
    apply BitVec.eq_of_getLsbD_eq
    intro j hj
    rw [BitVec.getLsbD_xor, getLsbD_dropLowest hw, BitVec.getLsbD_twoPow]
    by_cases heq : j = w.ctz.toNat
    · subst heq
      simp [BitVec.getLsbD_true_ctz_of_ne_zero hw, ctz_lt hw]
    · simp [heq, Ne.symm heq]
  have hpow : 2 ^ w.ctz.toNat < 2 ^ 64 := Nat.pow_lt_pow_right (by decide) (ctz_lt hw)
  rw [lowestBit, hxor, BitVec.toNat_twoPow, Nat.mod_eq_of_lt hpow, Nat.log2_two_pow]

/-! ## Cursors -/

namespace Cursor

/-- The state is still to come. -/
def Holds (c : Cursor) (s : Nat) : Prop :=
  (s / 64 = c.position ∧ c.current.getLsbD (s % 64) = true) ∨
    (c.position < s / 64 ∧ (c.words.getD (s / 64) 0#64).getLsbD (s % 64) = true)

variable {c next : Cursor} {s t : Nat}

theorem Holds.div_lt (h : c.Holds s) (hpos : c.position < c.words.size) :
    s / 64 < c.words.size := by
  rcases h with ⟨heq, _⟩ | ⟨_, hbit⟩
  · omega
  · by_contra hge
    simp [hge] at hbit

/-- A word without bits is passed over: the cursor at the next word holds the same states. -/
theorem holds_skip {w : BitVec 64} (hzero : c.current = 0#64)
    (hword : c.words[c.position + 1]? = some w) :
    Holds ⟨c.words, c.position + 1, w⟩ s ↔ c.Holds s := by
  simp only [Holds, hzero, BitVec.getLsbD_zero, Bool.false_eq_true, and_false, false_or]
  constructor
  · rintro (⟨heq, hbit⟩ | ⟨hlt, hbit⟩)
    · exact ⟨by omega, by simpa [heq, hword] using hbit⟩
    · exact ⟨by omega, hbit⟩
  · rintro ⟨hlt, hbit⟩
    by_cases heq : s / 64 = c.position + 1
    · exact .inl ⟨heq, by simpa [heq, hword] using hbit⟩
    · exact .inr ⟨by omega, hbit⟩

/-- What a cursor hands out is the least state that it holds; it goes on to hold the others. -/
structure Yields (c : Cursor) (s : Nat) (next : Cursor) : Prop where
  holds : c.Holds s
  least : ∀ t, c.Holds t → s ≤ t
  rest : ∀ t, next.Holds t ↔ c.Holds t ∧ t ≠ s
  words : next.words = c.words
  inside : next.position < next.words.size

theorem yields_current (hcur : c.current ≠ 0#64) (hpos : c.position < c.words.size) :
    c.Yields (c.position * 64 + lowestBit c.current)
      { c with current := dropLowest c.current } := by
  have hlt := ctz_lt hcur
  rw [lowestBit_eq_ctz hcur]
  have hdiv : (c.position * 64 + c.current.ctz.toNat) / 64 = c.position := by omega
  have hmod : (c.position * 64 + c.current.ctz.toNat) % 64 = c.current.ctz.toNat := by omega
  refine ⟨.inl ⟨hdiv, by rw [hmod]; exact BitVec.getLsbD_true_ctz_of_ne_zero hcur⟩, ?_, ?_, rfl, hpos⟩
  · rintro t (⟨heq, hbit⟩ | ⟨hlater, _⟩)
    · have : ¬ t % 64 < c.current.ctz.toNat := by
        intro hlow
        simp [BitVec.getLsbD_false_of_lt_ctz hlow] at hbit
      omega
    · omega
  · intro t
    have hne : t / 64 = c.position →
        (t % 64 ≠ c.current.ctz.toNat ↔ t ≠ c.position * 64 + c.current.ctz.toNat) := by omega
    simp only [Holds, getLsbD_dropLowest hcur, Bool.and_eq_true, decide_eq_true_eq]
    constructor
    · rintro (⟨heq, hbit, hother⟩ | ⟨hlater, hbit⟩)
      · exact ⟨.inl ⟨heq, hbit⟩, (hne heq).1 hother⟩
      · exact ⟨.inr ⟨hlater, hbit⟩, by omega⟩
    · rintro ⟨⟨heq, hbit⟩ | ⟨hlater, hbit⟩, hother⟩
      · exact .inl ⟨heq, hbit, (hne heq).2 hother⟩
      · exact .inr ⟨hlater, hbit⟩

/-- With a step for every word that is left, a cursor finds the next state or has none. -/
theorem nextWithin_spec {fuel : Nat} (hpos : c.position < c.words.size)
    (hfuel : c.words.size - c.position ≤ fuel) :
    match c.nextWithin fuel with
    | some (s, next) => c.Yields s next
    | none => ∀ t, ¬ c.Holds t := by
  induction fuel generalizing c with
  | zero => omega
  | succ fuel ih =>
    unfold nextWithin
    by_cases hcur : c.current = 0#64
    · rw [if_pos hcur]
      cases hword : c.words[c.position + 1]? with
      | none =>
        -- The last word is used up.
        rintro t (⟨_, hbit⟩ | ⟨hlater, hbit⟩)
        · simp [hcur] at hbit
        · have hge : ¬ t / 64 < c.words.size := by
            have := Array.getElem?_eq_none_iff.1 hword
            omega
          simp [hge] at hbit
      | some w =>
        -- What the cursor at the next word hands out is what is asked for.
        have hin : c.position + 1 < c.words.size := (Array.getElem?_eq_some_iff.1 hword).1
        have hrec := @ih ⟨c.words, c.position + 1, w⟩ hin (by dsimp only; omega)
        dsimp only
        cases hnext : nextWithin fuel ⟨c.words, c.position + 1, w⟩ with
        | none =>
          rw [hnext] at hrec
          exact fun t ht => hrec t ((holds_skip hcur hword).2 ht)
        | some found =>
          obtain ⟨s, next⟩ := found
          rw [hnext] at hrec
          refine ⟨(holds_skip hcur hword).1 hrec.holds, fun t ht => ?_, fun t => ?_, hrec.words,
            hrec.inside⟩
          · exact hrec.least t ((holds_skip hcur hword).2 ht)
          · rw [hrec.rest, holds_skip hcur hword]
    · rw [if_neg hcur]
      exact yields_current hcur hpos

/-- What is collected are the states that the cursor holds, in increasing order. The fuel is enough
when it covers the numbers from a lower bound on these states to the end of the words. -/
theorem collect_spec {fuel low : Nat} (hpos : c.position < c.words.size)
    (hlow : ∀ t, c.Holds t → low ≤ t) (hfuel : 64 * c.words.size ≤ fuel + low) :
    (c.collect fuel).Pairwise (· < ·) ∧ ∀ t : Nat, t ∈ c.collect fuel ↔ c.Holds t := by
  induction fuel generalizing c low with
  | zero =>
    -- Without fuel the lower bound is past the words, and no state is left.
    have hnone : ∀ t, ¬ c.Holds t := fun t ht => by
      have := ht.div_lt hpos
      have := hlow t ht
      omega
    simpa [collect] using hnone
  | succ fuel ih =>
    have hspec := nextWithin_spec hpos (Nat.le_succ (c.words.size - c.position))
    unfold collect next?
    cases hnext : c.nextWithin (c.words.size - c.position + 1) with
    | none =>
      rw [hnext] at hspec
      simpa using hspec
    | some found =>
      obtain ⟨s, next⟩ := found
      rw [hnext] at hspec
      -- The states that are left lie above the one handed out, which pays for the fuel.
      have hlater : ∀ t, next.Holds t → s + 1 ≤ t := fun t ht => by
        obtain ⟨hold, hne⟩ := (hspec.rest t).1 ht
        exact Nat.lt_of_le_of_ne (hspec.least t hold) (Ne.symm hne)
      have hlows := hlow s hspec.holds
      obtain ⟨hsorted, hmem⟩ := ih hspec.inside hlater (by rw [hspec.words]; omega)
      refine ⟨?_, fun t => ?_⟩
      · refine List.pairwise_cons.2 ⟨fun t ht => ?_, hsorted⟩
        exact hlater t ((hmem t).1 ht)
      · rw [List.mem_cons, hmem, hspec.rest]
        constructor
        · rintro (rfl | ⟨hold, _⟩)
          · exact hspec.holds
          · exact hold
        · intro hold
          by_cases heq : t = s
          · exact .inl heq
          · exact .inr ⟨hold, heq⟩

end Cursor

/-! ## Lists of members -/

variable {set : StateSet} {s : Nat}

theorem cursor_holds : set.cursor.Holds s ↔ set.bit s = true := by
  simp only [Cursor.Holds, cursor, bit]
  constructor
  · rintro (⟨heq, hbit⟩ | ⟨_, hbit⟩)
    · rwa [heq]
    · exact hbit
  · intro hbit
    by_cases heq : s / 64 = 0
    · exact .inl ⟨heq, by rwa [heq] at hbit⟩
    · exact .inr ⟨by omega, hbit⟩

/-- With enough fuel, what the cursor of a packed set collects are the members. -/
theorem collect_cursor_spec (h : set.Packed) {fuel : Nat} (hfuel : 64 * set.words.size ≤ fuel) :
    (set.cursor.collect fuel).Pairwise (· < ·) ∧
      ∀ s : Nat, s ∈ set.cursor.collect fuel ↔ s ∈ set := by
  by_cases hempty : set.words.size = 0
  · have hsize : set.size = 0 := by
      have := h.words_size
      unfold wordCount at this
      omega
    have hlist : set.cursor.collect fuel = [] := by
      cases fuel <;> simp [Cursor.collect, Cursor.next?, Cursor.nextWithin, cursor, hempty]
    refine ⟨by simp [hlist], ?_⟩
    intro s
    have : ¬ s ∈ set := fun hs => by
      have := lt_size_of_mem hs
      omega
    simp [hlist, this]
  · obtain ⟨hsorted, hmem⟩ := Cursor.collect_spec (c := set.cursor) (Nat.pos_of_ne_zero hempty)
      (fun _ _ => Nat.zero_le _) hfuel
    refine ⟨hsorted, ?_⟩
    intro s
    rw [mem_iff_bit h, ← cursor_holds]
    exact hmem s

theorem toList_spec (h : set.Packed) :
    set.toList.Pairwise (· < ·) ∧ ∀ s : Nat, s ∈ set.toList ↔ s ∈ set :=
  collect_cursor_spec h (Nat.le_refl _)

@[simp] theorem mem_toList (h : set.Packed) : s ∈ set.toList ↔ s ∈ set := (toList_spec h).2 s

end ActorLogic.StateSet
