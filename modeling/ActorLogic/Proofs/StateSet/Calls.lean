import ActorLogic.Proofs.StateSet.Iteration
import ActorLogic.Proofs.StateSet.Refinement
import ActorLogic.StateSet.Iterator
import Mathlib.Data.List.Sort
/-!
# What a cursor answers, call by call

The answers to the calls on a cursor are what it collects, and nothing from then on: a cursor whose
words are used up stays so. For a set that can be built these are its members in increasing order, as
many as are counted, and a set that is filled with them is the set itself.
-/

namespace ActorLogic.StateSet

variable {set : StateSet} {fuel k : Nat}

namespace Cursor

variable {c : Cursor}

/-- The words that a search may pass over play no part if they cover those that are left. -/
theorem nextWithin_eq_pull (hfuel : c.words.size - c.position ≤ fuel) :
    c.nextWithin (fuel + 1) = c.pull.1.map fun s => (s, c.pull.2) := by
  fun_induction pull c generalizing fuel with
  | case1 c hzero w hword ih =>
    have hin : c.position + 1 < c.words.size := (Array.getElem?_eq_some_iff.1 hword).1
    cases fuel with
    | zero => omega
    | succ fuel =>
      rw [nextWithin, if_pos hzero, hword]
      exact ih (by dsimp only; omega)
  | case2 c hzero hword =>
    rw [nextWithin, if_pos hzero, hword]
    rfl
  | case3 c hcur =>
    rw [nextWithin, if_neg hcur]
    rfl

theorem next?_eq_pull (c : Cursor) : c.next? = c.pull.1.map fun s => (s, c.pull.2) :=
  nextWithin_eq_pull (Nat.le_refl _)

/-! ## The end -/

/-- No bit is left in the word of the cursor, and there is no word behind it. -/
structure Ended (c : Cursor) : Prop where
  current : c.current = 0#64
  last : c.words[c.position + 1]? = none

/-- A call that hands out nothing has used up the words. -/
theorem ended_of_pull (h : c.pull.1 = none) : c.pull.2.Ended := by
  fun_induction pull c with
  | case1 c hzero w hword ih => exact ih h
  | case2 c hzero hword =>
    refine ⟨hzero, Array.getElem?_eq_none_iff.2 ?_⟩
    exact Nat.le_succ_of_le (Array.getElem?_eq_none_iff.1 hword)
  | case3 c hcur => cases h

theorem Ended.pull_eq (h : c.Ended) : c.pull = (none, { c with position := c.position + 1 }) := by
  rw [pull, if_pos h.current]
  split
  · next w hword => cases h.last.symm.trans hword
  · rfl

/-- Once there is no member left, there is none for ever. -/
theorem Ended.answer_eq (h : c.Ended) (k : Nat) : c.answer k = none := by
  induction k generalizing c with
  | zero => rw [answer, h.pull_eq]
  | succ k ih =>
    refine ih (ended_of_pull ?_)
    rw [h.pull_eq]

/-- The answers are what the cursor collects, as far as the fuel goes. -/
theorem getElem?_collect (hk : k < fuel) : (c.collect fuel)[k]? = c.answer k := by
  induction fuel generalizing c k with
  | zero => exact absurd hk (Nat.not_lt_zero k)
  | succ fuel ih =>
    rw [collect, next?_eq_pull]
    cases hpull : c.pull.1 with
    | none =>
      cases k with
      | zero => exact hpull.symm
      | succ k => exact ((ended_of_pull hpull).answer_eq k).symm
    | some s =>
      cases k with
      | zero => exact hpull.symm
      | succ k => exact ih (Nat.lt_of_succ_lt_succ hk)

end Cursor

/-! ## The members of a set -/

/-- More fuel than it takes to list the members changes nothing. -/
theorem collect_eq_toList (h : set.Packed) (hfuel : 64 * set.words.size ≤ fuel) :
    set.cursor.collect fuel = set.toList := by
  obtain ⟨hsorted, hmem⟩ := collect_cursor_spec h hfuel
  obtain ⟨hlist, hmem'⟩ := toList_spec h
  exact hsorted.eq_of_mem_iff hlist fun s => (hmem s).trans (hmem' s).symm

theorem answer_cursor (h : set.Packed) (k : Nat) : set.cursor.answer k = set.toList[k]? := by
  -- One call more than the fuel of the list, or than there were calls, is fuel for both.
  rw [← collect_eq_toList h (Nat.le_add_right _ (k + 1)), Cursor.getElem?_collect (by omega)]

theorem length_toList (h : set.Packed) : set.toList.length = set.card := by
  obtain ⟨hsorted, hmem⟩ := toList_spec h
  have hnodup : set.toList.Nodup := hsorted.imp Nat.ne_of_lt
  have hmembers : set.toList.toFinset = set.members := by
    ext s
    rw [List.mem_toFinset, hmem, mem_members]
  rw [card_eq_card_members h, ← hmembers, List.toFinset_card_of_nodup hnodup]

/-- An empty set that is filled with the members of a set is this set. -/
theorem extend_toList (h : set.Packed) : (empty set.size).extend set.toList = (set, none) := by
  have hlt : ∀ s ∈ set.toList, s < set.size := fun s hs => lt_size_of_mem ((mem_toList h).1 hs)
  obtain ⟨filled, hok, hpacked, hsize, hmem⟩ := extend_ok packed_empty set.toList hlt
  obtain rfl : filled = set := hpacked.ext h hsize fun s => by simp [hmem, h]
  exact hok

/-- The sets that can be built are the packed ones: every packed set is built from its members. -/
theorem built_iff_packed : set.Built ↔ set.Packed := by
  refine ⟨Built.packed, fun h => ⟨[.empty set.size 0, .extend 0 set.toList], 0, ?_⟩⟩
  have hfill := extend_toList h
  simp [SetOperations.runAll, SetOperations.run, SetOperations.perform, SetOperations.put,
    operations, hfill]

/-- What going through a set comes to. -/
structure Iterates (set : StateSet) : Prop where
  increasing : set.toList.Pairwise (· < ·)
  mem_iff : ∀ s : Nat, s ∈ set.toList ↔ set.contains s = true
  /-- Call number `k` hands out member number `k`, and nothing when there are no more members. -/
  answers : ∀ k, set.cursor.answer k = set.toList[k]?
  length : set.toList.length = set.card
  filled : (empty set.size).extend set.toList = (set, none)
  complement : set.card + set.complement.card = set.size

/-- Going through a set that can be built hands out its members in increasing order, each once, and
then nothing for ever; they are as many as are counted, and make up the set again. -/
theorem Built.iterates (h : set.Built) : set.Iterates := by
  have hpacked := h.packed
  obtain ⟨hsorted, hmem⟩ := toList_spec hpacked
  exact
    { increasing := hsorted
      mem_iff := hmem
      answers := answer_cursor hpacked
      length := length_toList hpacked
      filled := extend_toList hpacked
      complement := card_add_card_complement hpacked }

/-- The last state of one word, the first of the next, and behind an empty word the last of all. -/
theorem Built.iterates_boundaries :
    let set := (operations.runAll [.empty 194 0, .extend 0 [193, 64, 63]]).2 0
    set.Built ∧ set.toList = [63, 64, 193] ∧ set.Iterates := by
  intro set
  have hbuilt : set.Built := ⟨_, _, rfl⟩
  have hlist : set.toList = [63, 64, 193] := by decide +kernel
  exact ⟨hbuilt, hlist, hbuilt.iterates⟩

end ActorLogic.StateSet
