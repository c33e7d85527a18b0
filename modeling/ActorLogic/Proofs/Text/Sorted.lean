import ActorLogic.Text.Sorted
import Mathlib.Data.List.Sort
/-!
# What sorting texts does

Sorting keeps the texts, puts them in increasing order, and has nothing to do where they are in order
already.
-/

namespace ActorLogic

variable {a s t : String} {l : List String}

theorem eq_of_not_lt (h : ¬ s < t) (h' : ¬ t < s) : s = t :=
  String.le_antisymm (String.not_lt.1 h') (String.not_lt.1 h)

theorem mem_insertSorted : a ∈ insertSorted s l ↔ a = s ∨ a ∈ l := by
  induction l with
  | nil => simp [insertSorted]
  | cons t rest ih =>
    unfold insertSorted
    split
    · simp
    · split
      · next heq => simp [heq]
      · rw [List.mem_cons, ih, List.mem_cons]
        exact or_left_comm

theorem mem_sortedTexts : a ∈ sortedTexts l ↔ a ∈ l := by
  induction l with
  | nil => simp [sortedTexts]
  | cons s rest ih =>
    rw [List.mem_cons, ← ih]
    exact mem_insertSorted

theorem pairwise_insertSorted (h : l.Pairwise (· < ·)) : (insertSorted s l).Pairwise (· < ·) := by
  induction l with
  | nil => simp [insertSorted]
  | cons t rest ih =>
    obtain ⟨hfirst, hrest⟩ := List.pairwise_cons.1 h
    unfold insertSorted
    split
    · next hlt =>
      refine List.pairwise_cons.2 ⟨fun a ha => ?_, h⟩
      cases List.mem_cons.1 ha with
      | inl heq => exact heq ▸ hlt
      | inr hin => exact String.lt_trans hlt (hfirst a hin)
    · next hle =>
      split
      · exact h
      · next hne =>
        -- The text belongs behind the first one.
        have hlt : t < s := Decidable.byContradiction fun hnot => hne (eq_of_not_lt hle hnot)
        refine List.pairwise_cons.2 ⟨fun a ha => ?_, ih hrest⟩
        cases mem_insertSorted.1 ha with
        | inl heq => exact heq ▸ hlt
        | inr hin => exact hfirst a hin

theorem pairwise_sortedTexts (l : List String) : (sortedTexts l).Pairwise (· < ·) := by
  induction l with
  | nil => exact List.Pairwise.nil
  | cons s rest ih => exact pairwise_insertSorted ih

theorem sortedTexts_of_pairwise (h : l.Pairwise (· < ·)) : sortedTexts l = l := by
  induction l with
  | nil => rfl
  | cons s rest ih =>
    obtain ⟨hfirst, hrest⟩ := List.pairwise_cons.1 h
    rw [sortedTexts, List.foldr_cons, ← sortedTexts, ih hrest]
    cases rest with
    | nil => rfl
    | cons t rest => rw [insertSorted, if_pos (hfirst t List.mem_cons_self)]

/-- The order in which the texts are put at their places plays no part. -/
theorem sortedTexts_concat (l : List String) (s : String) :
    sortedTexts (l ++ [s]) = insertSorted s (sortedTexts l) := by
  have hmem : ∀ a, a ∈ sortedTexts (l ++ [s]) ↔ a ∈ insertSorted s (sortedTexts l) := by
    intro a
    rw [mem_sortedTexts, mem_insertSorted, mem_sortedTexts, List.mem_append, List.mem_singleton]
    exact or_comm
  exact (pairwise_sortedTexts _).eq_of_mem_iff (pairwise_insertSorted (pairwise_sortedTexts l)) hmem

theorem sortedTexts_perm {l' : List String} (h : l.Perm l') : sortedTexts l = sortedTexts l' :=
  (pairwise_sortedTexts l).eq_of_mem_iff (pairwise_sortedTexts l') fun a => by
    rw [mem_sortedTexts, mem_sortedTexts, h.mem_iff]

@[simp] theorem sortedTexts_sortedTexts (l : List String) :
    sortedTexts (sortedTexts l) = sortedTexts l :=
  sortedTexts_of_pairwise (pairwise_sortedTexts l)

end ActorLogic
