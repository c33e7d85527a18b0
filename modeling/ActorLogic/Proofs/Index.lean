import Std.Data.HashMap
/-!
# Indexes of arrays

A hash map is an index of an array if it finds the place of every element by the element's key, and
nothing else. Then no two elements have one key. Appending an element under a free key keeps this.
-/

namespace ActorLogic

variable {α β : Type} [BEq α] [LawfulBEq α] [Hashable α] {index : Std.HashMap α Nat}
  {elements : Array β} {key : β → α} {b : β}

/-- The map finds the elements by their keys. -/
def IsIndex (index : Std.HashMap α Nat) (elements : Array β) (key : β → α) : Prop :=
  ∀ (a : α) (n : Nat), index[a]? = some n ↔ ∃ b, elements[n]? = some b ∧ key b = a

namespace IsIndex

theorem empty : IsIndex (∅ : Std.HashMap α Nat) (#[] : Array β) key := by
  intro a n
  simp

theorem push (h : IsIndex index elements key) (hfree : index[key b]? = none) :
    IsIndex (index.insert (key b) elements.size) (elements.push b) key := by
  -- The elements that are there have other keys, or the index would know the key.
  have hother : ∀ (n : Nat) (c : β), elements[n]? = some c → key c ≠ key b := by
    intro n c hc heq
    have hfound := (h (key b) n).2 ⟨c, hc, heq⟩
    simp [hfree] at hfound
  intro a n
  rw [Std.HashMap.getElem?_insert, Array.getElem?_push]
  split
  · next heq =>
    obtain rfl := eq_of_beq heq
    constructor
    · rintro ⟨⟩
      exact ⟨b, if_pos rfl, rfl⟩
    · rintro ⟨c, hc, hkey⟩
      split at hc
      · next hlast => rw [hlast]
      · exact absurd hkey (hother n c hc)
  · next hne =>
    rw [h a n]
    constructor
    · rintro ⟨c, hc, hkey⟩
      have hlt := (Array.getElem?_eq_some_iff.1 hc).1
      exact ⟨c, by rw [if_neg (Nat.ne_of_lt hlt), hc], hkey⟩
    · rintro ⟨c, hc, hkey⟩
      split at hc
      · cases hc
        exact absurd (beq_iff_eq.2 hkey) hne
      · exact ⟨c, hc, hkey⟩

end IsIndex

end ActorLogic
