import Mathlib.Data.List.Induction
import Mathlib.Data.List.Nodup
/-!
# Repetitions in lists

Where names must not be repeated, the first one that was there before is reported: there is one unless
all elements are distinct, and never more than one. Where they may be repeated, only the first of
equal elements is kept, and it stays at its place.
-/

namespace ActorLogic

variable {α β : Type}

/-! ## The first repetition -/

section Repetitions

variable {l : List α} {a b : α}

/-- The element repeats one of those in front of it, and those are distinct. -/
def FirstRepetition (l : List α) (a : α) : Prop :=
  ∃ before after, l = before ++ a :: after ∧ before.Nodup ∧ a ∈ before

theorem FirstRepetition.not_nodup (h : FirstRepetition l a) : ¬ l.Nodup := by
  obtain ⟨before, after, rfl, -, ha⟩ := h
  rw [List.nodup_append]
  exact fun ⟨_, _, hne⟩ => hne a ha a List.mem_cons_self rfl

theorem not_firstRepetition (h : l.Nodup) (a : α) : ¬ FirstRepetition l a := fun ha => ha.not_nodup h

theorem FirstRepetition.unique (ha : FirstRepetition l a) (hb : FirstRepetition l b) : a = b := by
  obtain ⟨before, after, rfl, hbefore, ha⟩ := ha
  obtain ⟨before', after', heq, hbefore', hb⟩ := hb
  -- If one of the two came first, those in front of the other would not be distinct.
  rcases List.append_eq_append_iff.1 heq with ⟨mid, rfl, hmid⟩ | ⟨mid, rfl, hmid⟩
  · cases mid with
    | nil => exact (List.cons.inj hmid).1
    | cons c mid =>
      obtain ⟨rfl, -⟩ := List.cons.inj hmid
      exact absurd hbefore' (FirstRepetition.not_nodup ⟨before, mid, rfl, hbefore, ha⟩)
  · cases mid with
    | nil => exact (List.cons.inj hmid).1.symm
    | cons c mid =>
      obtain ⟨rfl, -⟩ := List.cons.inj hmid
      exact absurd hbefore (FirstRepetition.not_nodup ⟨before', mid, rfl, hbefore', hb⟩)

theorem exists_firstRepetition (h : ¬ l.Nodup) : ∃ a, FirstRepetition l a := by
  induction l using List.reverseRecOn with
  | nil => exact absurd List.nodup_nil h
  | append_singleton before a ih =>
    by_cases hbefore : before.Nodup
    · by_cases ha : a ∈ before
      · exact ⟨a, before, [], rfl, hbefore, ha⟩
      · rw [← List.concat_eq_append] at h
        exact absurd (hbefore.concat ha) h
    · obtain ⟨b, front, after, rfl, hfront, hb⟩ := ih hbefore
      exact ⟨b, front, after ++ [a], by simp, hfront, hb⟩

end Repetitions

/-! ## First occurrences -/

section Occurrences

variable [BEq α] [LawfulBEq α] [BEq β] [LawfulBEq β]

theorem eraseDups_concat (l : List α) (a : α) :
    (l ++ [a]).eraseDups = if a ∈ l then l.eraseDups else l.eraseDups ++ [a] := by
  rw [List.eraseDups_append]
  by_cases ha : a ∈ l <;> simp [ha, List.removeAll, List.eraseDups_cons]

theorem nodup_eraseDups (l : List α) : l.eraseDups.Nodup := by
  induction l using List.reverseRecOn with
  | nil => exact List.nodup_nil
  | append_singleton before a ih =>
    rw [eraseDups_concat]
    split
    · exact ih
    · next ha =>
      rw [← List.concat_eq_append]
      exact ih.concat (mt List.mem_eraseDups.1 ha)

/-- To rename elements apart changes nothing about their occurrences. -/
theorem eraseDups_map {f : α → β} {l : List α} (hf : ∀ a ∈ l, ∀ b ∈ l, f a = f b → a = b) :
    (l.map f).eraseDups = l.eraseDups.map f := by
  induction l using List.reverseRecOn with
  | nil => rfl
  | append_singleton before a ih =>
    have hmem : f a ∈ before.map f ↔ a ∈ before := by
      refine ⟨fun h => ?_, List.mem_map_of_mem⟩
      obtain ⟨b, hb, heq⟩ := List.mem_map.1 h
      have hab := hf b (List.mem_append_left _ hb) a List.mem_concat_self heq
      exact hab ▸ hb
    have hbefore := ih fun b hb c hc =>
      hf b (List.mem_append_left _ hb) c (List.mem_append_left _ hc)
    rw [List.map_append, List.map_singleton, eraseDups_concat, eraseDups_concat]
    by_cases ha : a ∈ before
    · rw [if_pos ha, if_pos (hmem.2 ha), hbefore]
    · rw [if_neg ha, if_neg (mt hmem.1 ha), hbefore, List.map_append, List.map_singleton]

/-- Elements that are left out do not change where the others occur first. -/
theorem eraseDups_filter (p : α → Bool) (l : List α) :
    (l.filter p).eraseDups = l.eraseDups.filter p := by
  induction l using List.reverseRecOn with
  | nil => rfl
  | append_singleton before a ih =>
    rw [List.filter_append, eraseDups_concat]
    cases hp : p a with
    | false =>
      rw [List.filter_cons_of_neg (by simp [hp]), List.filter_nil, List.append_nil, ih]
      split
      · rfl
      · rw [List.filter_append, List.filter_cons_of_neg (by simp [hp]), List.filter_nil,
          List.append_nil]
    | true =>
      rw [List.filter_cons_of_pos hp, List.filter_nil, eraseDups_concat]
      by_cases ha : a ∈ before
      · rw [if_pos ha, if_pos (List.mem_filter.2 ⟨ha, hp⟩), ih]
      · rw [if_neg ha, if_neg fun h => ha (List.mem_filter.1 h).1, ih, List.filter_append,
          List.filter_cons_of_pos hp, List.filter_nil]

end Occurrences

end ActorLogic
