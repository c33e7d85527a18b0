import ActorLogic.Memory
/-!
# What is made once there is room

What needs room is made if its items fit into one block. Otherwise there is a fault, and nothing is
made.
-/

namespace ActorLogic.Memory

variable {α : Type} {items bytes : Nat} {a b : α} {f : MemoryFault}

theorem map_reserve_eq_ok :
    (reserve items bytes).map (fun () => a) = .ok b ↔ items * bytes < 1 <<< 63 ∧ b = a := by
  by_cases hfits : items * bytes < 1 <<< 63
  · rw [reserve, if_pos hfits, and_iff_right hfits, eq_comm]
    exact Iff.of_eq (Except.ok.injEq b a)
  · rw [reserve, if_neg hfits]
    exact ⟨nofun, fun h => absurd h.1 hfits⟩

theorem map_reserve_eq_error :
    (reserve items bytes).map (fun () => a) = .error f ↔
      1 <<< 63 ≤ items * bytes ∧ f = .capacityOverflow := by
  by_cases hfits : items * bytes < 1 <<< 63
  · rw [reserve, if_pos hfits]
    exact ⟨nofun, fun h => absurd hfits (Nat.not_lt.2 h.1)⟩
  · rw [reserve, if_neg hfits, and_iff_right (Nat.not_lt.1 hfits), eq_comm]
    exact Iff.of_eq (Except.error.injEq f _)

end ActorLogic.Memory
