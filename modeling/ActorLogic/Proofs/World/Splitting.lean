import ActorLogic.Proofs.World.Delivery
import ActorLogic.Proofs.World.Progress
/-!
# Runs in parts

A run may be cut anywhere: to take up to `m` steps and then up to `n` is to take up to `m + n`. A run
that stopped early has left a world where nothing is offered, and there no step changes anything, not
even the generator.
-/

namespace ActorLogic

open Result

variable {P σ : Type}

namespace World

variable {w next : World P σ} {offers : List (Offer P σ)} {o : Offer P σ} {fault : RunFault}
  {n taken steps : Nat}

/-- No process offers a step. -/
def Quiet (w : World P σ) : Prop := ∀ p ∈ w.processes.toList, w.behaviour p.state w.view = .ok []

theorem quiet_iff : w.Quiet ↔ w.offers = .ok [] := by
  constructor
  · intro h
    have hnone : ∀ entry ∈ w.processes.toList.zipIdx,
        w.offersOf entry.1 entry.2 = .ok (([] : List (Offer P σ))) := fun entry hentry => by
      rw [offersOf, h _ (List.fst_mem_of_mem_zipIdx hentry)]
      rfl
    rw [offers, mapM_ok hnone, ok_map]
    exact congrArg Except.ok (List.flatten_eq_nil_iff.2 (by simp))
  · intro h p hp
    obtain ⟨lists, hlists, hflat⟩ := map_eq_ok.1 h
    obtain ⟨place, hplace⟩ := List.getElem?_of_mem hp
    have hmem : (p, place) ∈ w.processes.toList.zipIdx := List.mem_zipIdx_iff_getElem?.2 hplace
    obtain ⟨offers, hoffers, hstep⟩ := mem_of_mapM hlists hmem
    obtain ⟨steps, hsteps, hmap⟩ := map_eq_ok.1 hstep
    rw [List.flatten_eq_nil_iff.1 hflat offers hoffers] at hmap
    rw [hsteps, List.map_eq_nil_iff.1 hmap]

/-! ## One step -/

/-- A step that was taken moves the clock on by one and leaves all processes where they are. -/
theorem perform_time (h : w.perform o = .ok next) :
    next.time = w.time + 1 ∧ next.processes.size = w.processes.size := by
  obtain ⟨state, t, -, heq⟩ := perform_ok h
  rw [heq]
  exact ⟨rfl, Array.size_modify⟩

theorem step_of_fault (h : w.offers = .error fault) : w.step = .error fault := by
  rw [step, h]
  rfl

/-- The draw decides which of the offered steps is taken. -/
theorem step_of_drawn (h : w.offers = .ok offers)
    (hdrawn : offers[(w.generator.below offers.length).1]? = some o) :
    w.step = (({ w with generator := (w.generator.below offers.length).2 } : World P σ).perform o).map
      (true, ·) := by
  obtain ⟨hlt, rfl⟩ := List.getElem?_eq_some_iff.1 hdrawn
  rw [step, h, ok_bind, dif_pos (Nat.zero_lt_of_lt hlt)]
  rfl

/-- Where a step is tried and none is taken, none is offered, and the world stays as it is. -/
theorem quiescent_of_step (h : w.step = .ok (false, next)) : w.offers = .ok [] ∧ next = w := by
  obtain ⟨offers, hoffers, hrest⟩ := bind_eq_ok.1 h
  split at hrest
  · obtain ⟨after, -, heq⟩ := map_eq_ok.1 hrest
    cases heq
  · next hnone =>
    cases hrest
    exact ⟨by rw [hoffers, List.length_eq_zero_iff.1 (Nat.le_zero.1 (Nat.not_lt.1 hnone))], rfl⟩

theorem time_of_step (h : w.step = .ok (true, next)) : next.time = w.time + 1 := by
  obtain ⟨offers, -, hrest⟩ := bind_eq_ok.1 h
  split at hrest
  · obtain ⟨after, hperform, heq⟩ := map_eq_ok.1 hrest
    cases heq
    exact (perform_time hperform).1
  · cases hrest

/-! ## Bounded runs -/

theorem advance_of_quiescent (h : w.offers = .ok []) (n taken : Nat) :
    advance n taken w = .ok (taken, w) := by
  cases n with
  | zero => rfl
  | succ n => rw [advance, step_of_quiescent h]

/-- The steps that were taken before are only counted. -/
theorem advance_taken (n taken more : Nat) (w : World P σ) :
    advance n (taken + more) w = (advance n taken w).map fun (k, w) => (k + more, w) := by
  induction n generalizing taken w with
  | zero => rfl
  | succ n ih =>
    rw [advance, advance]
    cases w.step with
    | error f => rfl
    | ok result =>
      obtain ⟨fired, mid⟩ := result
      cases fired with
      | false => rfl
      | true => simpa only [Nat.add_right_comm] using ih (taken + 1) mid

theorem advance_add (m n taken : Nat) (w : World P σ) :
    advance (m + n) taken w = advance m taken w >>= fun (k, w) => advance n k w := by
  induction m generalizing taken w with
  | zero => rw [Nat.zero_add]; rfl
  | succ m ih =>
    rw [Nat.succ_add, advance, advance]
    cases hstep : w.step with
    | error f => rfl
    | ok result =>
      obtain ⟨fired, mid⟩ := result
      cases fired with
      | false =>
        -- What is left of the bound finds nothing to do either.
        obtain ⟨hnone, rfl⟩ := quiescent_of_step hstep
        exact (advance_of_quiescent hnone n taken).symm
      | true => exact ih (taken + 1) mid

/-- The steps are counted, each moves the clock on by one, and a bound that allows no more of them
would have done. Fewer than allowed were taken only if none is offered any more. -/
theorem advance_ok (h : advance n taken w = .ok (steps, next)) :
    ∃ k ≤ n, steps = taken + k ∧ next.time = w.time + k ∧ advance k taken w = .ok (steps, next) ∧
      (k < n → next.offers = .ok []) := by
  induction n generalizing taken w with
  | zero =>
    cases h
    exact ⟨0, Nat.le_refl 0, rfl, rfl, rfl, fun hlt => absurd hlt (Nat.lt_irrefl 0)⟩
  | succ n ih =>
    rw [advance] at h
    cases hstep : w.step with
    | error f => simp [hstep] at h
    | ok result =>
      obtain ⟨fired, mid⟩ := result
      rw [hstep] at h
      cases fired with
      | false =>
        obtain ⟨hnone, rfl⟩ := quiescent_of_step hstep
        cases h
        exact ⟨0, Nat.zero_le _, rfl, rfl, rfl, fun _ => hnone⟩
      | true =>
        obtain ⟨k, hk, hsteps, htime, hbound, hquiet⟩ := ih h
        rw [time_of_step hstep] at htime
        exact ⟨k + 1, Nat.succ_le_succ hk, by omega, by omega, by rw [advance, hstep]; exact hbound,
          fun hlt => hquiet (Nat.lt_of_succ_lt_succ hlt)⟩

/-- A bounded run advances, and then it is asked whether anything is offered. -/
theorem runSteps_eq (w : World P σ) (n : Nat) :
    w.runSteps n = advance n 0 w >>= fun (steps, w) =>
      w.isQuiescent.map fun quiescent => (⟨steps, quiescent⟩, w) := by
  rw [runSteps]
  cases hadvance : advance n 0 w with
  | error f => rfl
  | ok result =>
    obtain ⟨steps, next⟩ := result
    obtain ⟨k, hk, rfl, -, -, hquiet⟩ := advance_ok hadvance
    rw [Nat.zero_add] at *
    simp only [ok_bind]
    split
    · next hlt =>
      -- The run fell short of its bound, so the question has its answer.
      rw [isQuiescent, hquiet hlt]
      rfl
    · cases next.isQuiescent <;> rfl

/-- Two runs, one after the other, are one run with both bounds. -/
theorem runSteps_add (w : World P σ) (m n : Nat) :
    (w.runSteps m >>= fun (first, w) => (w.runSteps n).map fun (second, w) =>
      ((⟨first.steps + second.steps, second.quiescent⟩ : RunOutcome), w)) = w.runSteps (m + n) := by
  rw [runSteps_eq, runSteps_eq, advance_add]
  cases advance m 0 w with
  | error f => rfl
  | ok result =>
    obtain ⟨k, mid⟩ := result
    simp only [ok_bind, runSteps_eq]
    -- The first run asks in the middle whether anything is offered, and the long run need not.
    cases hoffers : mid.offers with
    | error f =>
      have hask : mid.isQuiescent = .error f := by rw [isQuiescent, hoffers]; rfl
      rw [hask]
      cases n with
      | zero => simp only [advance, ok_bind, hask]; rfl
      | succ n => rw [advance, step_of_fault hoffers]; rfl
    | ok offers =>
      have hask : mid.isQuiescent = .ok offers.isEmpty := by rw [isQuiescent, hoffers]; rfl
      have hcount := advance_taken n 0 k mid
      rw [Nat.zero_add] at hcount
      simp only [hask, hcount, ok_map, ok_bind]
      cases advance n 0 mid with
      | error f => rfl
      | ok result =>
        obtain ⟨j, last⟩ := result
        cases hlast : last.isQuiescent <;> simp [hlast, Nat.add_comm, Except.map]

end World

end ActorLogic
