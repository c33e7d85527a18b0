import ActorLogic.World.Slots
import ActorLogic.Proofs.World.Splitting
import Mathlib.Data.List.Basic
/-!
# Slots are of no consequence

What a slot keeps is replaced before it is looked at and thrown away after that. So a world with
slots does what the world without them does, whatever its slots held, and it comes out of every call
with empty slots.
-/

namespace ActorLogic

open Result

variable {P σ : Type}

/-! ## Offers and candidates -/

/-- The offers of processes whose slots keep these steps. -/
def keptOffers (processes : List (Process σ)) (slots : List (List (Step P σ))) :
    List (Offer P σ) :=
  (processes.zip slots).zipIdx.flatMap fun ((p, steps), place) =>
    steps.map fun step => ⟨place, p.id, step⟩

theorem World.offers_eq (w : World P σ) :
    w.offers = (w.processes.toList.mapM fun p => w.behaviour p.state w.view).map
      (keptOffers w.processes.toList) := by
  have hzip := mapM_zipIdx (f := fun p : Process σ => w.behaviour p.state w.view)
    (fun p place steps => steps.map fun step => (⟨place, p.id, step⟩ : Offer P σ))
    w.processes.toList 0
  rw [World.offers]
  simp only [World.offersOf]
  rw [hzip]
  cases w.processes.toList.mapM fun p => w.behaviour p.state w.view <;> rfl

namespace Staged

variable {s : Staged P σ} {w : World P σ} {slots : List (List (Step P σ))} {fault : RunFault}

/-- The offers that the slots keep. -/
def offers (s : Staged P σ) : List (Offer P σ) := keptOffers s.world.processes.toList s.slots

/-- The candidates stand for the offers, one for each and in their order. -/
theorem map_candidates (h : s.slots.length = s.world.processes.size) :
    s.candidates.map (fun c => s.offer? c.1 c.2) = s.offers.map some := by
  have hslots : s.slots.zipIdx =
      (s.world.processes.toList.zip s.slots).zipIdx.map (Prod.map Prod.snd id) := by
    rw [← List.zipIdx_map, List.map_snd_zip (by simp [h])]
  rw [candidates, hslots, offers, keptOffers, List.flatMap_map, List.map_flatMap, List.map_flatMap]
  refine List.flatMap_congr fun ⟨⟨p, steps⟩, place⟩ hmem => ?_
  obtain ⟨hp, hsteps⟩ := List.getElem?_zip_eq_some.1 (List.mem_zipIdx_iff_getElem?.1 hmem)
  refine List.ext_getElem? fun i => ?_
  dsimp only at hp hsteps
  rw [Array.getElem?_toList] at hp
  have hkept : s.slots.getD place [] = steps := by rw [List.getD_eq_getElem?_getD, hsteps]; rfl
  simp only [Prod.map, id, List.map_map, List.getElem?_map, offer?, hp, Function.comp_def, hkept]
  rcases Nat.lt_or_ge i steps.length with hlt | hge
  · simp [hlt]
  · simp [hge]

/-- What is drawn among the candidates is what is drawn among the offers. -/
theorem offer?_of_candidate (h : s.slots.length = s.world.processes.size) {k : Nat}
    {c : Nat × Nat} (hc : s.candidates[k]? = some c) :
    ∃ o, s.offers[k]? = some o ∧ s.offer? c.1 c.2 = some o := by
  have hk := congrArg (·[k]?) (map_candidates h)
  simp only [List.getElem?_map, hc, Option.map_some] at hk
  obtain ⟨o, ho, heq⟩ := Option.map_eq_some_iff.1 hk.symm
  exact ⟨o, ho, heq.symm⟩

theorem length_candidates (h : s.slots.length = s.world.processes.size) :
    s.candidates.length = s.offers.length := by
  simpa only [List.length_map] using congrArg List.length (map_candidates h)

/-! ## Asking all processes -/

/-- Either some process stops when it is asked, in the world without slots too, or the slots keep
what the processes offer. -/
theorem poll_cases (s : Staged P σ) :
    (∃ f, s.poll = .error f ∧ s.world.offers = .error f) ∨
      ∃ asked : Staged P σ, s.poll = .ok asked ∧ asked.world = s.world ∧
        asked.slots.length = asked.world.processes.size ∧ s.world.offers = .ok asked.offers := by
  rw [poll, World.offers_eq]
  cases h : s.world.processes.toList.mapM fun p => s.world.behaviour p.state s.world.view with
  | error f => exact .inl ⟨f, rfl, rfl⟩
  | ok slots => exact .inr ⟨⟨s.world, slots⟩, rfl, rfl, by simpa using length_of_mapM h, rfl⟩

theorem clear_eq (h : s.slots.length = s.world.processes.size) : s.clear = s.world.staged := by
  rw [clear, World.staged, List.map_const', h]

/-- The kept steps, counted slot by slot. -/
theorem length_candidates_eq_foldr (s : Staged P σ) :
    s.slots.foldr (fun steps n => steps.length + n) 0 = s.candidates.length := by
  have hall : ∀ (slots : List (List (Step P σ))) (k : Nat),
      slots.foldr (fun steps n => steps.length + n) 0 =
        ((slots.zipIdx k).flatMap fun entry =>
          (List.range entry.1.length).map (entry.2, ·)).length := by
    intro slots
    induction slots with
    | nil => exact fun _ => rfl
    | cons steps rest ih =>
      intro k
      rw [List.foldr_cons, List.zipIdx_cons, List.flatMap_cons, List.length_append, ← ih,
        List.length_map, List.length_range]
  exact hall s.slots 0

/-- Where nothing is kept, the slots are empty. -/
theorem eq_staged_of_no_candidates (h : s.slots.length = s.world.processes.size)
    (hnone : s.candidates = []) : s = s.world.staged := by
  have hempty : ∀ steps ∈ s.slots, steps = [] := by
    intro steps hsteps
    obtain ⟨place, hplace⟩ := List.getElem?_of_mem hsteps
    have hmem : (steps, place) ∈ s.slots.zipIdx := List.mem_zipIdx_iff_getElem?.2 hplace
    simpa using List.flatMap_eq_nil_iff.1 hnone _ hmem
  have hslots := List.eq_replicate_iff.2 ⟨h, hempty⟩
  rw [World.staged, ← hslots]

/-! ## Calls -/

/-- To count the offers leaves the slots empty, and the world as it is. -/
theorem enabledCount_eq (s : Staged P σ) :
    s.enabledCount = s.world.enabledCount.map fun n => (n, s.world.staged) := by
  rw [enabledCount, World.enabledCount]
  obtain ⟨f, hpoll, hoffers⟩ | ⟨asked, hpoll, hworld, hlength, hoffers⟩ := s.poll_cases
  · rw [hpoll, hoffers]
    rfl
  · rw [hpoll, hoffers, ← hworld]
    simp only [ok_map]
    rw [length_candidates_eq_foldr, length_candidates hlength, clear_eq hlength]

theorem isQuiescent_eq (s : Staged P σ) :
    s.isQuiescent = s.world.isQuiescent.map fun quiescent => (quiescent, s.world.staged) := by
  rw [isQuiescent, enabledCount_eq, World.enabledCount, World.isQuiescent]
  cases s.world.offers with
  | error f => rfl
  | ok offers => cases offers <;> rfl

/-- To run a kept step is to take the offer that it stands for. Then the slots are empty. -/
theorem fire_eq {place index : Nat} {o : Offer P σ} (h : s.slots.length = s.world.processes.size)
    (ho : s.offer? place index = some o) :
    s.fire place index = (s.world.perform o).map World.staged := by
  rw [fire, ho]
  dsimp only
  cases hperform : s.world.perform o with
  | error f => rfl
  | ok next =>
    refine congrArg Except.ok (clear_eq ?_)
    rw [List.length_modify, h, (World.perform_time hperform).2]

/-- To take a step leaves the slots empty, and the world as without them. -/
theorem step_eq (s : Staged P σ) :
    s.step = s.world.step.map fun (taken, w) => (taken, w.staged) := by
  obtain ⟨f, hpoll, hoffers⟩ | ⟨asked, hpoll, hworld, hlength, hoffers⟩ := s.poll_cases
  · rw [step, hpoll, World.step_of_fault hoffers]
    rfl
  · have hcount := length_candidates hlength
    rw [← hworld] at hoffers ⊢
    rw [step, hpoll, ok_bind]
    split
    · next hsome =>
      -- The generator is asked for a number below the same bound, and so draws the same.
      have hdrawn := List.getElem?_eq_getElem (Generator.below_lt asked.world.generator hsome)
      obtain ⟨o, ho, hoffer⟩ := offer?_of_candidate hlength hdrawn
      have hstep := World.step_of_drawn hoffers (hcount ▸ ho)
      rw [← hcount] at hstep
      have hfire := fire_eq (s := ⟨{ asked.world with
        generator := (asked.world.generator.below asked.candidates.length).2 }, asked.slots⟩)
        hlength hoffer
      rw [hstep]
      refine (congrArg (Except.map (true, ·)) hfire).trans ?_
      cases World.perform _ o <;> rfl
    · next hnone =>
      have hempty := List.length_eq_zero_iff.1 (Nat.le_zero.1 (Nat.not_lt.1 hnone))
      rw [hempty] at hcount
      rw [List.length_eq_zero_iff.1 hcount.symm] at hoffers
      rw [World.step_of_quiescent hoffers]
      exact congrArg (fun t => Except.ok (false, t)) (eq_staged_of_no_candidates hlength hempty)

/-! ## Bounded runs -/

theorem advance_eq (n taken : Nat) (w : World P σ) :
    advance n taken w.staged = (World.advance n taken w).map fun (k, w) => (k, w.staged) := by
  induction n generalizing taken w with
  | zero => rfl
  | succ n ih =>
    rw [advance, World.advance, step_eq, show w.staged.world = w from rfl]
    cases w.step with
    | error f => rfl
    | ok result =>
      obtain ⟨fired, next⟩ := result
      cases fired with
      | false => rfl
      | true => exact ih (taken + 1) next

theorem runSteps_eq (w : World P σ) (n : Nat) :
    w.staged.runSteps n = (w.runSteps n).map fun (outcome, w) => (outcome, w.staged) := by
  rw [runSteps, World.runSteps, advance_eq]
  cases World.advance n 0 w with
  | error f => rfl
  | ok result =>
    obtain ⟨steps, next⟩ := result
    simp only [ok_map, ok_bind]
    split
    · rfl
    · rw [isQuiescent_eq, show next.staged.world = next from rfl]
      cases next.isQuiescent <;> rfl

end Staged

end ActorLogic
