import ActorLogic.World.Run
import ActorLogic.Proofs.Result
/-!
# Runs that come to an end

Which step is taken at a tick is left to chance. Where a number tells how many steps are left, and
any offered step leaves one less, the length of a run does not depend on chance: a bounded run takes
as many steps as its bound and the number allow, and then it is known whether anything is offered.
-/

namespace ActorLogic

open Result

variable {P σ : Type}

/-- A world is built if some steps are allowed, all channels can be registered and no two processes
have one name. -/
theorem Setup.build_of_table {s : Setup P σ} {table : ChannelTable P}
    (hsteps : s.config.maxSteps ≠ 0)
    (htable : ChannelTable.empty.register s.channels = .ok table)
    (hnames : firstRepeated [] (s.processes.map (·.id)) = none) (fresh : UInt64) :
    s.build fresh = .ok
      { seed := s.effectiveSeed fresh
        generator := .ofSeed (s.effectiveSeed fresh)
        behaviour := s.behaviour
        processes := s.processes.toArray
        channels := table
        invariants := (Invariant.channelCapacity P :: s.invariants).toArray
        checkInvariants := s.config.checkInvariants
        maxSteps := s.config.maxSteps } := by
  rw [Setup.build, SimulationConfig.validate, if_neg hsteps, ok_bind, htable, ok_bind, hnames]

namespace World

variable {w : World P σ} {offers : List (Offer P σ)}

/-! ## One step -/

/-- A random step is one of those that are offered. -/
theorem step_of_offers (h : w.offers = .ok offers) (hsome : offers ≠ []) :
    ∃ o ∈ offers, ∃ generator : Generator,
      w.step = (({ w with generator := generator } : World P σ).perform o).map (true, ·) := by
  have hpos : 0 < offers.length := List.length_pos_iff.2 hsome
  refine ⟨offers.get ⟨_, Generator.below_lt w.generator hpos⟩, List.get_mem _ _,
    (w.generator.below offers.length).2, ?_⟩
  rw [step, h, ok_bind, dif_pos hpos]

theorem step_of_quiescent (h : w.offers = .ok []) : w.step = .ok (false, w) := by
  rw [step, h]
  rfl

/-! ## Audits that find nothing -/

theorem check_channelCapacity {view : WorldView P}
    (h : ∀ c ∈ view.channels.channels.toList, c.length ≤ c.capacity) :
    (Invariant.channelCapacity P).check view = .ok none := by
  have hnone : (view.channels.channels.toList.find? fun c => decide (c.capacity < c.length)) = none :=
    List.find?_eq_none.2 fun c hc => by simpa using h c hc
  simp only [Invariant.channelCapacity, hnone]
  rfl

theorem objections_channelCapacity {view : WorldView P}
    (h : ∀ c ∈ view.channels.channels.toList, c.length ≤ c.capacity) :
    objections view [Invariant.channelCapacity P] = .ok [] := by
  rw [objections, check_channelCapacity h]
  rfl

/-- Where invariants have no objection, an audit records nothing. -/
theorem audit_of_quiet (h : objections w.view w.invariants.toList = .ok []) : w.audit = .ok w := by
  rw [audit, h]
  split <;> simp

/-! ## Counting down -/

/-- The relation tells how many steps are left: nothing is offered if none is, and any step that is
offered can be taken and leaves one less. -/
structure Countdown (left : Nat → World P σ → Prop) : Prop where
  offers : ∀ {n : Nat} {w : World P σ}, left n w →
    ∃ offers, w.offers = .ok offers ∧ (offers = [] ↔ n = 0)
  perform : ∀ {n : Nat} {w : World P σ} {offers : List (Offer P σ)} {o : Offer P σ}
    (generator : Generator), left (n + 1) w → w.offers = .ok offers → o ∈ offers →
    ∃ next, ({ w with generator := generator } : World P σ).perform o = .ok next ∧ left n next

namespace Countdown

variable {left : Nat → World P σ → Prop} {m : Nat}

theorem stop (h : Countdown left) (hw : left 0 w) : w.step = .ok (false, w) := by
  obtain ⟨offers, hoffers, hiff⟩ := h.offers hw
  exact step_of_quiescent (hiff.2 rfl ▸ hoffers)

theorem step (h : Countdown left) (hw : left (m + 1) w) :
    ∃ next, w.step = .ok (true, next) ∧ left m next := by
  obtain ⟨offers, hoffers, hiff⟩ := h.offers hw
  obtain ⟨o, ho, generator, hstep⟩ := step_of_offers hoffers (mt hiff.1 (Nat.succ_ne_zero m))
  obtain ⟨next, hnext, hleft⟩ := h.perform generator hw hoffers ho
  exact ⟨next, by rw [hstep, hnext, ok_map], hleft⟩

theorem isQuiescent (h : Countdown left) (hw : left m w) :
    w.isQuiescent = .ok (decide (m = 0)) := by
  obtain ⟨offers, hoffers, hiff⟩ := h.offers hw
  rw [World.isQuiescent, hoffers, ok_map]
  exact congrArg _ (Bool.eq_iff_iff.2 (by simpa using hiff))

theorem advance (h : Countdown left) (n taken : Nat) (hw : left m w) :
    ∃ next, World.advance n taken w = .ok (taken + min n m, next) ∧ left (m - n) next := by
  induction n generalizing m taken w with
  | zero => exact ⟨w, by rw [World.advance, Nat.zero_min]; rfl, hw⟩
  | succ n ih =>
    cases m with
    | zero =>
      refine ⟨w, ?_, by rwa [Nat.zero_sub]⟩
      rw [World.advance, h.stop hw]
      rfl
    | succ m =>
      obtain ⟨mid, hstep, hmid⟩ := h.step hw
      obtain ⟨next, hadvance, hnext⟩ := ih (taken + 1) hmid
      refine ⟨next, ?_, by rwa [Nat.succ_sub_succ]⟩
      simp only [World.advance, hstep, hadvance]
      rw [Nat.succ_min_succ, Nat.add_right_comm, Nat.add_assoc]

/-- A bounded run stops at its bound or when no step is left, and reports which. -/
theorem runSteps (h : Countdown left) (n : Nat) (hw : left m w) :
    ∃ next, w.runSteps n = .ok (⟨min n m, decide (m ≤ n)⟩, next) ∧ left (m - n) next := by
  obtain ⟨next, hadvance, hleft⟩ := h.advance n 0 hw
  refine ⟨next, ?_, hleft⟩
  rw [World.runSteps, hadvance, ok_bind, Nat.zero_add]
  dsimp only
  split
  · next hlt =>
    -- The run fell short of its bound, so no step was left.
    have hle : m ≤ n := by omega
    simp [hle]
  · rw [h.isQuiescent hleft]
    simp [Nat.sub_eq_zero_iff_le]

end Countdown

end World

end ActorLogic
