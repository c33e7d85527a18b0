import ActorLogic.Proofs.World.Slots
/-!
# Sequences of calls

A world is driven by calls: bounded runs, single steps, and questions about what is offered. What
becomes of it depends on the number of steps that were taken and on nothing else. So a run may be cut
into any calls that take as many steps, and a call that takes none may be put in or left out anywhere.
-/

namespace ActorLogic

open Result

variable {P σ : Type}

/-- A call to a world. -/
inductive Request where
  | enabledCount
  | isQuiescent
  | step
  | runSteps (n : Nat)
  deriving DecidableEq, Repr

inductive Reply where
  | counted (n : Nat)
  | quiescent (told : Bool)
  | stepped (taken : Bool)
  | ran (outcome : RunOutcome)
  deriving DecidableEq, Repr

/-- How many steps were taken in a call with this reply. -/
def Reply.steps : Reply → Nat
  | .counted _ | .quiescent _ => 0
  | .stepped taken => taken.toNat
  | .ran outcome => outcome.steps

/-- How many steps were taken in all calls. -/
def stepsOf (log : List (Request × Reply)) : Nat :=
  log.foldr (fun call n => call.2.steps + n) 0

/-- The second log has all calls of the first one, and between them calls that took no step. -/
inductive Padded : List (Request × Reply) → List (Request × Reply) → Prop where
  | nil : Padded [] []
  | same {few more : List (Request × Reply)} (call : Request × Reply) :
      Padded few more → Padded (call :: few) (call :: more)
  | idle {few more : List (Request × Reply)} (call : Request × Reply) :
      call.2.steps = 0 → Padded few more → Padded few (call :: more)

namespace Staged

def serve (s : Staged P σ) : Request → Except RunFault (Reply × Staged P σ)
  | .enabledCount => s.enabledCount.map fun (n, s) => (.counted n, s)
  | .isQuiescent => s.isQuiescent.map fun (told, s) => (.quiescent told, s)
  | .step => s.step.map fun (taken, s) => (.stepped taken, s)
  | .runSteps n => (s.runSteps n).map fun (outcome, s) => (.ran outcome, s)

/-- These calls were made one after the other, and each was answered. -/
inductive Answers : Staged P σ → List (Request × Reply) → Staged P σ → Prop where
  | nil (s : Staged P σ) : Answers s [] s
  | cons {s mid last : Staged P σ} {request : Request} {reply : Reply}
      {log : List (Request × Reply)} :
      s.serve request = .ok (reply, mid) → Answers mid log last →
      Answers s ((request, reply) :: log) last

end Staged

namespace World

variable {w mid next : World P σ} {s : Staged P σ} {request : Request} {reply : Reply}
  {log before after few more : List (Request × Reply)} {m n : Nat}

/-- Exactly this number of steps leads from the one world to the other. -/
def Reaches (w : World P σ) (n : Nat) (next : World P σ) : Prop := advance n 0 w = .ok (n, next)

theorem Reaches.refl (w : World P σ) : w.Reaches 0 w := rfl

theorem reaches_one (h : w.step = .ok (true, next)) : w.Reaches 1 next := by
  rw [Reaches, advance, h]
  rfl

theorem Reaches.trans (h : w.Reaches m mid) (hmore : mid.Reaches n next) :
    w.Reaches (m + n) next := by
  have hcount := advance_taken n 0 m mid
  rw [Nat.zero_add] at hcount
  rw [Reaches, advance_add, h, ok_bind]
  dsimp only
  rw [hcount, hmore, ok_map, Nat.add_comm]

theorem Reaches.eq_of_zero (h : w.Reaches 0 next) : next = w := by
  cases h
  rfl

/-! ## One call -/

/-- A call leaves the slots empty, and the world where its steps lead. -/
theorem serve_reaches (h : w.staged.serve request = .ok (reply, s)) :
    ∃ next, s = next.staged ∧ w.Reaches reply.steps next := by
  cases request with
  | enabledCount =>
    rw [Staged.serve, Staged.enabledCount_eq] at h
    obtain ⟨_, hcount, heq⟩ := map_eq_ok.1 h
    obtain ⟨_, -, rfl⟩ := map_eq_ok.1 hcount
    cases heq
    exact ⟨w, rfl, .refl w⟩
  | isQuiescent =>
    rw [Staged.serve, Staged.isQuiescent_eq] at h
    obtain ⟨_, hasked, heq⟩ := map_eq_ok.1 h
    obtain ⟨_, -, rfl⟩ := map_eq_ok.1 hasked
    cases heq
    exact ⟨w, rfl, .refl w⟩
  | step =>
    rw [Staged.serve, Staged.step_eq] at h
    obtain ⟨_, htaken, heq⟩ := map_eq_ok.1 h
    obtain ⟨⟨taken, next⟩, hstep, rfl⟩ := map_eq_ok.1 htaken
    cases heq
    refine ⟨next, rfl, ?_⟩
    cases taken with
    | true => exact reaches_one hstep
    | false =>
      obtain ⟨-, heq⟩ := quiescent_of_step hstep
      rw [show next = w from heq]
      exact .refl w
  | runSteps n =>
    rw [Staged.serve, Staged.runSteps_eq, runSteps_eq] at h
    obtain ⟨_, hran, heq⟩ := map_eq_ok.1 h
    obtain ⟨_, hrun, rfl⟩ := map_eq_ok.1 hran
    obtain ⟨⟨steps, next⟩, hadvance, hasked⟩ := bind_eq_ok.1 hrun
    obtain ⟨_, -, rfl⟩ := map_eq_ok.1 hasked
    cases heq
    obtain ⟨k, -, hk, -, hexact, -⟩ := advance_ok hadvance
    rw [Nat.zero_add] at hk
    exact ⟨next, rfl, by rw [Reaches, Reply.steps]; exact hk ▸ hexact⟩

/-- A call that took no step changed nothing. -/
theorem serve_idle (h : w.staged.serve request = .ok (reply, s)) (hidle : reply.steps = 0) :
    s = w.staged := by
  obtain ⟨next, rfl, hreaches⟩ := serve_reaches h
  rw [hidle] at hreaches
  rw [hreaches.eq_of_zero]

end World

/-! ## Many calls -/

namespace Staged.Answers

variable {w mid : World P σ} {s last : Staged P σ} {request : Request} {reply : Reply}
  {log before after few more : List (Request × Reply)}

/-- The calls lead as far as their steps do. -/
theorem reaches (h : w.staged.Answers log s) :
    ∃ next, s = next.staged ∧ w.Reaches (stepsOf log) next := by
  induction log generalizing w with
  | nil =>
    cases h
    exact ⟨w, rfl, .refl w⟩
  | cons call log ih =>
    cases h with
    | cons hserve hrest =>
      obtain ⟨mid, rfl, hmid⟩ := World.serve_reaches hserve
      obtain ⟨next, rfl, hnext⟩ := ih hrest
      exact ⟨next, rfl, hmid.trans hnext⟩

/-- Calls that took no step may be left out. -/
theorem of_padded (hpadded : Padded few more) (h : w.staged.Answers more s) :
    w.staged.Answers few s := by
  induction hpadded generalizing w with
  | nil => exact h
  | same call _ ih =>
    cases h with
    | cons hserve hrest =>
      obtain ⟨mid, rfl, -⟩ := World.serve_reaches hserve
      exact .cons hserve (ih hrest)
  | idle call hidle _ ih =>
    cases h with
    | cons hserve hrest => exact ih (World.serve_idle hserve hidle ▸ hrest)

/-- A call that takes no step may be put in. -/
theorem insert (hbefore : w.staged.Answers before mid.staged)
    (hserve : mid.staged.serve request = .ok (reply, s)) (hidle : reply.steps = 0)
    (hafter : mid.staged.Answers after last) :
    w.staged.Answers (before ++ (request, reply) :: after) last := by
  induction before generalizing w with
  | nil =>
    cases hbefore
    exact .cons hserve (World.serve_idle hserve hidle ▸ hafter)
  | cons call before ih =>
    cases hbefore with
    | cons hcall hrest =>
      obtain ⟨between, rfl, -⟩ := World.serve_reaches hcall
      exact .cons hcall (ih hrest)

end Staged.Answers

namespace World

/-- Runs of a world add up, and calls that take no step make no difference. -/
structure AddsUp (w : World P σ) : Prop where
  /-- Two runs are one run with both bounds: their steps add up, and the last word on quiescence is
  the same. -/
  split : ∀ m n, (w.staged.runSteps m >>= fun (first, s) => (s.runSteps n).map fun (second, s) =>
    ((⟨first.steps + second.steps, second.quiescent⟩ : RunOutcome), s)) = w.staged.runSteps (m + n)
  /-- A run tells how many steps it took, and whether it stopped because nothing is offered. -/
  outcome : ∀ n outcome s, w.staged.runSteps n = .ok (outcome, s) →
    s.world.time = w.time + outcome.steps ∧ outcome.steps ≤ n ∧
      (outcome.quiescent = true ↔ s.world.Quiet)
  /-- What comes of any calls is determined by the number of steps that were taken in them. -/
  cut : ∀ log s, w.staged.Answers log s → ∃ next, s = next.staged ∧ w.Reaches (stepsOf log) next
  /-- Without the calls in which no step was taken, the others are answered as with them. -/
  without : ∀ few more s, Padded few more → w.staged.Answers more s → w.staged.Answers few s
  /-- With one more call in which no step is taken, the others are answered as without it. -/
  insert : ∀ before after mid request reply s last, w.staged.Answers before mid →
    mid.serve request = .ok (reply, s) → reply.steps = 0 → mid.Answers after last →
    w.staged.Answers (before ++ (request, reply) :: after) last
  /-- Where all processes answer, the questions about offers are answered too. -/
  asked : ∀ offers, w.offers = .ok offers →
    w.staged.enabledCount = .ok (offers.length, w.staged) ∧
      w.staged.isQuiescent = .ok (offers.isEmpty, w.staged)
  /-- A step of a quiescent world changes nothing, not even the generator. -/
  quiescent : w.Quiet → w.staged.step = .ok (false, w.staged)
  /-- The slots only hold what was offered for as long as a call takes. -/
  unslotted : (∀ n, w.staged.runSteps n = (w.runSteps n).map fun (outcome, w) => (outcome, w.staged)) ∧
    w.staged.step = w.step.map fun (taken, w) => (taken, w.staged)

/-- For every world whose processes offer what follows from their states and what they see, runs add
up. -/
theorem addsUp (w : World P σ) : w.AddsUp where
  split m n := by
    rw [Staged.runSteps_eq, Staged.runSteps_eq, ← runSteps_add]
    cases w.runSteps m with
    | error f => rfl
    | ok result =>
      obtain ⟨first, mid⟩ := result
      simp only [ok_map, ok_bind, Staged.runSteps_eq]
      cases mid.runSteps n <;> rfl
  outcome n outcome s h := by
    rw [Staged.runSteps_eq, runSteps_eq] at h
    obtain ⟨_, hrun, heq⟩ := map_eq_ok.1 h
    obtain ⟨⟨steps, next⟩, hadvance, hasked⟩ := bind_eq_ok.1 hrun
    obtain ⟨quiescent, hquiescent, rfl⟩ := map_eq_ok.1 hasked
    cases heq
    obtain ⟨k, hk, hsteps, htime, -, -⟩ := advance_ok hadvance
    rw [Nat.zero_add] at hsteps
    obtain ⟨offers, hoffers, rfl⟩ := map_eq_ok.1 hquiescent
    refine ⟨hsteps ▸ htime, hsteps ▸ hk, ?_⟩
    rw [show next.staged.world = next from rfl, quiet_iff, hoffers, List.isEmpty_iff,
      Except.ok.injEq]
  cut log s := Staged.Answers.reaches
  without few more s := Staged.Answers.of_padded
  insert before after mid request reply s last hbefore hserve hidle hafter := by
    obtain ⟨between, rfl, -⟩ := hbefore.reaches
    exact hbefore.insert hserve hidle hafter
  asked offers h := by
    rw [Staged.enabledCount_eq, Staged.isQuiescent_eq, enabledCount, isQuiescent,
      show w.staged.world = w from rfl, h]
    exact ⟨rfl, rfl⟩
  quiescent h := by
    rw [Staged.step_eq, show w.staged.world = w from rfl, step_of_quiescent (quiet_iff.1 h)]
    rfl
  unslotted := ⟨Staged.runSteps_eq w, Staged.step_eq w.staged⟩

end World

end ActorLogic
