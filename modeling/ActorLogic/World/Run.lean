import ActorLogic.World.Basic
/-!
# Runs of a world

In each tick all processes offer their steps, in the order of their registration, and one of these
is taken at random. If nothing is offered the world is quiescent: no time passes and nothing is
drawn.
-/

namespace ActorLogic

/-- A step offered by the process at a place. -/
structure Offer (P σ : Type) where
  place : Nat
  actor : String
  step : Step P σ

/-- What a bounded run did. -/
structure RunOutcome where
  steps : Nat
  /-- Nothing was offered when the run stopped. -/
  quiescent : Bool
  deriving DecidableEq, Repr

namespace World

variable {P σ : Type}

/-! ## Offers -/

/-- What the process at a place offers. -/
def offersOf (w : World P σ) (p : Process σ) (place : Nat) : Except RunFault (List (Offer P σ)) :=
  (w.behaviour p.state w.view).map fun steps => steps.map fun s => ⟨place, p.id, s⟩

/-- All offered steps, process after process. -/
def offers (w : World P σ) : Except RunFault (List (Offer P σ)) :=
  (w.processes.toList.zipIdx.mapM fun (p, place) => w.offersOf p place).map List.flatten

/-- The number of offered steps. -/
def enabledCount (w : World P σ) : Except RunFault Nat := w.offers.map List.length

def isQuiescent (w : World P σ) : Except RunFault Bool := w.offers.map List.isEmpty

/-! ## Steps -/

/-- The objections of all invariants to a view, in their order. -/
def objections (view : WorldView P) : List (Invariant P) → Except RunFault (List RecordedViolation)
  | [] => .ok []
  | i :: rest => do
    let objection ← i.check view
    let others ← objections view rest
    .ok ((objection.map fun v => ⟨view.time, i.name, i.severity, v⟩).toList ++ others)

/-- Record the objections to the world as it is now, if invariants are checked. -/
def audit (w : World P σ) : Except RunFault (World P σ) :=
  if w.checkInvariants then
    (objections w.view w.invariants.toList).map fun found =>
      { w with violations := w.violations ++ found.toArray }
  else .ok w

/-- The world after a turn of the process at a place, before invariants are checked. -/
def endTurn (w : World P σ) (place : Nat) (label : String) (state : σ) (t : Turn P) : World P σ :=
  { w with
    time := w.time + 1
    processes := w.processes.modify place fun p => { p with state := state }
    channels := t.channels
    events := w.events ++ t.delivery.toArray
    refusedSends := w.refusedSends + t.refused
    fired := w.fired.push ⟨t.actor, label⟩ }

/-- Take an offered step. -/
def perform (w : World P σ) (o : Offer P σ) : Except RunFault (World P σ) := do
  let (state, t) ← Turn.run o.step.action ⟨w.time, o.actor, w.channels, 0, none⟩
  (w.endTurn o.place o.step.label state t).audit

/-- Take the offered step with a number; a number that no offer has changes nothing. -/
def fire (w : World P σ) (k : Nat) : Except RunFault (World P σ) := do
  match (← w.offers)[k]? with
  | some o => w.perform o
  | none => .ok w

/-- Take a random offered step, and tell whether there was one. -/
def step (w : World P σ) : Except RunFault (Bool × World P σ) := do
  let offers ← w.offers
  if h : 0 < offers.length then
    let drawn := w.generator.below offers.length
    let o := offers.get ⟨drawn.1, Generator.below_lt _ h⟩
    (({ w with generator := drawn.2 } : World P σ).perform o).map (true, ·)
  else .ok (false, w)

/-! ## Bounded runs -/

/-- Take up to `n` steps more after `taken` ones, and count all of them. -/
def advance : Nat → Nat → World P σ → Except RunFault (Nat × World P σ)
  | 0, taken, w => .ok (taken, w)
  | n + 1, taken, w =>
    match w.step with
    | .error f => .error f
    | .ok (false, w) => .ok (taken, w)
    | .ok (true, w) => advance n (taken + 1) w

/-- Take up to `n` steps. -/
def runSteps (w : World P σ) (n : Nat) : Except RunFault (RunOutcome × World P σ) := do
  let (steps, w) ← advance n 0 w
  let quiescent ← if steps < n then .ok true else w.isQuiescent
  .ok (⟨steps, quiescent⟩, w)

/-- Take up to as many steps as the world was configured for. -/
def run (w : World P σ) : Except RunFault (RunOutcome × World P σ) := w.runSteps w.maxSteps

end World

end ActorLogic
