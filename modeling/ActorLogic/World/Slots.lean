import ActorLogic.World.Run
/-!
# Worlds with slots

Each process of a world stands in a slot that keeps the steps it offered when it was asked last. To
count the offers, all processes are asked and the slots are cleared again. To take a step, all
processes are asked, one of the kept steps is drawn by its slot and its number there, and the slots
are cleared after it ran. Both use the same slots, also where nobody takes a step.
-/

namespace ActorLogic

/-- A world and what the slots of its processes keep, in the order of the processes. -/
structure Staged (P σ : Type) where
  world : World P σ
  slots : List (List (Step P σ))

variable {P σ : Type}

/-- Nothing is kept. -/
def World.staged (w : World P σ) : Staged P σ := ⟨w, List.replicate w.processes.size []⟩

/-- The list without the element at a place, to which the last element moves. -/
def swapRemove {α : Type} (l : List α) (i : Nat) : List α :=
  match l.getLast? with
  | some last => (l.set i last).dropLast
  | none => []

namespace Staged

/-! ## Slots -/

/-- Ask all processes in their order. What a process offers replaces what its slot kept. -/
def poll (s : Staged P σ) : Except RunFault (Staged P σ) :=
  (s.world.processes.toList.mapM fun p => s.world.behaviour p.state s.world.view).map
    fun slots => { s with slots := slots }

def clear (s : Staged P σ) : Staged P σ := { s with slots := s.slots.map fun _ => [] }

/-- The kept steps, each by the place of its slot and its number there. -/
def candidates (s : Staged P σ) : List (Nat × Nat) :=
  s.slots.zipIdx.flatMap fun (steps, place) => (List.range steps.length).map (place, ·)

/-- The step that is kept at a place under a number, as an offer of the process there. -/
def offer? (s : Staged P σ) (place index : Nat) : Option (Offer P σ) :=
  match s.world.processes[place]?, (s.slots.getD place [])[index]? with
  | some p, some step => some ⟨place, p.id, step⟩
  | _, _ => none

/-! ## Calls -/

/-- The number of offered steps. -/
def enabledCount (s : Staged P σ) : Except RunFault (Nat × Staged P σ) :=
  s.poll.map fun s => (s.slots.foldr (fun steps n => steps.length + n) 0, s.clear)

def isQuiescent (s : Staged P σ) : Except RunFault (Bool × Staged P σ) :=
  s.enabledCount.map fun (n, s) => (decide (n = 0), s)

/-- Take a kept step out of its slot and run it. If none is kept there, nothing happens. -/
def fire (s : Staged P σ) (place index : Nat) : Except RunFault (Staged P σ) :=
  match s.offer? place index with
  | some o =>
    (s.world.perform o).map fun w => clear ⟨w, s.slots.modify place (swapRemove · index)⟩
  | none => .ok s

/-- Take a random offered step, and tell whether there was one. -/
def step (s : Staged P σ) : Except RunFault (Bool × Staged P σ) := do
  let s ← s.poll
  if h : 0 < s.candidates.length then
    let drawn := s.world.generator.below s.candidates.length
    let chosen := s.candidates.get ⟨drawn.1, Generator.below_lt _ h⟩
    (fire ⟨{ s.world with generator := drawn.2 }, s.slots⟩ chosen.1 chosen.2).map (true, ·)
  else .ok (false, s)

/-- Take up to `n` steps more after `taken` ones, and count all of them. -/
def advance : Nat → Nat → Staged P σ → Except RunFault (Nat × Staged P σ)
  | 0, taken, s => .ok (taken, s)
  | n + 1, taken, s =>
    match s.step with
    | .error f => .error f
    | .ok (false, s) => .ok (taken, s)
    | .ok (true, s) => advance n (taken + 1) s

/-- Take up to `n` steps. -/
def runSteps (s : Staged P σ) (n : Nat) : Except RunFault (RunOutcome × Staged P σ) := do
  let (steps, s) ← advance n 0 s
  if steps < n then .ok (⟨steps, true⟩, s)
  else s.isQuiescent.map fun (quiescent, s) => (⟨steps, quiescent⟩, s)

end Staged

end ActorLogic
