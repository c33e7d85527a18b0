import ActorLogic.Proofs.World.Slots
/-!
# Which step is taken

The offered steps of all processes stand in a row, process after process. The number that is drawn
is that of a step in this row, so each of the numbers below the count of the steps picks one step,
and each step is picked by one number. It is run by the process that offered it. No other process
changes, one tick passes, and none of the steps that were offered is kept for later.
-/

namespace ActorLogic

open Result

/-! ## Lists in a row -/

section Rows

variable {α : Type} {lists : List (List α)} {l : List α} {place index place' index' k : Nat} {a : α}

/-- The element that a list at a place has under an index. -/
def elementAt? (lists : List (List α)) (place index : Nat) : Option α := (lists.getD place [])[index]?

/-- The number of an element when all lists stand in a row: those of earlier lists come first. -/
def numberOf (lists : List (List α)) (place index : Nat) : Nat :=
  (lists.take place).flatten.length + index

theorem numberOf_zero : numberOf lists 0 index = index := by
  rw [numberOf, List.take_zero, List.flatten_nil, List.length_nil, Nat.zero_add]

theorem numberOf_succ : numberOf (l :: lists) (place + 1) index = l.length + numberOf lists place index := by
  rw [numberOf, numberOf, List.take_succ_cons, List.flatten_cons, List.length_append, Nat.add_assoc]

/-- An element stands under its number in the row. -/
theorem getElem?_flatten_numberOf (h : elementAt? lists place index = some a) :
    lists.flatten[numberOf lists place index]? = some a := by
  induction lists generalizing place with
  | nil => simp [elementAt?] at h
  | cons l lists ih =>
    rw [List.flatten_cons]
    cases place with
    | zero =>
      have hl : l[index]? = some a := h
      rw [numberOf_zero, List.getElem?_append_left (List.getElem?_eq_some_iff.1 hl).1, hl]
    | succ place =>
      rw [numberOf_succ, List.getElem?_append_right (Nat.le_add_right _ _), Nat.add_sub_cancel_left]
      exact ih h

/-- Every number in the row is that of an element. -/
theorem exists_numberOf (h : k < lists.flatten.length) :
    ∃ place index a, elementAt? lists place index = some a ∧ numberOf lists place index = k := by
  induction lists generalizing k with
  | nil => exact absurd h (Nat.not_lt_zero k)
  | cons l lists ih =>
    rcases Nat.lt_or_ge k l.length with hfirst | hlater
    · exact ⟨0, k, l[k], List.getElem?_eq_getElem hfirst, numberOf_zero⟩
    · rw [List.flatten_cons, List.length_append] at h
      obtain ⟨place, index, a, ha, hk⟩ := ih (k := k - l.length) (by omega)
      exact ⟨place + 1, index, a, ha, by rw [numberOf_succ, hk]; omega⟩

/-- Different elements have different numbers. -/
theorem numberOf_inj {b : α} (h : elementAt? lists place index = some a)
    (h' : elementAt? lists place' index' = some b)
    (heq : numberOf lists place index = numberOf lists place' index') :
    place = place' ∧ index = index' := by
  induction lists generalizing place place' with
  | nil => simp [elementAt?] at h
  | cons l lists ih =>
    cases place with
    | zero =>
      have hlt : index < l.length := (List.getElem?_eq_some_iff.1 h).1
      cases place' with
      | zero => exact ⟨rfl, by rwa [numberOf_zero, numberOf_zero] at heq⟩
      | succ place' =>
        rw [numberOf_zero, numberOf_succ] at heq
        omega
    | succ place =>
      cases place' with
      | zero =>
        have hlt : index' < l.length := (List.getElem?_eq_some_iff.1 h').1
        rw [numberOf_zero, numberOf_succ] at heq
        omega
      | succ place' =>
        rw [numberOf_succ, numberOf_succ] at heq
        obtain ⟨rfl, rfl⟩ := ih h h' (Nat.add_left_cancel heq)
        exact ⟨rfl, rfl⟩

end Rows

variable {P σ : Type}

/-! ## Drawing -/

/-- What the processes offer, a list for each, in the order of their registration. -/
def World.ready (w : World P σ) : Except RunFault (List (List (Step P σ))) :=
  w.processes.toList.mapM fun p => w.behaviour p.state w.view

namespace Staged

variable {s : Staged P σ} {lists : List (List (Step P σ))} {place index k : Nat}

/-- Take the offered step that is drawn, and tell whether there was one. The draw is given the number
of offered steps, and also leaves a generator. -/
def stepBy (draw : Nat → Nat × Generator) (s : Staged P σ) :
    Except RunFault (Bool × Staged P σ) := do
  let s ← s.poll
  let drawn := draw s.candidates.length
  match s.candidates[drawn.1]? with
  | some (place, index) =>
    (fire ⟨{ s.world with generator := drawn.2 }, s.slots⟩ place index).map (true, ·)
  | none => .ok (false, s)

theorem poll_of_ready (h : s.world.ready = .ok lists) : s.poll = .ok ⟨s.world, lists⟩ := by
  rw [poll, ← World.ready, h]
  rfl

/-- A random step is drawn by the generator of the world. -/
theorem step_eq_stepBy (s : Staged P σ) : s.step = s.stepBy s.world.generator.below := by
  obtain ⟨f, hpoll, -⟩ | ⟨asked, hpoll, hworld, -⟩ := s.poll_cases
  · rw [step, stepBy, hpoll]
    rfl
  · rw [step, stepBy, hpoll, ok_bind, ok_bind, ← hworld]
    split
    · next hsome =>
      dsimp only
      rw [List.getElem?_eq_getElem (Generator.below_lt asked.world.generator hsome)]
      rfl
    · next hnone =>
      rw [List.length_eq_zero_iff.1 (Nat.le_zero.1 (Nat.not_lt.1 hnone))]
      rfl

theorem length_candidates_eq_flatten (s : Staged P σ) :
    s.candidates.length = s.slots.flatten.length := by
  have hlengths : s.slots.map List.length = s.slots.zipIdx.map fun entry => entry.1.length := by
    rw [← List.zipIdx_map_fst 0 s.slots, List.map_map, List.zipIdx_map_fst]
    rfl
  rw [candidates, List.length_flatMap, List.length_flatten, hlengths]
  simp only [List.length_map, List.length_range]

/-- The candidate with the number of a step stands for that step. -/
theorem getElem?_candidates {step : Step P σ} (h : elementAt? s.slots place index = some step) :
    s.candidates[numberOf s.slots place index]? = some (place, index) := by
  have hall : ∀ (slots : List (List (Step P σ))) (first place : Nat),
      elementAt? slots place index = some step →
        ((slots.zipIdx first).flatMap fun entry =>
          (List.range entry.1.length).map (entry.2, ·))[numberOf slots place index]? =
            some (first + place, index) := by
    intro slots
    induction slots with
    | nil => simp [elementAt?]
    | cons steps rest ih =>
      intro first place h
      rw [List.zipIdx_cons, List.flatMap_cons]
      cases place with
      | zero =>
        have hlt : index < steps.length := (List.getElem?_eq_some_iff.1 h).1
        rw [numberOf_zero, List.getElem?_append_left (by simpa using hlt)]
        simp [hlt]
      | succ place =>
        rw [numberOf_succ, List.getElem?_append_right (by simp), List.length_map,
          List.length_range, Nat.add_sub_cancel_left, ih (first + 1) place h, Nat.add_assoc,
          Nat.add_comm 1]
  have hfound := hall s.slots 0 place h
  rwa [Nat.zero_add] at hfound

/-! ## Taking the step -/

/-- The process at a place took a step: what became of the world and of its slots. -/
structure Took (w : World P σ) (place : Nat) (p : Process σ) (step : Step P σ)
    (after : Staged P σ) : Prop where
  /-- The action of the step ran to its end in a turn of the process, -/
  ran : ∃ state t, Turn.run step.action ⟨w.time, p.id, w.channels, 0, none⟩ = .ok (state, t) ∧
    after.world.processes[place]? = some { p with state := state } ∧
    after.world.channels = t.channels
  fired : after.world.fired = w.fired.push ⟨p.id, step.label⟩
  /-- and no other process changed. -/
  others : ∀ i, i ≠ place → after.world.processes[i]? = w.processes[i]?
  time : after.world.time = w.time + 1
  cleared : ∀ kept ∈ after.slots, kept = []

theorem took_of_perform {w next : World P σ} {p : Process σ} {step : Step P σ}
    {generator : Generator} (hp : w.processes[place]? = some p)
    (h : ({ w with generator := generator } : World P σ).perform ⟨place, p.id, step⟩ = .ok next) :
    Took w place p step next.staged := by
  obtain ⟨state, t, hrun, heq⟩ := World.perform_ok h
  -- An audit has no part in what is told here.
  have hworld : next.staged.world = next := rfl
  have hprocesses : next.processes =
      w.processes.modify place fun p => { p with state := state } := by rw [heq]; rfl
  refine ⟨⟨state, t, hrun, ?_, ?_⟩, ?_, fun i hi => ?_, ?_, fun kept hkept => ?_⟩
  · rw [hworld, hprocesses, Array.getElem?_modify, if_pos rfl, hp]
    rfl
  · rw [hworld, heq]
    rfl
  · have hactor : t.actor = p.id := Turn.run_actor hrun
    rw [hworld, heq, ← hactor]
    rfl
  · rw [hworld, hprocesses, Array.getElem?_modify, if_neg hi.symm]
  · rw [hworld, heq]
    rfl
  · exact List.eq_of_mem_replicate hkept

/-- The step with the number that is drawn is taken. -/
theorem stepBy_of_numberOf (hready : s.world.ready = .ok lists) {step : Step P σ} {p : Process σ}
    (hstep : elementAt? lists place index = some step) (hp : s.world.processes[place]? = some p)
    {draw : Nat → Nat × Generator} {generator : Generator}
    (hdraw : draw lists.flatten.length = (numberOf lists place index, generator)) :
    s.stepBy draw = (({ s.world with generator := generator } : World P σ).perform
      ⟨place, p.id, step⟩).map fun w => (true, w.staged) := by
  have hcount := length_candidates_eq_flatten (⟨s.world, lists⟩ : Staged P σ)
  have hcandidate := getElem?_candidates (s := ⟨s.world, lists⟩) hstep
  have hlength : lists.length = s.world.processes.size := by simpa using length_of_mapM hready
  have hoffer : offer? (⟨{ s.world with generator := generator }, lists⟩ : Staged P σ) place index =
      some ⟨place, p.id, step⟩ := by
    rw [elementAt?] at hstep
    simp only [offer?, hp, hstep]
  rw [stepBy, poll_of_ready hready, ok_bind]
  dsimp only at hcount hcandidate ⊢
  rw [hcount, hdraw]
  dsimp only
  rw [hcandidate]
  dsimp only
  rw [fire_eq (s := ⟨{ s.world with generator := generator }, lists⟩) hlength hoffer]
  cases World.perform _ _ <;> rfl

theorem exists_process (hready : s.world.ready = .ok lists) {step : Step P σ}
    (hstep : elementAt? lists place index = some step) : ∃ p, s.world.processes[place]? = some p := by
  have hlength : lists.length = s.world.processes.size := by simpa using length_of_mapM hready
  have hlt : place < s.world.processes.size := by
    by_contra hge
    have hnone : lists[place]? = none := List.getElem?_eq_none (by omega)
    simp [elementAt?, hnone] at hstep
  exact ⟨_, Array.getElem?_eq_getElem hlt⟩

/-- How drawn numbers and offered steps go together, where the processes offer these lists. -/
structure Draws (s : Staged P σ) (lists : List (List (Step P σ))) : Prop where
  /-- A random step draws a number below that of the offered steps. -/
  drawn : s.step = s.stepBy s.world.generator.below ∧
    (s.world.generator.below lists.flatten.length).1 < lists.flatten.length
  /-- Whichever number is drawn, the process runs that offered the step with this number. -/
  picks : ∀ (draw : Nat → Nat × Generator) (k : Nat) (generator : Generator),
    draw lists.flatten.length = (k, generator) → k < lists.flatten.length →
    ∃ place index p step, s.world.processes[place]? = some p ∧
      elementAt? lists place index = some step ∧ numberOf lists place index = k ∧
      lists.flatten[k]? = some step ∧
      s.stepBy draw = (({ s.world with generator := generator } : World P σ).perform
        ⟨place, p.id, step⟩).map (fun w => (true, w.staged)) ∧
      ∀ taken after, s.stepBy draw = .ok (taken, after) →
        taken = true ∧ Took s.world place p step after
  /-- Every offered step has one of the numbers, and no two have the same. -/
  reached : ∀ place index step, elementAt? lists place index = some step →
    numberOf lists place index < lists.flatten.length
  apart : ∀ place index place' index' step step', elementAt? lists place index = some step →
    elementAt? lists place' index' = some step' →
    numberOf lists place index = numberOf lists place' index' → place = place' ∧ index = index'

/-- In any world whose processes offer steps, each of the numbers that can be drawn takes one of these
steps, and each of the steps is taken for one number. -/
theorem draws (hready : s.world.ready = .ok lists) (hsome : 0 < lists.flatten.length) :
    s.Draws lists where
  drawn := ⟨s.step_eq_stepBy, Generator.below_lt _ hsome⟩
  picks draw k generator hdraw hk := by
    obtain ⟨place, index, step, hstep, rfl⟩ := exists_numberOf hk
    obtain ⟨p, hp⟩ := exists_process hready hstep
    have hresult := stepBy_of_numberOf hready hstep hp hdraw
    refine ⟨place, index, p, step, hp, hstep, rfl, getElem?_flatten_numberOf hstep, hresult, ?_⟩
    intro taken after hafter
    rw [hresult] at hafter
    obtain ⟨next, hnext, heq⟩ := map_eq_ok.1 hafter
    cases heq
    exact ⟨rfl, took_of_perform hp hnext⟩
  reached _ _ _ hstep := (List.getElem?_eq_some_iff.1 (getElem?_flatten_numberOf hstep)).1
  apart _ _ _ _ _ _ := numberOf_inj

/-- A step that ends the turn in a state. -/
def becomes (n : Nat) : Step Nat Nat := ⟨"become", .done n⟩

/-- Three processes offer no step, two steps and one step. A slot still keeps a step from before. -/
def uneven : Staged Nat Nat where
  world :=
    { seed := 1
      generator := .ofSeed 1
      behaviour := fun n _ => .ok ((List.range n).map becomes)
      processes := #[⟨"idle", 0⟩, ⟨"double", 2⟩, ⟨"single", 1⟩]
      channels := .empty
      invariants := #[]
      checkInvariants := false
      maxSteps := 1 }
  slots := [[becomes 7]]

theorem draws_uneven :
    let lists := [[], [becomes 0, becomes 1], [becomes 0]]
    uneven.world.ready = .ok lists ∧ 0 < lists.flatten.length ∧ uneven.Draws lists := by
  intro lists
  have hready : uneven.world.ready = .ok lists := rfl
  exact ⟨hready, by decide, draws hready (by decide)⟩

/-- The last of three numbers is that of the step of the last process. -/
example : (uneven.stepBy fun _ => (2, .ofSeed 1)).toOption.map
    (fun result => result.2.world.processes.map (·.state)) = some #[0, 2, 0] := by cbv

end Staged

end ActorLogic
