import ActorLogic.Model.Counter
import ActorLogic.Proofs.World.Audit
/-!
# What a counter does

In a world of a counter alone every step counts up or down by one, whichever is drawn. The value is
what the steps of both kinds add up to, and it stays between its bounds and where it began. With room
between zero and a maximum above it, a step is always offered, and neither kind of step can be taken
for long without the other.
-/

namespace ActorLogic.Counter

open Result

variable {P : Type}

/-! ## Steps -/

/-- The ways a counter moves, by their labels. -/
inductive Moves (c : Counter) : String → Counter → Prop where
  | increment (h : c.value < c.max) : Moves c "increment" c.increment
  | decrement (h : 0 < c.value) : Moves c "decrement" c.decrement

/-- A counter offers the steps that move it, and no others. -/
theorem moves_of_mem {c : Counter} {s : Step P Counter} (h : s ∈ c.steps P) :
    ∃ d, s.action = .done d ∧ Moves c s.label d := by
  simp only [steps, List.mem_append, List.mem_ite_nil_right, List.mem_singleton] at h
  obtain ⟨hroom, rfl⟩ | ⟨hpositive, rfl⟩ := h
  · exact ⟨_, rfl, .increment hroom⟩
  · exact ⟨_, rfl, .decrement hpositive⟩

theorem steps_eq_nil {c : Counter} : c.steps P = [] ↔ c.max ≤ c.value ∧ c.value ≤ 0 := by
  simp [steps]

/-- The numbers of a signed word of 64 bits. -/
def IsInt64 (v : Int) : Prop := Int64.minValue.toInt ≤ v ∧ v ≤ Int64.maxValue.toInt

/-! ## A counter alone -/

/-- The only process of the world is a counter in this state. -/
structure Alone (w : World P Counter) (c : Counter) : Prop where
  behaviour : w.behaviour = Counter.behaviour P
  processes : w.processes = #[⟨actor, c⟩]

namespace Alone

variable {w next : World P Counter} {c : Counter} {o : Offer P Counter}
  {offers : List (Offer P Counter)} {generator : Generator}

theorem process? (h : Alone w c) : w.process? actor = some c := by
  rw [World.process?, h.processes]
  rfl

theorem offers_eq (h : Alone w c) :
    w.offers = .ok ((c.steps P).map fun s => ⟨0, actor, s⟩) := by
  simp only [World.offers, World.offersOf, h.behaviour, h.processes, Counter.behaviour]
  exact congrArg Except.ok (List.append_nil _)

theorem isQuiescent (h : Alone w c) :
    w.isQuiescent = .ok (decide (c.max ≤ c.value ∧ c.value ≤ 0)) := by
  rw [World.isQuiescent, h.offers_eq, ok_map]
  exact congrArg _ (Bool.eq_iff_iff.2 (by simp [steps_eq_nil]))

/-- An offered step ends its turn at once, in a state into which the counter moves. -/
theorem moves (h : Alone w c) (hoffers : w.offers = .ok offers) (ho : o ∈ offers) :
    ∃ d, o.place = 0 ∧ o.step.action = .done d ∧ Moves c o.step.label d := by
  rw [h.offers_eq, Except.ok.injEq] at hoffers
  subst hoffers
  obtain ⟨s, hs, rfl⟩ := List.mem_map.1 ho
  obtain ⟨d, haction, hmoves⟩ := moves_of_mem hs
  exact ⟨d, rfl, haction, hmoves⟩

/-- A step moves the counter and lets a tick pass. Nothing is delivered. -/
theorem perform (h : Alone w c) (hoffers : w.offers = .ok offers) (ho : o ∈ offers)
    (hnext : ({ w with generator := generator } : World P Counter).perform o = .ok next) :
    ∃ d, Moves c o.step.label d ∧ Alone next d ∧ next.time = w.time + 1 ∧
      next.events = w.events := by
  obtain ⟨d, hplace, haction, hmoves⟩ := h.moves hoffers ho
  obtain ⟨state, t, hrun, heq⟩ := World.perform_ok hnext
  rw [haction] at hrun
  cases hrun
  refine ⟨d, hmoves, ⟨?_, ?_⟩, ?_, ?_⟩
  · rw [heq]
    exact h.behaviour
  · rw [heq, World.endTurn, hplace, h.processes]
    rfl
  · rw [heq]
    rfl
  · rw [heq]
    exact Array.append_empty

/-- Only an invariant that does not answer can stand in the way of an offered step. -/
theorem exists_perform (h : Alone w c) (hoffers : w.offers = .ok offers) (ho : o ∈ offers)
    (hanswers : ∀ i ∈ w.invariants.toList, ∀ view, ∃ objection, i.check view = .ok objection)
    (generator : Generator) :
    ∃ next, ({ w with generator := generator } : World P Counter).perform o = .ok next := by
  obtain ⟨d, -, haction, -⟩ := h.moves hoffers ho
  rw [World.perform, haction, Turn.run, ok_bind]
  exact World.exists_audit fun i hi => hanswers i hi _

end Alone

/-! ## What the steps add up to -/

/-- The ticks in which a step with a label was taken. -/
def taken (label : String) (past : List (Tick P Counter)) : Nat :=
  past.countP fun tick => tick.offer.step.label = label

theorem taken_append (label : String) (past more : List (Tick P Counter)) :
    taken label (past ++ more) = taken label past + taken label more := List.countP_append

theorem taken_tick (label : String) (past : List (Tick P Counter)) (tick : Tick P Counter) :
    taken label (past ++ [tick]) =
      taken label past + if tick.offer.step.label = label then 1 else 0 := by
  simp [taken, List.countP_singleton]

/-- The state of a counter that began somewhere, and of its world, after the steps of a run. -/
structure Tally (first limit : Int) (past : List (Tick P Counter)) (w : World P Counter)
    (c : Counter) : Prop where
  alone : Alone w c
  max : c.max = limit
  value : c.value = first + c.increments - c.decrements
  total : c.increments + c.decrements = past.length
  increments : c.increments = taken "increment" past
  decrements : c.decrements = taken "decrement" past
  lower : Min.min first 0 ≤ c.value
  upper : c.value ≤ Max.max first limit
  time : w.time = past.length
  events : w.events = #[]

namespace Tally

variable {first limit : Int} {past : List (Tick P Counter)} {w next : World P Counter}
  {c d : Counter} {o : Offer P Counter}

theorem start (halone : Alone w (.new first limit)) (htime : w.time = 0) (hevents : w.events = #[]) :
    Tally first limit [] w (.new first limit) where
  alone := halone
  max := rfl
  value := by simp [Counter.new]
  total := rfl
  increments := rfl
  decrements := rfl
  lower := Int.min_le_left first 0
  upper := Int.le_max_left first limit
  time := htime
  events := hevents

/-- A step goes up only below the maximum and down only above zero, so it passes no bound. -/
theorem tick (h : Tally first limit past w c) (hmoves : Moves c o.step.label d)
    (halone : Alone next d) (htime : next.time = w.time + 1) (hevents : next.events = w.events) :
    Tally first limit (past ++ [⟨w, o, next⟩]) next d := by
  obtain ⟨-, hmax, hvalue, htotal, hincrements, hdecrements, hlower, hupper, hpassed, hlog⟩ := h
  have hlength : (past ++ [(⟨w, o, next⟩ : Tick P Counter)]).length = past.length + 1 :=
    List.length_append
  have hpasses : next.time = (past ++ [(⟨w, o, next⟩ : Tick P Counter)]).length := by
    rw [htime, hpassed, hlength]
  have hup := taken_tick "increment" past ⟨w, o, next⟩
  have hdown := taken_tick "decrement" past ⟨w, o, next⟩
  dsimp only at hup hdown
  generalize o.step.label = label at hmoves hup hdown
  cases hmoves with
  | increment hroom =>
    rw [if_pos rfl] at hup
    rw [if_neg (by decide)] at hdown
    refine ⟨halone, hmax, ?_, ?_, ?_, ?_, ?_, ?_, hpasses, hevents.trans hlog⟩
    all_goals
      simp only [increment]
      omega
  | decrement hpositive =>
    rw [if_neg (by decide)] at hup
    rw [if_pos rfl] at hdown
    refine ⟨halone, hmax, ?_, ?_, ?_, ?_, ?_, ?_, hpasses, hevents.trans hlog⟩
    all_goals
      simp only [decrement]
      omega

/-- An invariant that is added is no concern of the counter. -/
theorem watch (h : Tally first limit past w c) (i : Invariant P) :
    Tally first limit past (w.addInvariant i) c :=
  { h with alone := ⟨h.alone.behaviour, h.alone.processes⟩, time := h.time, events := h.events }

theorem of_run {start : World P Counter} (hstart : Tally first limit [] start (.new first limit))
    (hrun : start.Run past w) : ∃ c, Tally first limit past w c := by
  induction hrun with
  | start => exact ⟨_, hstart⟩
  | tick _ hoffers ho hnext ih =>
    obtain ⟨c, hc⟩ := ih
    obtain ⟨d, hmoves, halone, htime, hevents⟩ := hc.alone.perform hoffers ho hnext
    exact ⟨d, hc.tick hmoves halone htime hevents⟩
  | watch i _ ih =>
    obtain ⟨c, hc⟩ := ih
    exact ⟨c, hc.watch i⟩

/-- Between words there are words only, and steps stay between them. -/
theorem isInt64 (h : Tally first limit past w c) (hfirst : IsInt64 first) (hlimit : IsInt64 limit) :
    IsInt64 c.value ∧ ∀ label d, Moves c label d → IsInt64 d.value := by
  have hzero : Int64.minValue.toInt ≤ 0 ∧ 0 ≤ Int64.maxValue.toInt := by decide
  have hlower := h.lower
  have hupper := h.upper
  have hmax := h.max
  simp only [IsInt64] at hfirst hlimit ⊢
  refine ⟨by omega, fun label d hmoves => ?_⟩
  cases hmoves with
  | increment hroom =>
    simp only [increment]
    omega
  | decrement hpositive =>
    simp only [decrement]
    omega

/-- Steps that came after others moved the counter by the difference of their numbers. -/
theorem window {window : List (Tick P Counter)} {v : World P Counter}
    (h : Tally first limit past v c) (hnext : Tally first limit (past ++ window) w d) :
    d.value = c.value + taken "increment" window - taken "decrement" window ∧
      taken "increment" window + taken "decrement" window = window.length := by
  obtain ⟨-, -, hvalue, htotal, hincrements, hdecrements, -⟩ := h
  obtain ⟨-, -, hvalue', htotal', hincrements', hdecrements', -⟩ := hnext
  rw [taken_append] at hincrements' hdecrements'
  rw [List.length_append] at htotal'
  omega

end Tally

/-! ## All schedules -/

/-- What holds of a counter and of its world, whichever steps were taken. -/
structure Balanced (first limit : Int) (past : List (Tick P Counter)) (w : World P Counter)
    (c : Counter) : Prop extends Tally first limit past w c where
  /-- Neither the value nor what an offered step makes of it leaves the signed words. -/
  int64 : IsInt64 first → IsInt64 limit →
    IsInt64 c.value ∧ ∀ label d, Moves c label d → IsInt64 d.value
  quiescent : w.isQuiescent = .ok (decide (limit ≤ c.value ∧ c.value ≤ 0))
  /-- Every offered step can be taken, as long as the invariants answer. -/
  free : (∀ i ∈ w.invariants.toList, ∀ view, ∃ objection, i.check view = .ok objection) →
    ∀ offers, w.offers = .ok offers → ∀ o ∈ offers, ∀ generator : Generator,
      ∃ next, ({ w with generator := generator } : World P Counter).perform o = .ok next

/-- What holds besides where the counter began between zero and a maximum above zero. -/
structure Lively (limit : Int) (past : List (Tick P Counter)) (w : World P Counter)
    (c : Counter) : Prop where
  bounds : 0 ≤ c.value ∧ c.value ≤ limit
  quiescent : w.isQuiescent = .ok false
  step : (∀ i ∈ w.invariants.toList, ∀ view, ∃ objection, i.check view = .ok objection) →
    ∃ next, w.step = .ok (true, next)
  /-- Among steps in a row that are more than the maximum, there are steps of both kinds. -/
  window : ∀ window, window <:+: past → limit < window.length →
    (∃ tick ∈ window, tick.offer.step.label = "increment") ∧
      ∃ tick ∈ window, tick.offer.step.label = "decrement"

variable {first limit : Int} {past : List (Tick P Counter)} {start w : World P Counter} {c : Counter}

theorem Tally.balanced (h : Tally first limit past w c) : Balanced first limit past w c where
  toTally := h
  int64 := h.isInt64
  quiescent := h.max ▸ h.alone.isQuiescent
  free hanswers _ hoffers _ ho := h.alone.exists_perform hoffers ho hanswers

theorem exists_mem_of_taken {label : String} {window : List (Tick P Counter)}
    (h : 0 < taken label window) : ∃ tick ∈ window, tick.offer.step.label = label := by
  simpa using List.countP_pos_iff.1 h

theorem Balanced.lively (h : Balanced first limit past w c)
    (hstart : Tally first limit [] start (.new first limit)) (hrun : start.Run past w)
    (hfirst : 0 ≤ first) (hle : first ≤ limit) (hlimit : 0 < limit) : Lively limit past w c where
  bounds := by
    have hlower := h.lower
    have hupper := h.upper
    omega
  quiescent := by
    rw [h.quiescent, decide_eq_false]
    omega
  step hanswers := by
    have hsome : (c.steps P).map (fun s => (⟨0, actor, s⟩ : Offer P Counter)) ≠ [] := by
      rw [Ne, List.map_eq_nil_iff, steps_eq_nil, h.max]
      omega
    obtain ⟨o, ho, generator, hstep⟩ := World.step_of_offers h.alone.offers_eq hsome
    obtain ⟨next, hnext⟩ := h.free hanswers _ h.alone.offers_eq o ho generator
    exact ⟨next, by rw [hstep, hnext, ok_map]⟩
  window window hwindow hlong := by
    obtain ⟨before, after, rfl⟩ := hwindow
    have hbefore : before <+: before ++ window ++ after := ⟨window ++ after, by simp⟩
    have hwindow : before ++ window <+: before ++ window ++ after := ⟨after, rfl⟩
    obtain ⟨v, hv⟩ := hrun.beginning hbefore
    obtain ⟨v', hv'⟩ := hrun.beginning hwindow
    obtain ⟨b, hb⟩ := Tally.of_run hstart hv
    obtain ⟨d, hd⟩ := Tally.of_run hstart hv'
    obtain ⟨hmoved, hall⟩ := hb.window hd
    have hbounds := And.intro hb.lower hb.upper
    have hbounds' := And.intro hd.lower hd.upper
    -- The value cannot go up, or down, by more than the maximum.
    exact ⟨exists_mem_of_taken (by omega), exists_mem_of_taken (by omega)⟩

/-- In every world of a counter alone, whatever else it is configured for and whichever steps are
taken, the counter's value is what its steps add up to. With room between zero and its maximum, it
goes on forever and keeps turning around. -/
theorem run_balanced {s : Setup P Counter} {fresh : UInt64}
    (hbehaviour : s.behaviour = Counter.behaviour P)
    (hprocesses : s.processes = [⟨actor, .new first limit⟩])
    (hbuild : s.build fresh = .ok start) (hrun : start.Run past w) :
    ∃ c, w.process? actor = some c ∧ Balanced first limit past w c ∧
      (0 ≤ first → first ≤ limit → 0 < limit → Lively limit past w c) := by
  have hstart : Tally first limit [] start (.new first limit) := by
    obtain ⟨table, -, rfl⟩ := World.eq_of_build hbuild
    exact .start ⟨hbehaviour, congrArg List.toArray hprocesses⟩ rfl rfl
  obtain ⟨c, hc⟩ := Tally.of_run hstart hrun
  exact ⟨c, hc.alone.process?, hc.balanced, hc.balanced.lively hstart hrun⟩

/-- A counter between zero and one goes up and down again. -/
theorem run_balanced_turn :
    ∃ (start w : World Unit Counter) (past : List (Tick Unit Counter)),
      (setup {} 0 1).build 1 = .ok start ∧ start.Run past w ∧ past.length = 2 ∧
        ∃ c, w.process? actor = some c ∧ Balanced 0 1 past w c ∧ Lively 1 past w c := by
  let up : Offer Unit Counter := ⟨0, actor, ⟨"increment", .done (increment (.new 0 1))⟩⟩
  let down : Offer Unit Counter :=
    ⟨0, actor, ⟨"decrement", .done (decrement (increment (.new 0 1)))⟩⟩
  obtain ⟨start, hbuild, hoffers, mid, hmid, hoffers', w, hw⟩ :
      ∃ start, (setup {} 0 1).build 1 = .ok start ∧ start.offers = .ok [up] ∧
        ∃ mid, ({ start with generator := start.generator } : World Unit Counter).perform up =
            .ok mid ∧ mid.offers = .ok [down] ∧
          ∃ w, ({ mid with generator := mid.generator } : World Unit Counter).perform down = .ok w :=
    ⟨_, rfl, rfl, _, rfl, rfl, _, rfl⟩
  have hrun : start.Run [⟨start, up, mid⟩, ⟨mid, down, w⟩] w :=
    (World.Run.start.tick hoffers List.mem_cons_self hmid).tick hoffers' List.mem_cons_self hw
  obtain ⟨c, hc, hbalanced, hlively⟩ := run_balanced rfl rfl hbuild hrun
  exact ⟨start, w, _, hbuild, hrun, rfl, c, hc, hbalanced,
    hlively (by decide) (by decide) (by decide)⟩

end ActorLogic.Counter
