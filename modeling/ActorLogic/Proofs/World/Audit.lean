import ActorLogic.Proofs.World.Delivery
import ActorLogic.Proofs.World.Progress
/-!
# What audits record

No step can fill a channel beyond its capacity, since a send to a full channel is refused. So the
invariant that every world has never objects. What the other invariants object to is recorded after
each step, and the record tells of all objections to all worlds that were passed through.
-/

namespace ActorLogic

open Result

variable {P σ : Type}

/-! ## Capacities -/

/-- No channel holds more than its capacity. -/
def ChannelTable.Fits (t : ChannelTable P) : Prop :=
  ∀ (n : Nat) (c : Channel P), t.channels[n]? = some c → c.Fits

theorem ChannelTable.Fits.set {t : ChannelTable P} (h : t.Fits) {n : Nat} {c : Channel P}
    (hc : c.Fits) : (t.set n c).Fits := by
  intro k d hd
  rw [ChannelTable.set, Array.getElem?_setIfInBounds] at hd
  split at hd
  · split at hd
    · cases hd
      exact hc
    · cases hd
  · exact h k d hd

namespace Turn

variable {t u : Turn P} {m : Message P} {key : ChannelKey}

theorem send_fits (ht : t.channels.Fits) {answer : Except (SendError P) Unit}
    (h : t.send m = .ok (answer, u)) : u.channels.Fits := by
  obtain ⟨n, c, -, hc, hcase⟩ := send_cases h
  obtain ⟨hroom, -, rfl⟩ | ⟨-, -, rfl⟩ := hcase
  · exact ht.set (Channel.fits_push hroom)
  · exact ht

theorem receive_fits (ht : t.channels.Fits) {answer : Option (Message P)}
    (h : t.receive key = .ok (answer, u)) : u.channels.Fits := by
  obtain ⟨n, c, -, hc, -, hcase⟩ := receive_cases h
  obtain ⟨-, -, rfl⟩ | ⟨e, d, htaken, -, -, rfl⟩ := hcase
  · exact ht
  · exact ht.set ((ht n c hc).receive htaken)

/-- Whatever a turn tries to send, the channels hold no more than they can. -/
theorem run_fits {action : Action P σ} {state : σ} (ht : t.channels.Fits)
    (h : run action t = .ok (state, u)) : u.channels.Fits :=
  run_keeps (R := fun t u => t.channels.Fits → u.channels.Fits) (fun _ => id)
    (fun htu huv ht => huv (htu ht)) (fun hsend ht => send_fits ht hsend)
    (fun hreceive ht => receive_fits ht hreceive) h ht

end Turn

namespace World

variable {start w next : World P σ} {past : List (Tick P σ)} {o : Offer P σ}

theorem perform_fits (hw : w.channels.Fits) (h : w.perform o = .ok next) : next.channels.Fits := by
  obtain ⟨state, t, hrun, heq⟩ := perform_ok h
  rw [heq]
  exact Turn.run_fits (t := w.turn o) hw hrun

/-- Along a run, no channel comes to hold more than its capacity. -/
theorem FreeRun.fits (h : FreeRun start past w) (hstart : start.channels.Fits) :
    w.channels.Fits := by
  induction h with
  | start => exact hstart
  | @tick past w next o generator _ hnext ih =>
    exact perform_fits (w := { w with generator := generator }) ih hnext
  | watch i _ ih => exact ih

theorem check_of_fits (h : w.channels.Fits) :
    (Invariant.channelCapacity P).check w.view = .ok none := by
  refine check_channelCapacity fun c hc => ?_
  obtain ⟨n, hn⟩ := Array.getElem?_of_mem (Array.mem_toList_iff.1 hc)
  exact h n c hn

/-! ## Objections to one view -/

/-- What is recorded of an invariant at a view: its objection, if it has one. -/
def recordOf (view : WorldView P) (i : Invariant P) : Option RecordedViolation :=
  match i.check view with
  | .ok (some v) => some ⟨view.time, i.name, i.severity, v⟩
  | _ => none

/-- What an audit records at a view. -/
def recordsAt (checked : Bool) (invariants : List (Invariant P)) (view : WorldView P) :
    List RecordedViolation :=
  if checked then invariants.filterMap (recordOf view) else []

/-- All invariants were asked, and what they object to was found. -/
theorem objections_ok {view : WorldView P} {invariants : List (Invariant P)}
    {found : List RecordedViolation} (h : objections view invariants = .ok found) :
    (∀ i ∈ invariants, ∃ objection, i.check view = .ok objection) ∧
      found = invariants.filterMap (recordOf view) := by
  induction invariants generalizing found with
  | nil =>
    cases h
    exact ⟨by simp, rfl⟩
  | cons i rest ih =>
    obtain ⟨objection, hcheck, hrest⟩ := bind_eq_ok.1 h
    obtain ⟨others, hothers, hend⟩ := bind_eq_ok.1 hrest
    cases hend
    obtain ⟨hasked, hfound⟩ := ih hothers
    refine ⟨List.forall_mem_cons.2 ⟨⟨objection, hcheck⟩, hasked⟩, ?_⟩
    rw [hfound, List.filterMap_cons, recordOf, hcheck]
    cases objection <;> rfl

theorem exists_objections {view : WorldView P} {invariants : List (Invariant P)}
    (h : ∀ i ∈ invariants, ∃ objection, i.check view = .ok objection) :
    ∃ found, objections view invariants = .ok found := by
  induction invariants with
  | nil => exact ⟨[], rfl⟩
  | cons i rest ih =>
    obtain ⟨⟨objection, hcheck⟩, hrest⟩ := List.forall_mem_cons.1 h
    obtain ⟨others, hothers⟩ := ih hrest
    exact ⟨_, by rw [objections, hcheck, ok_bind, hothers, ok_bind]⟩

/-- Only an invariant that does not answer can stop an audit. -/
theorem exists_audit (h : ∀ i ∈ w.invariants.toList, ∃ objection, i.check w.view = .ok objection) :
    ∃ next, w.audit = .ok next := by
  obtain ⟨found, hfound⟩ := exists_objections h
  unfold audit
  split
  · exact ⟨_, by rw [hfound, ok_map]⟩
  · exact ⟨w, rfl⟩

/-- What invariants object to is recorded in their order, after what was recorded before. -/
theorem audit_records (h : w.audit = .ok next) :
    (w.checkInvariants = true →
        ∀ i ∈ w.invariants.toList, ∃ objection, i.check w.view = .ok objection) ∧
      next.violations.toList =
        w.violations.toList ++ recordsAt w.checkInvariants w.invariants.toList w.view := by
  unfold audit at h
  split at h
  · next hchecked =>
    obtain ⟨found, hobjections, rfl⟩ := map_eq_ok.1 h
    obtain ⟨hasked, hfound⟩ := objections_ok hobjections
    refine ⟨fun _ => hasked, ?_⟩
    rw [recordsAt, if_pos hchecked, ← hfound]
    simp
  · next hunchecked =>
    cases h
    refine ⟨fun hchecked => absurd hchecked hunchecked, ?_⟩
    rw [recordsAt, if_neg hunchecked, List.append_nil]

/-- The invariants look at the world after the step, and the records carry its time. -/
theorem perform_records (h : w.perform o = .ok next) :
    next.time = w.time + 1 ∧ next.invariants = w.invariants ∧
      next.checkInvariants = w.checkInvariants ∧
      (w.checkInvariants = true →
        ∀ i ∈ w.invariants.toList, ∃ objection, i.check next.view = .ok objection) ∧
      next.violations.toList =
        w.violations.toList ++ recordsAt w.checkInvariants w.invariants.toList next.view := by
  obtain ⟨⟨state, t⟩, -, haudit⟩ := bind_eq_ok.1 h
  have hrecords := audit_records haudit
  rw [audit_ok haudit]
  exact ⟨rfl, rfl, rfl, hrecords⟩

end World

/-! ## Stories -/

/-- What happens to a world: a step is taken, or an invariant is added. -/
inductive Occurrence (P σ : Type) where
  | tick (tick : Tick P σ)
  | watch (i : Invariant P)

/-- The steps of a story. -/
def ticksOf (story : List (Occurrence P σ)) : List (Tick P σ) :=
  story.filterMap fun
    | .tick t => some t
    | .watch _ => none

/-- The invariants that are added in a story. -/
def addedIn (story : List (Occurrence P σ)) : List (Invariant P) :=
  story.filterMap fun
    | .tick _ => none
    | .watch i => some i

theorem ticksOf_tick (story : List (Occurrence P σ)) (t : Tick P σ) :
    ticksOf (story ++ [.tick t]) = ticksOf story ++ [t] := List.filterMap_append

theorem ticksOf_watch (story : List (Occurrence P σ)) (i : Invariant P) :
    ticksOf (story ++ [.watch i]) = ticksOf story :=
  List.filterMap_append.trans (List.append_nil _)

theorem addedIn_tick (story : List (Occurrence P σ)) (t : Tick P σ) :
    addedIn (story ++ [.tick t]) = addedIn story :=
  List.filterMap_append.trans (List.append_nil _)

theorem addedIn_watch (story : List (Occurrence P σ)) (i : Invariant P) :
    addedIn (story ++ [.watch i]) = addedIn story ++ [i] := List.filterMap_append

/-- What audits record of a story that begins with these invariants. -/
def recorded (checked : Bool) : List (Invariant P) → List (Occurrence P σ) → List RecordedViolation
  | _, [] => []
  | invariants, .tick tick :: rest =>
    World.recordsAt checked invariants tick.after.view ++ recorded checked invariants rest
  | invariants, .watch i :: rest => recorded checked (invariants ++ [i]) rest

theorem recorded_append (checked : Bool) (invariants : List (Invariant P))
    (story more : List (Occurrence P σ)) :
    recorded checked invariants (story ++ more) = recorded checked invariants story ++
      recorded checked (invariants ++ addedIn story) more := by
  induction story generalizing invariants with
  | nil => simp [recorded, addedIn]
  | cons occurrence rest ih =>
    cases occurrence with
    | tick t =>
      rw [List.cons_append, recorded, recorded, ih, List.append_assoc]
      rfl
    | watch i =>
      rw [List.cons_append, recorded, recorded, ih, List.append_assoc]
      rfl

namespace World

/-- The worlds that can come from a world, with all that happened in between. Any step at all may be
taken at a tick. -/
inductive Story (start : World P σ) : List (Occurrence P σ) → World P σ → Prop where
  | start : Story start [] start
  | tick {story : List (Occurrence P σ)} {w next : World P σ} {o : Offer P σ}
      {generator : Generator} :
      Story start story w → ({ w with generator := generator } : World P σ).perform o = .ok next →
      Story start (story ++ [.tick ⟨w, o, next⟩]) next
  | watch {story : List (Occurrence P σ)} {w : World P σ} (i : Invariant P) :
      Story start story w → Story start (story ++ [.watch i]) (w.addInvariant i)

variable {start w next : World P σ} {story : List (Occurrence P σ)}

/-- A story tells of the ticks of a run. -/
theorem Story.free (h : Story start story w) : FreeRun start (ticksOf story) w := by
  induction h with
  | start => exact .start
  | tick _ hnext ih =>
    rw [ticksOf_tick]
    exact ih.tick hnext
  | watch i _ ih =>
    rw [ticksOf_watch]
    exact ih.watch i

/-- What a step does to the records: each invariant that is watched may add one to those that are
there, and it carries the time after the step. -/
structure Recording (checked : Bool) (t : Tick P σ) : Prop where
  time : t.after.time = t.before.time + 1
  /-- The invariants are asked about the world after the step, and all of them answer. -/
  asked : checked = true →
    ∀ i ∈ t.before.invariants.toList, ∃ objection, i.check t.after.view = .ok objection
  found : t.after.violations.toList =
    t.before.violations.toList ++ recordsAt checked t.before.invariants.toList t.after.view
  /-- The invariant that every world has does not object. -/
  silent : (Invariant.channelCapacity P).check t.after.view = .ok none

/-- What happened to the invariants and to the records in a story. -/
structure Watched (checked : Bool) (invariants : List (Invariant P))
    (story : List (Occurrence P σ)) (w : World P σ) : Prop where
  setting : w.checkInvariants = checked
  /-- The invariants that were added come last. -/
  registered : w.invariants.toList = invariants ++ addedIn story
  violations : w.violations.toList = recorded checked invariants story
  ticks : ∀ t ∈ ticksOf story, Recording checked t ∧ t.after.violations.toList <+: w.violations.toList

theorem Watched.tick {checked : Bool} {invariants : List (Invariant P)} {o : Offer P σ}
    {generator : Generator} (h : Watched checked invariants story w) (hfits : w.channels.Fits)
    (hnext : ({ w with generator := generator } : World P σ).perform o = .ok next) :
    Watched checked invariants (story ++ [.tick ⟨w, o, next⟩]) next := by
  obtain ⟨htime, hinvariants, hchecked, hasked, hviolations⟩ := perform_records hnext
  dsimp only at htime hinvariants hchecked hasked hviolations
  rw [h.setting] at hchecked hasked hviolations
  refine ⟨hchecked, ?_, ?_, ?_⟩
  · rw [hinvariants, h.registered, addedIn_tick]
  · rw [hviolations, h.violations, h.registered, recorded_append, recorded, recorded,
      List.append_nil]
  · intro t ht
    rw [ticksOf_tick, List.mem_append] at ht
    cases ht with
    | inl hearlier =>
      obtain ⟨hrecording, hprefix⟩ := h.ticks t hearlier
      refine ⟨hrecording, hprefix.trans ?_⟩
      rw [hviolations]
      exact List.prefix_append _ _
    | inr hlast =>
      obtain rfl := List.mem_singleton.1 hlast
      have hsilent := check_of_fits (perform_fits (w := { w with generator := generator }) hfits hnext)
      exact ⟨⟨htime, hasked, hviolations, hsilent⟩, List.prefix_rfl⟩

theorem Watched.watch {checked : Bool} {invariants : List (Invariant P)}
    (h : Watched checked invariants story w) (i : Invariant P) :
    Watched checked invariants (story ++ [.watch i]) (w.addInvariant i) where
  setting := h.setting
  registered := by
    rw [addInvariant, Array.toList_push, h.registered, addedIn_watch, List.append_assoc]
  violations := by
    rw [recorded_append, recorded, recorded, List.append_nil]
    exact h.violations
  ticks := by
    rw [ticksOf_watch]
    exact h.ticks

theorem Story.watched (h : Story start story w) (hfits : start.channels.Fits)
    (hnone : start.violations = #[]) :
    Watched start.checkInvariants start.invariants.toList story w := by
  induction h with
  | start => exact ⟨rfl, (List.append_nil _).symm, by rw [hnone]; rfl, by simp [ticksOf]⟩
  | tick hstory hnext ih => exact ih.tick (hstory.free.fits hfits) hnext
  | watch i _ ih => exact ih.watch i

/-! ## Worlds that were built -/

/-- What holds in every world that comes from a setup. -/
structure Audited (s : Setup P σ) (story : List (Occurrence P σ)) (w : World P σ) : Prop where
  /-- Each channel is where it was registered, and no message is too many for it. -/
  channels : ∀ (n : Nat) (c : Channel P), s.channels[n]? = some c →
    ∃ d, w.channels.channels[n]? = some d ∧ d.address = c.address ∧ d.capacity = c.capacity ∧
      d.length ≤ c.capacity
  size : w.channels.channels.size = s.channels.length
  silent : (Invariant.channelCapacity P).check w.view = .ok none
  /-- The invariant that every world has comes first, then those of the setup, then those that were
  added. Each objection to a world after a step is recorded, and nothing else is. -/
  watched : Watched s.config.checkInvariants (Invariant.channelCapacity P :: s.invariants) story w

theorem build_watches {s : Setup P σ} {fresh : UInt64} (h : s.build fresh = .ok w) :
    w.violations = #[] ∧ w.checkInvariants = s.config.checkInvariants ∧
      w.invariants.toList = Invariant.channelCapacity P :: s.invariants := by
  obtain ⟨table, -, rfl⟩ := eq_of_build h
  exact ⟨rfl, rfl, rfl⟩

/-- In every world that comes from a setup, whatever its processes do and whichever invariants are
added, channels stay within their capacities and all objections are recorded. -/
theorem Story.audited {s : Setup P σ} {fresh : UInt64} (hprepared : ∀ c ∈ s.channels, c.Prepared)
    (hbuild : s.build fresh = .ok start) (hstory : Story start story w) : w.Audited s story := by
  obtain ⟨hindexed, hchannels, -, -⟩ := build_ok hbuild
  obtain ⟨hviolations, hchecked, hinvariants⟩ := build_watches hbuild
  have hplace : ∀ n : Nat, start.channels.channels[n]? = s.channels[n]? := by
    intro n
    rw [← Array.getElem?_toList, hchannels]
  have hstart : ∀ (n : Nat) (c : Channel P), start.channels.channels[n]? = some c → c.Prepared := by
    intro n c hc
    rw [hplace] at hc
    exact hprepared c (List.mem_of_getElem? hc)
  have hstamped : start.channels.Stamped start.time := by
    intro n c hc e he
    rw [(hstart n c hc).enqueuedAt_eq_zero e he]
    exact Nat.zero_le _
  have hfits : start.channels.Fits := fun n c hc => (hstart n c hc).fits
  have hend : w.channels.Fits := hstory.free.fits hfits
  have hcarries := (hstory.free.follows hindexed hstamped).carries
  refine
    { channels := ?_
      size := by rw [hcarries.size, ← Array.length_toList, hchannels]
      silent := check_of_fits hend
      watched := hchecked ▸ hinvariants ▸ hstory.watched hfits hviolations }
  intro n c hc
  obtain ⟨d, hd, haddress, hcapacity, -⟩ := hcarries.queue n c ((hplace n).trans hc)
  exact ⟨d, hd, haddress, hcapacity, hcapacity ▸ hend n d hd⟩

/-- Objects to every world in which time has passed. -/
def stillness (severity : Severity) : Invariant Nat where
  name := "Stillness"
  severity := severity
  check view := .ok (if 0 < view.time then some (.custom "Stillness" "a step was taken") else none)

/-- A process that fills its channel and goes on sending, under an invariant that objects. -/
def watchedLoopback : Setup Nat Unit := { loopback with invariants := [stillness .warning] }

theorem Story.audited_loopback :
    ∃ (start w : World Nat Unit) (t : Tick Nat Unit),
      watchedLoopback.build 1 = .ok start ∧
      start.Story [.watch (stillness .high), .tick t] w ∧
      w.violations.toList.map (·.severity) = [.warning, .high] ∧
      w.Audited watchedLoopback [.watch (stillness .high), .tick t] := by
  have hprepared : ∀ c ∈ watchedLoopback.channels, c.Prepared := by
    intro c hc
    obtain rfl := List.mem_singleton.1 hc
    exact .new "a" "in" 1
  have htable : ChannelTable.empty.register watchedLoopback.channels =
      .ok ⟨#[.new "a" "in" 1], (∅ : Std.HashMap Address Nat).insert ⟨"a", "in"⟩ 0⟩ := by
    simp [ChannelTable.register, ChannelTable.insert?, ChannelTable.find?, ChannelTable.empty,
      watchedLoopback, loopback, Channel.new]
  let home : Address := ⟨"a", "in"⟩
  let o : Offer Nat Unit := ⟨0, "a", "go", .send ⟨home, home, 7, none⟩ fun _ =>
    .send ⟨home, home, 8, none⟩ fun _ => .receive (.id 0) fun _ => .done ()⟩
  obtain ⟨start, hbuild, w, hw, hfound⟩ : ∃ start, watchedLoopback.build 1 = .ok start ∧ ∃ w,
      ({ start.addInvariant (stillness .high) with generator := start.generator } :
        World Nat Unit).perform o = .ok w ∧
      w.violations.toList.map (·.severity) = [.warning, .high] := by
    simp only [Setup.build, SimulationConfig.validate, htable]
    refine ⟨_, rfl, ?_⟩
    simp [o, home, perform, addInvariant, Turn.run, Turn.send, Turn.receive, ChannelTable.resolve,
      ChannelTable.find?, ChannelTable.set, ChannelTable.atId, Channel.enqueue, Channel.canSend,
      Channel.new, Channel.length, Channel.owner, Channel.receive?]
    simp [endTurn, audit, watchedLoopback, loopback, stillness, objections, view,
      Invariant.channelCapacity, Channel.length]
  have hstory : start.Story [.watch (stillness .high), .tick ⟨_, o, w⟩] w :=
    (Story.start.watch (stillness .high)).tick hw
  exact ⟨start, w, _, hbuild, hstory, hfound, Story.audited hprepared hbuild hstory⟩

end World

end ActorLogic
