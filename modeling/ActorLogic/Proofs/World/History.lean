import ActorLogic.World.Run
import ActorLogic.Proofs.Result
/-!
# Histories

What happens in a world, in the order in which it happens: the ticks of a run, and the calls that a
step makes on its way. The state of a world does not record them all; a log and two counters are
what is left of them.
-/

namespace ActorLogic

open Result

variable {P σ : Type}

/-! ## Calls -/

/-- A call of a step on the world, with its answer and the turn before and after it. -/
inductive Call (P : Type) where
  | send (before : Turn P) (m : Message P) (answer : Except (SendError P) Unit) (after : Turn P)
  | receive (before : Turn P) (key : ChannelKey) (answer : Option (Message P)) (after : Turn P)

namespace Call

def before : Call P → Turn P
  | .send t .. => t
  | .receive t .. => t

def after : Call P → Turn P
  | .send _ _ _ t => t
  | .receive _ _ _ t => t

/-- The tick at which the call was made. -/
def time (c : Call P) : Nat := c.before.time

/-- What the call queued for an address, with the tick of the call: a message that names the address
as its target, if the send was not refused. -/
def accepted? (a : Address) : Call P → Option (Envelope P)
  | .send before m (.ok ()) _ => if m.target = a then some ⟨m, before.time⟩ else none
  | _ => none

/-- What the call dequeued, and from which address: the front of the channel that was asked. -/
def dequeued? : Call P → Option (Address × Envelope P)
  | .send .. => none
  | .receive before key _ _ =>
    match before.channels.get key with
    | .ok c => c.buffer[0]?.map fun e => (c.address, e)
    | .error _ => none

/-- What the call dequeued from an address. -/
def taken? (a : Address) (c : Call P) : Option (Envelope P) :=
  match c.dequeued? with
  | some (b, e) => if b = a then some e else none
  | none => none

/-- The message that the call handed to the step. -/
def received? : Call P → Option (Message P)
  | .send .. => none
  | .receive _ _ answer _ => answer

/-- What the log should say of the call. -/
def delivery? (c : Call P) : Option (Event P) :=
  c.dequeued?.map fun (_, e) =>
    { time := c.time
      sender := e.message.sender
      target := e.message.target
      payload := e.message.payload
      replyTo := e.message.replyTo
      queueDelay := c.time - e.enqueuedAt }

/-- The call is a send that was refused. -/
def isRefused : Call P → Bool
  | .send _ _ (.error _) _ => true
  | _ => false

/-- The call is a send that met a full channel. -/
def metFull : Call P → Bool
  | .send before m _ _ =>
    match before.channels.get (.address m.target) with
    | .ok c => !c.canSend
    | .error _ => false
  | .receive .. => false

end Call

/-- The calls that an action makes in a turn, up to the first that stops the run. -/
def Turn.calls : Action P σ → Turn P → List (Call P)
  | .done _, _ => []
  | .send m k, t =>
    match t.send m with
    | .error _ => []
    | .ok (answer, next) => .send t m answer next :: calls (k answer) next
  | .receive key k, t =>
    match t.receive key with
    | .error _ => []
    | .ok (answer, next) => .receive t key answer next :: calls (k answer) next
  | .look k, t => calls (k t.view) t
  | .stop _, _ => []

/-! ## Runs -/

/-- A step that was taken, with the world before and after it. -/
structure Tick (P σ : Type) where
  before : World P σ
  offer : Offer P σ
  after : World P σ

/-- The turn in which an offered step runs. -/
def World.turn (w : World P σ) (o : Offer P σ) : Turn P := ⟨w.time, o.actor, w.channels, 0, none⟩

def Tick.calls (tick : Tick P σ) : List (Call P) :=
  Turn.calls tick.offer.step.action (tick.before.turn tick.offer)

/-- The calls of a history, in their order. -/
def callsOf (past : List (Tick P σ)) : List (Call P) := past.flatMap Tick.calls

namespace World

/-- The worlds that can come from a world, with the ticks in between. It is left open which of the
offered steps is taken at a tick, and what becomes of the generator. -/
inductive Run (start : World P σ) : List (Tick P σ) → World P σ → Prop where
  | start : Run start [] start
  | tick {past : List (Tick P σ)} {w next : World P σ} {offers : List (Offer P σ)} {o : Offer P σ}
      {generator : Generator} :
      Run start past w → w.offers = .ok offers → o ∈ offers →
      ({ w with generator := generator } : World P σ).perform o = .ok next →
      Run start (past ++ [⟨w, o, next⟩]) next
  | watch {past : List (Tick P σ)} {w : World P σ} (i : Invariant P) :
      Run start past w → Run start past (w.addInvariant i)

/-- The worlds that can come from a world when any step at all may be taken at a tick. It is left
open what processes offer, which need not depend on their states and on what they see alone. -/
inductive FreeRun (start : World P σ) : List (Tick P σ) → World P σ → Prop where
  | start : FreeRun start [] start
  | tick {past : List (Tick P σ)} {w next : World P σ} {o : Offer P σ} {generator : Generator} :
      FreeRun start past w → ({ w with generator := generator } : World P σ).perform o = .ok next →
      FreeRun start (past ++ [⟨w, o, next⟩]) next
  | watch {past : List (Tick P σ)} {w : World P σ} (i : Invariant P) :
      FreeRun start past w → FreeRun start past (w.addInvariant i)

namespace Run

variable {start w next : World P σ} {past : List (Tick P σ)}

/-- To take what is offered is one way to take any step. -/
theorem free (h : Run start past w) : FreeRun start past w := by
  induction h with
  | start => exact .start
  | tick _ _ _ hnext ih => exact ih.tick hnext
  | watch i _ ih => exact ih.watch i

/-- The first ticks of a run are those of a run. -/
theorem beginning (h : Run start past w) {first : List (Tick P σ)} (hfirst : first <+: past) :
    ∃ v, Run start first v := by
  induction h with
  | start => exact List.prefix_nil.1 hfirst ▸ ⟨start, .start⟩
  | tick hpast hoffers ho hnext ih =>
    rcases List.prefix_concat_iff.1 hfirst with rfl | hearlier
    · exact ⟨_, hpast.tick hoffers ho hnext⟩
    · exact ih hearlier
  | watch i _ ih => exact ih hfirst

/-- Whatever offered step is asked for, taking it goes on with the run. -/
theorem fire (h : Run start past w) {k : Nat} (hfire : w.fire k = .ok next) :
    ∃ more, Run start (past ++ more) next := by
  obtain ⟨offers, hoffers, hnext⟩ := bind_eq_ok.1 hfire
  cases ho : offers[k]? with
  | none =>
    rw [ho] at hnext
    cases hnext
    exact ⟨[], by simpa using h⟩
  | some o =>
    rw [ho] at hnext
    exact ⟨_, h.tick hoffers (List.mem_of_getElem? ho) hnext⟩

/-- Taking a random step goes on with the run. -/
theorem step (h : Run start past w) {taken : Bool} (hstep : w.step = .ok (taken, next)) :
    ∃ more, Run start (past ++ more) next := by
  obtain ⟨offers, hoffers, hnext⟩ := bind_eq_ok.1 hstep
  split at hnext
  · obtain ⟨after, hperform, heq⟩ := map_eq_ok.1 hnext
    cases heq
    exact ⟨_, h.tick hoffers (List.get_mem _ _) hperform⟩
  · cases hnext
    exact ⟨[], by simpa using h⟩

theorem advance (h : Run start past w) {n taken steps : Nat}
    (hrun : World.advance n taken w = .ok (steps, next)) :
    ∃ more, Run start (past ++ more) next := by
  induction n generalizing past taken w with
  | zero =>
    cases hrun
    exact ⟨[], by simpa using h⟩
  | succ n ih =>
    unfold World.advance at hrun
    cases hstep : w.step with
    | error f => simp [hstep] at hrun
    | ok result =>
      obtain ⟨fired, mid⟩ := result
      obtain ⟨more, hmid⟩ := h.step hstep
      cases fired with
      | false =>
        -- No step was offered, and the run ends here.
        simp only [hstep, Except.ok.injEq, Prod.mk.injEq] at hrun
        obtain ⟨-, rfl⟩ := hrun
        exact ⟨more, hmid⟩
      | true =>
        simp only [hstep] at hrun
        obtain ⟨rest, hrest⟩ := ih hmid hrun
        exact ⟨more ++ rest, by rwa [← List.append_assoc]⟩

/-- A bounded run goes on with the run. -/
theorem runSteps (h : Run start past w) {n : Nat} {outcome : RunOutcome}
    (hrun : w.runSteps n = .ok (outcome, next)) : ∃ more, Run start (past ++ more) next := by
  obtain ⟨⟨steps, after⟩, hadvance, hrest⟩ := bind_eq_ok.1 hrun
  have heq : after = next := by
    dsimp only at hrest
    split at hrest
    · cases hrest
      rfl
    · obtain ⟨quiescent, -, hend⟩ := bind_eq_ok.1 hrest
      cases hend
      rfl
  exact heq ▸ h.advance hadvance

end Run

end World

end ActorLogic
