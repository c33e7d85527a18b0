import ActorLogic.Model.Counter
/-!
# Scripted processes

A process given by rules. A rule has conditions on the channels, the clock and the process's own
variables; while they hold it offers one step, which runs the instructions of the rule in order. The
process notes in a log what came of each send and receive.
-/

namespace ActorLogic

/-! ## Scripts -/

inductive Comparison where
  | lt
  | le
  | eq
  | ne
  | ge
  | gt
  deriving DecidableEq, Repr

def Comparison.holds : Comparison → Int → Int → Bool
  | .lt, a, b => a < b
  | .le, a, b => a ≤ b
  | .eq, a, b => a = b
  | .ne, a, b => a ≠ b
  | .ge, a, b => b ≤ a
  | .gt, a, b => b < a

inductive Condition where
  | canSend (key : ChannelKey)
  | canReceive (key : ChannelKey)
  /-- On the number of messages in a channel. -/
  | length (key : ChannelKey) (c : Comparison) (n : Int)
  /-- On the variable with a number. -/
  | var (index : Nat) (c : Comparison) (n : Int)
  | time (c : Comparison) (n : Int)
  /-- The clock leaves this remainder. -/
  | timeMod (modulus remainder : Nat)
  /-- The address is registered. -/
  | known (a : Address)
  deriving DecidableEq, Repr

/-- Where the payload of a message comes from. -/
inductive Source where
  | const (d : Datum)
  | var (index : Nat)
  /-- The payload of the last message received. -/
  | last
  deriving DecidableEq, Repr

inductive Instruction where
  /-- Send to `target`, or where the last message asks for its answer. If the message is admitted,
  one is added to the variable `count`. -/
  | send (target : Option Address) (payload : Source) (replyTo : Option Address)
      (count : Option Nat)
  | receive (key : ChannelKey)
  | add (index : Nat) (n : Int)
  | look (key : ChannelKey)
  deriving DecidableEq, Repr

structure Rule where
  label : String
  conditions : List Condition := []
  instructions : List Instruction := []
  deriving DecidableEq, Repr

/-! ## State -/

inductive LogEntry where
  /-- There was nowhere to send to. -/
  | noTarget
  | sent
  | refused (e : SendError Datum)
  | got (m : Message Datum)
  /-- The channel to receive from was empty. -/
  | empty
  | look (time : Nat) (actor : String) (c : Channel Datum)
  deriving DecidableEq, Repr

structure Scripted where
  id : String
  rules : List Rule
  vars : Array Int := #[]
  log : Array LogEntry := #[]
  /-- The last message received. -/
  last : Option (Message Datum) := none
  deriving DecidableEq, Repr

namespace Scripted

variable (s : Scripted)

def note (e : LogEntry) : Scripted := { s with log := s.log.push e }

def varAt (index : Nat) : Except RunFault Int :=
  match s.vars[index]? with
  | some n => .ok n
  | none => .error (.noSuchVariable index)

/-- Add to a variable. Variables are signed words of 64 bits. -/
def add (index : Nat) (n : Int) : Except RunFault Scripted :=
  (s.varAt index).map fun v =>
    { s with vars := s.vars.setIfInBounds index ((v + n).bmod (1 <<< 64)) }

/-! ## Conditions -/

/-- The truth of a condition, given a view. -/
def check (view : WorldView Datum) : Condition → Except RunFault Bool
  | .canSend key => view.canSend key
  | .canReceive key => view.canReceive key
  | .length key c n => (view.channel key).map fun ch => c.holds ch.length n
  | .var index c n => (s.varAt index).map fun v => c.holds v n
  | .time c n => .ok (c.holds view.time n)
  | .timeMod modulus remainder =>
    if modulus = 0 then .error .zeroModulus else .ok (view.time % modulus = remainder)
  | .known a => .ok (view.channels.find? a).isSome

/-- Conditions are looked at in order, up to the first that does not hold. -/
def checkAll (view : WorldView Datum) : List Condition → Except RunFault Bool
  | [] => .ok true
  | c :: rest =>
    match s.check view c with
    | .error f => .error f
    | .ok false => .ok false
    | .ok true => checkAll view rest

/-! ## Instructions -/

/-- The value of a source. -/
def payload : Source → Except RunFault Datum
  | .const d => .ok d
  | .var index => (s.varAt index).map .int
  | .last => .ok <| match s.last with
    | some m => m.payload
    | none => .text "none"

/-- The message of a send instruction, and `none` if there is nowhere to send to. -/
def message (target : Option Address) (source : Source) (replyTo : Option Address) :
    Except RunFault (Option (Message Datum)) :=
  match target.or (s.last.bind (·.replyTo)) with
  | none => .ok none
  | some a => (s.payload source).map fun d => some ⟨⟨s.id, "out"⟩, a, d, replyTo⟩

/-- Note that a message was admitted, and count it. -/
def admitted (count : Option Nat) : Except RunFault Scripted :=
  match count with
  | none => .ok (s.note .sent)
  | some index => (s.add index 1).map (·.note .sent)

/-- Go on with a state, unless there is none. -/
def proceed (state : Except RunFault Scripted) (k : Scripted → Action Datum Scripted) :
    Action Datum Scripted :=
  match state with
  | .error f => .stop f
  | .ok s => k s

/-- Run instructions in order. -/
def perform : List Instruction → Scripted → Action Datum Scripted
  | [], s => .done s
  | .send target source replyTo count :: rest, s =>
    match s.message target source replyTo with
    | .error f => .stop f
    | .ok none => perform rest (s.note .noTarget)
    | .ok (some m) => .send m fun
      | .ok () => proceed (s.admitted count) (perform rest)
      | .error e => perform rest (s.note (.refused e))
  | .receive key :: rest, s => .receive key fun
    | some m => perform rest { s.note (.got m) with last := some m }
    | none => perform rest (s.note .empty)
  | .add index n :: rest, s => proceed (s.add index n) (perform rest)
  | .look key :: rest, s => .look fun view =>
    proceed ((view.channel key).map fun c => s.note (.look view.time s.id c)) (perform rest)

/-! ## Behaviour -/

/-- A step for each rule whose conditions hold, in order. -/
def offers (view : WorldView Datum) : List Rule → Except RunFault (List (Step Datum Scripted))
  | [] => .ok []
  | r :: rest => do
    let holds ← s.checkAll view r.conditions
    let others ← offers view rest
    .ok (if holds then ⟨r.label, perform r.instructions s⟩ :: others else others)

def behaviour : Behaviour Datum Scripted := fun s view => s.offers view s.rules

end Scripted

/-! ## Casts -/

/-- A member of a scripted world: a scripted process or a counter. -/
inductive Member where
  | script (s : Scripted)
  | counter (c : Counter)
  deriving DecidableEq, Repr

def Member.behaviour : Behaviour Datum Member
  | .script s, view => (Scripted.behaviour s view).map fun steps => steps.map (·.map .script)
  | .counter c, view => (Counter.behaviour Datum c view).map fun steps => steps.map (·.map .counter)

end ActorLogic
