import Std.Data.HashMap
import ActorLogic.Channel.Basic
import ActorLogic.World.Fault
/-!
# Tables of channels

The channels of a world, numbered in the order of their registration and found by address. No two of
them have the same address.
-/

namespace ActorLogic

/-- Names a channel by its address, or by its number if that is known. -/
inductive ChannelKey where
  | id (n : Nat)
  | address (a : Address)
  deriving DecidableEq, Repr

/-- A number is a channel's own number; anything else is an address. -/
def ChannelKey.ofJson? : Json → Option ChannelKey
  | .int n => (Json.int n).asWord?.map .id
  | j => (Address.ofJson? j).map .address

structure ChannelTable (P : Type) where
  channels : Array (Channel P) := #[]
  index : Std.HashMap Address Nat := ∅

namespace ChannelTable

variable {P : Type}

def empty : ChannelTable P := {}

/-- The number of the channel at an address. -/
def find? (t : ChannelTable P) (a : Address) : Option Nat := t.index[a]?

/-- Register a channel, unless its address is taken. -/
def insert? (t : ChannelTable P) (c : Channel P) : Option (ChannelTable P) :=
  match t.find? c.address with
  | some _ => none
  | none =>
    some ⟨t.channels.push c, t.index.insert c.address t.channels.size⟩

/-- The number that a key stands for. A number stands for itself, registered or not. -/
def resolve (t : ChannelTable P) : ChannelKey → Except RunFault Nat
  | .id n => .ok n
  | .address a =>
    match t.find? a with
    | some n => .ok n
    | none => .error (.unknownChannel a)

/-- The channel of a number. -/
def atId (t : ChannelTable P) (n : Nat) : Except RunFault (Channel P) :=
  match t.channels[n]? with
  | some c => .ok c
  | none => .error (.noSuchChannel n)

/-- The channel that a key names. -/
def get (t : ChannelTable P) (key : ChannelKey) : Except RunFault (Channel P) := do
  t.atId (← t.resolve key)

/-- Put a channel back under its number. -/
def set (t : ChannelTable P) (n : Nat) (c : Channel P) : ChannelTable P :=
  { t with channels := t.channels.setIfInBounds n c }

/-- The number of messages in all channels. -/
def queued (t : ChannelTable P) : Nat := t.channels.toList.foldr (fun c n => c.length + n) 0

end ChannelTable

end ActorLogic
