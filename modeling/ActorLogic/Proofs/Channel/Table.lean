import ActorLogic.World.Basic
import ActorLogic.Proofs.Index
import ActorLogic.Proofs.Result
/-!
# Queues in a table

A channel is a queue: what is accepted goes to the back, what is taken comes from the front. In a
table that was filled by registering channels, an address finds the one channel that has it, and
putting a channel back under its number keeps that.
-/

namespace ActorLogic

open Result

variable {P : Type}

/-! ## Channels -/

namespace Channel

variable {c d : Channel P} {m : Message P} {e : Envelope P} {now : Nat}

/-- A channel as it can be before a world is built from it. -/
inductive Made : Channel P → Prop where
  | new (owner name : String) (capacity : Nat) : Made (.new owner name capacity)
  | send {c next : Channel P} {m : Message P} : Made c → c.send m = .ok next → Made next

/-- A channel that was new once and has only been sent to and received from since, before a world is
built from it. -/
inductive Prepared : Channel P → Prop where
  | new (owner name : String) (capacity : Nat) : Prepared (.new owner name capacity)
  | send {c next : Channel P} {m : Message P} :
      Prepared c → c.send m = .ok next → Prepared next
  | receive {c next : Channel P} {e : Envelope P} :
      Prepared c → c.receive? = some (e, next) → Prepared next

theorem enqueue_of_room (h : c.canSend = true) :
    c.enqueue m now = .ok { c with buffer := c.buffer.push ⟨m, now⟩ } := if_pos h

theorem enqueue_of_full (h : c.canSend = false) : c.enqueue m now = .error ⟨m, c.capacity⟩ := by
  rw [enqueue, h]
  rfl

theorem enqueue_eq_ok :
    c.enqueue m now = .ok d ↔ c.canSend = true ∧ d = { c with buffer := c.buffer.push ⟨m, now⟩ } := by
  cases h : c.canSend with
  | true => simp [enqueue_of_room h, eq_comm]
  | false => simp [enqueue_of_full h]

theorem canReceive_eq : c.canReceive = decide (0 < c.length) := by
  rw [canReceive, isEmpty, length, Bool.eq_iff_iff]
  simp [Nat.pos_iff_ne_zero]

theorem receive?_eq_none : c.receive? = none ↔ c.buffer.toList = [] := by
  simp [receive?]

/-- What is taken is the front of the queue, and nothing else changes. -/
theorem receive?_eq_some :
    c.receive? = some (e, d) ↔
      c.buffer.toList = e :: d.buffer.toList ∧ d.address = c.address ∧ d.capacity = c.capacity := by
  obtain ⟨address, capacity, ⟨queue⟩⟩ := c
  obtain ⟨address', capacity', ⟨queue'⟩⟩ := d
  cases queue with
  | nil => simp [receive?]
  | cons first rest => simp [receive?, eq_comm, and_comm, and_assoc, and_left_comm]

/-- What was sent before the start carries the tick zero. -/
theorem Prepared.enqueuedAt_eq_zero (h : c.Prepared) : ∀ e ∈ c.buffer.toList, e.enqueuedAt = 0 := by
  induction h with
  | new owner name capacity => simp [Channel.new]
  | send _ hsend ih =>
    obtain ⟨-, rfl⟩ := enqueue_eq_ok.1 hsend
    intro e he
    rw [Array.toList_push, List.mem_append] at he
    cases he with
    | inl hold => exact ih e hold
    | inr hnew =>
      obtain rfl := List.mem_singleton.1 hnew
      rfl
  | receive _ hreceive ih =>
    intro e he
    exact ih e ((receive?_eq_some.1 hreceive).1 ▸ List.mem_cons_of_mem _ he)

theorem Made.prepared (h : c.Made) : c.Prepared := by
  induction h with
  | new owner name capacity => exact .new owner name capacity
  | send _ hsend ih => exact ih.send hsend

theorem Made.enqueuedAt_eq_zero (h : c.Made) : ∀ e ∈ c.buffer.toList, e.enqueuedAt = 0 :=
  h.prepared.enqueuedAt_eq_zero

/-! ### Capacities -/

def Fits (c : Channel P) : Prop := c.length ≤ c.capacity

/-- Where there is room, one more message fits. -/
theorem fits_push (h : c.canSend = true) : ({ c with buffer := c.buffer.push e } : Channel P).Fits := by
  rw [canSend, decide_eq_true_eq, length] at h
  simpa [Fits, length] using Nat.succ_le_of_lt h

theorem Fits.receive (h : c.Fits) (hreceive : c.receive? = some (e, d)) : d.Fits := by
  obtain ⟨hqueue, -, hcapacity⟩ := receive?_eq_some.1 hreceive
  have hlength := congrArg List.length hqueue
  rw [List.length_cons, Array.length_toList, Array.length_toList] at hlength
  rw [Fits, length] at h ⊢
  omega

theorem Prepared.fits (h : c.Prepared) : c.Fits := by
  induction h with
  | new owner name capacity => exact Nat.zero_le _
  | send _ hsend _ =>
    obtain ⟨hroom, rfl⟩ := enqueue_eq_ok.1 hsend
    exact fits_push hroom
  | receive _ hreceive ih => exact ih.receive hreceive

end Channel

/-! ## Tables -/

namespace ChannelTable

variable {t u : ChannelTable P} {c d : Channel P} {a : Address} {n : Nat} {key : ChannelKey}

/-- The index finds every channel by its address, and nothing else. -/
def Indexed (t : ChannelTable P) : Prop :=
  ∀ (a : Address) (n : Nat), t.find? a = some n ↔ ∃ c, t.channels[n]? = some c ∧ c.address = a

theorem indexed_empty : (empty : ChannelTable P).Indexed := IsIndex.empty

theorem Indexed.unique (h : t.Indexed) {k : Nat} (hc : t.channels[n]? = some c)
    (hd : t.channels[k]? = some d) (heq : c.address = d.address) : n = k := by
  have hn := (h c.address n).2 ⟨c, hc, rfl⟩
  have hk := (h c.address k).2 ⟨d, hd, heq.symm⟩
  exact Option.some.inj (hn.symm.trans hk)

theorem resolve_address : t.resolve (.address a) = .ok n ↔ t.find? a = some n := by
  rw [resolve]
  cases t.find? a <;> simp

theorem atId_eq_ok : t.atId n = .ok c ↔ t.channels[n]? = some c := by
  rw [atId]
  cases t.channels[n]? <;> simp

theorem get_eq_ok :
    t.get key = .ok c ↔ ∃ n, t.resolve key = .ok n ∧ t.channels[n]? = some c := by
  simp only [get, bind_eq_ok, atId_eq_ok]

theorem channels_set (t : ChannelTable P) (n : Nat) (c : Channel P) (k : Nat)
    (hn : n < t.channels.size) :
    (t.set n c).channels[k]? = if n = k then some c else t.channels[k]? := by
  simp only [set, Array.getElem?_setIfInBounds, if_pos hn]

/-! ## Registering -/

theorem insert?_eq_some (h : t.insert? c = some u) :
    t.find? c.address = none ∧
      u = ⟨t.channels.push c, t.index.insert c.address t.channels.size⟩ := by
  unfold insert? at h
  cases hfind : t.find? c.address with
  | some n => simp [hfind] at h
  | none => exact ⟨rfl, by simpa [hfind, eq_comm] using h⟩

theorem Indexed.insert (ht : t.Indexed) (h : t.insert? c = some u) : u.Indexed := by
  obtain ⟨hfree, rfl⟩ := insert?_eq_some h
  exact IsIndex.push ht hfree

/-- Registered channels follow those that are there, in their order. -/
theorem register_ok (ht : t.Indexed) {l : List (Channel P)} (h : t.register l = .ok u) :
    u.Indexed ∧ u.channels.toList = t.channels.toList ++ l := by
  induction l generalizing t with
  | nil =>
    cases h
    exact ⟨ht, by simp⟩
  | cons c rest ih =>
    unfold register at h
    cases hins : t.insert? c with
    | none => simp [hins] at h
    | some mid =>
      rw [hins] at h
      obtain ⟨hu, hl⟩ := ih (ht.insert hins) h
      obtain ⟨-, rfl⟩ := insert?_eq_some hins
      exact ⟨hu, by simpa using hl⟩

end ChannelTable

end ActorLogic
