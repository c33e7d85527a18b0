import Mathlib.Algebra.GroupWithZero.Nat
import Mathlib.Data.List.Induction
import Mathlib.Data.List.Pairwise
import ActorLogic.Metrics
import ActorLogic.Proofs.Text.Sorted
/-!
# The breakdown by address

A summary has one entry for each address as it is shown, in the order of the texts. Addresses that
look alike share an entry, and the order of the texts need not be that of the addresses. So the
breakdown goes by address only if the addresses of the log are shown in their own order, as they are
if no actor's name has a stroke in it, or a character in front of the stroke.
-/

namespace ActorLogic

/-! ## Addresses in order -/

namespace Address

/-- Addresses are ordered by their actors, and those of one actor by their channels. -/
def Before (a b : Address) : Prop :=
  a.actor < b.actor ∨ a.actor = b.actor ∧ a.channel < b.channel

variable {a b : Address}

theorem Before.asymm (h : a.Before b) : ¬ b.Before a := by
  rintro (hba | ⟨heq, hba⟩)
  · rcases h with hab | ⟨heq, -⟩
    · exact String.lt_irrefl _ (String.lt_trans hab hba)
    · exact String.lt_irrefl _ (heq ▸ hba)
  · rcases h with hab | ⟨-, hab⟩
    · exact String.lt_irrefl _ (heq ▸ hab)
    · exact String.lt_irrefl _ (String.lt_trans hab hba)

theorem eq_of_not_before (hab : ¬ a.Before b) (hba : ¬ b.Before a) : a = b := by
  obtain ⟨actor, channel⟩ := a
  obtain ⟨actor', channel'⟩ := b
  obtain rfl : actor = actor' := eq_of_not_lt (mt .inl hab) (mt .inl hba)
  obtain rfl : channel = channel' :=
    eq_of_not_lt (fun h => hab (.inr ⟨rfl, h⟩)) fun h => hba (.inr ⟨rfl, h⟩)
  rfl

theorem toList_display (a : Address) :
    a.display.toList = a.actor.toList ++ '/' :: a.channel.toList := by
  simp [display]

/-- A separator in front of every character of the earlier text does not change the order. -/
theorem append_separator_lt {c : Char} {xs ys us vs : List Char} (hys : ∀ y ∈ ys, c < y)
    (h : xs < ys) : xs ++ c :: us < ys ++ c :: vs := by
  induction xs generalizing ys with
  | nil =>
    cases ys with
    | nil => exact absurd h (List.lt_irrefl [])
    | cons y ys => exact List.cons_lt_cons_iff.2 (.inl (hys y List.mem_cons_self))
  | cons x xs ih =>
    cases ys with
    | nil => exact absurd h (List.not_lt_nil _)
    | cons y ys =>
      rcases List.cons_lt_cons_iff.1 h with hlt | ⟨rfl, hlt⟩
      · exact List.cons_lt_cons_iff.2 (.inl hlt)
      · exact List.cons_lt_cons_iff.2
          (.inr ⟨rfl, ih (fun y hy => hys y (List.mem_cons_of_mem x hy)) hlt⟩)

/-- Addresses are shown in their order, if the later actor's name has only characters behind the
stroke. -/
theorem display_lt (hb : ∀ c ∈ b.actor.toList, '/' < c) (h : a.Before b) :
    a.display < b.display := by
  rw [String.lt_iff, toList_display, toList_display]
  rcases h with hactor | ⟨heq, hchannel⟩
  · exact append_separator_lt hb (String.lt_iff.1 hactor)
  · rw [heq]
    exact List.append_left_lt (List.cons_lt_cons_iff.2 (.inr ⟨rfl, String.lt_iff.1 hchannel⟩))

end Address

/-! ## Counts over events -/

variable {P : Type}

/-- The counts over all of the events. -/
def DelayStats.ofEvents (events : List (Event P)) : DelayStats :=
  let delays := events.map (·.queueDelay)
  ⟨events.length, delays.foldl (· + ·) 0, delays.foldl max 0⟩

theorem DelayStats.ofEvents_concat (events : List (Event P)) (e : Event P) :
    ofEvents (events ++ [e]) = (ofEvents events).record e.queueDelay := by
  simp [ofEvents, record, List.foldl_append]

namespace DelayTable

variable {keys : List String} {stats other : String → DelayStats} {key : String} {delay : Nat}

/-- An entry under each of the keys. -/
def ofKeys (keys : List String) (stats : String → DelayStats) : DelayTable :=
  keys.map fun key => (key, stats key)

theorem ofKeys_cons : ofKeys (key :: keys) stats = (key, stats key) :: ofKeys keys stats := rfl

theorem keys_ofKeys : (ofKeys keys stats).map Prod.fst = keys := by
  rw [ofKeys, List.map_map]
  exact List.map_id keys

theorem ofKeys_congr (h : ∀ k ∈ keys, stats k = other k) : ofKeys keys stats = ofKeys keys other :=
  List.map_congr_left fun k hk => by rw [h k hk]

/-- Counts under a key that is not there make no difference. -/
theorem ofKeys_update {counts : DelayStats} (h : key ∉ keys) :
    ofKeys keys (Function.update stats key counts) = ofKeys keys stats :=
  ofKeys_congr fun _ hk => Function.update_of_ne (ne_of_mem_of_not_mem hk h) counts stats

/-- Recording under a key changes the counts of that key, for which nothing is counted as long as it
is new. -/
theorem record_ofKeys (hsorted : keys.Pairwise (· < ·)) (hnew : key ∉ keys → stats key = {}) :
    record key delay (ofKeys keys stats) =
      ofKeys (insertSorted key keys) (Function.update stats key ((stats key).record delay)) := by
  induction keys with
  | nil => simp [ofKeys, record, insertSorted, hnew]
  | cons k rest ih =>
    obtain ⟨hfirst, hrest⟩ := List.pairwise_cons.1 hsorted
    rw [ofKeys_cons, record, insertSorted]
    split
    · next hlt =>
      -- The new key comes first, and none of the others is it.
      have hfree : key ∉ k :: rest := by
        intro hin
        rcases List.mem_cons.1 hin with rfl | hmem
        · exact String.lt_irrefl _ hlt
        · exact String.lt_irrefl _ (String.lt_trans hlt (hfirst key hmem))
      rw [ofKeys_cons, ofKeys_update hfree, Function.update_self, hnew hfree, ofKeys_cons]
    · next hle =>
      split
      · next heq =>
        subst heq
        have hfree : key ∉ rest := fun hin => String.lt_irrefl _ (hfirst key hin)
        rw [ofKeys_cons, ofKeys_update hfree, Function.update_self]
      · next hne =>
        have hrestnew : key ∉ rest → stats key = {} := fun hfree =>
          hnew (mt List.mem_cons.1 (not_or.2 ⟨hne, hfree⟩))
        rw [ofKeys_cons, Function.update_of_ne (Ne.symm hne), ih hrest hrestnew]

/-- The delays of all entries together. -/
def total (table : DelayTable) : Nat := (table.map (·.2.totalDelay)).sum

/-- Under whichever key a delay is recorded, it is counted once. -/
theorem total_record (table : DelayTable) : (record key delay table).total = table.total + delay := by
  induction table with
  | nil => simp [total, record, DelayStats.record]
  | cons entry rest ih =>
    obtain ⟨k, s⟩ := entry
    simp only [total] at ih
    rw [record]
    split
    · simp [total, DelayStats.record, Nat.add_comm]
    · split
      · simp [total, DelayStats.record, Nat.add_right_comm]
      · simp [total, ih, Nat.add_assoc]

end DelayTable

/-! ## The entries of a summary -/

namespace RunMetrics

section Entries

variable [Payload P]

theorem perAddress_concat (events : List (Event P)) (e : Event P) :
    (ofEvents (events ++ [e])).perAddress =
      (ofEvents events).perAddress.record e.target.display e.queueDelay := by
  simp [ofEvents, Collector.summary, Collector.recordAll, Collector.record, List.foldl_append]

/-- There is one entry for each text that a receiving address is shown as, in the order of the texts,
with the counts over the events whose address is shown so. -/
theorem perAddress_ofEvents (events : List (Event P)) :
    (ofEvents events).perAddress =
      .ofKeys (sortedTexts (events.map (·.target.display))) fun key =>
        .ofEvents (events.filter (·.target.display = key)) := by
  induction events using List.reverseRecOn with
  | nil => rfl
  | append_singleton events e ih =>
    have hnew : e.target.display ∉ sortedTexts (events.map (·.target.display)) →
        DelayStats.ofEvents (events.filter (·.target.display = e.target.display)) = {} := by
      intro hfree
      rw [mem_sortedTexts, List.mem_map, not_exists] at hfree
      rw [List.filter_eq_nil_iff.2 fun x hx => by simpa using fun heq => hfree x ⟨hx, heq⟩]
      rfl
    rw [perAddress_concat, ih, DelayTable.record_ofKeys (pairwise_sortedTexts _) hnew,
      List.map_append, List.map_singleton, sortedTexts_concat]
    refine DelayTable.ofKeys_congr fun key _ => ?_
    rw [List.filter_append]
    by_cases heq : key = e.target.display
    · subst heq
      rw [Function.update_self, ← DelayStats.ofEvents_concat]
      simp
    · rw [Function.update_of_ne heq]
      simp [Ne.symm heq]

/-- The entries of a summary add up to the delays of the log. -/
theorem total_perAddress (events : List (Event P)) :
    (ofEvents events).perAddress.total = (events.map (·.queueDelay)).sum := by
  induction events using List.reverseRecOn with
  | nil => rfl
  | append_singleton events e ih =>
    rw [perAddress_concat, DelayTable.total_record, ih, List.map_append, List.sum_append]
    simp

end Entries

/-- The table has one entry for each address that received something, in the order of the addresses,
with the counts over the events that were delivered there. -/
def KeyedByAddress (events : List (Event P)) (table : DelayTable) : Prop :=
  ∃ receivers : List Address, receivers.Pairwise Address.Before ∧
    (∀ a, a ∈ receivers ↔ ∃ e ∈ events, e.target = a) ∧
    table = receivers.map fun a => (a.display, DelayStats.ofEvents (events.filter (·.target = a)))

/-- The receiving addresses of the log are shown in their order. -/
def ShownInOrder (events : List (Event P)) : Prop :=
  ∀ x ∈ events, ∀ y ∈ events, x.target.Before y.target → x.target.display < y.target.display

variable {events : List (Event P)}

theorem ShownInOrder.target_eq (h : ShownInOrder events) {x y : Event P} (hx : x ∈ events)
    (hy : y ∈ events) (heq : x.target.display = y.target.display) : x.target = y.target := by
  apply Address.eq_of_not_before
  · exact fun hbefore => String.lt_irrefl _ (heq ▸ h x hx y hy hbefore)
  · exact fun hbefore => String.lt_irrefl _ (heq ▸ h y hy x hx hbefore)

theorem ShownInOrder.before (h : ShownInOrder events) {x y : Event P} (hx : x ∈ events)
    (hy : y ∈ events) (hlt : x.target.display < y.target.display) : x.target.Before y.target := by
  by_contra hnot
  by_cases hback : y.target.Before x.target
  · exact String.lt_irrefl _ (String.lt_trans hlt (h y hy x hx hback))
  · exact String.lt_irrefl _ (Address.eq_of_not_before hnot hback ▸ hlt)

variable [Payload P]

/-- The texts of a breakdown are in order, so if it goes by address the addresses are shown in
order. -/
theorem KeyedByAddress.shownInOrder (h : KeyedByAddress events (ofEvents events).perAddress) :
    ShownInOrder events := by
  obtain ⟨receivers, hbefore, hmem, htable⟩ := h
  have hkeys : sortedTexts (events.map (·.target.display)) = receivers.map (·.display) := by
    have hfst := congrArg (List.map Prod.fst) htable
    rwa [perAddress_ofEvents, DelayTable.keys_ofKeys, List.map_map] at hfst
  have hsorted := pairwise_sortedTexts (events.map (·.target.display))
  rw [hkeys, List.pairwise_map] at hsorted
  -- Of two receivers one stands in front of the other, and is before it in both orders.
  have hboth := hbefore.and hsorted
  have hall : ∀ a ∈ receivers, ∀ b ∈ receivers, a.Before b → a.display < b.display := by
    apply List.Pairwise.forall_of_forall_of_flip
    · exact fun a _ haa => absurd haa haa.asymm
    · exact hboth.imp fun ⟨_, hlt⟩ _ => hlt
    · exact hboth.imp fun ⟨hab, _⟩ hba => absurd hba hab.asymm
  intro x hx y hy
  exact hall _ ((hmem _).2 ⟨x, hx, rfl⟩) _ ((hmem _).2 ⟨y, hy, rfl⟩)

/-- Where the addresses are shown in order, each text is that of one address. -/
theorem ShownInOrder.keyedByAddress (h : ShownInOrder events) :
    KeyedByAddress events (ofEvents events).perAddress := by
  let keys := sortedTexts (events.map (·.target.display))
  have hkey : ∀ e ∈ events, e.target.display ∈ keys := fun e he =>
    mem_sortedTexts.2 (List.mem_map_of_mem he)
  have hpick : ∀ key ∈ keys, ∃ a : Address, (∃ e ∈ events, e.target = a) ∧ a.display = key := by
    intro key hin
    obtain ⟨e, he, rfl⟩ := List.mem_map.1 (mem_sortedTexts.1 hin)
    exact ⟨e.target, ⟨e, he, rfl⟩, rfl⟩
  choose! pick hreceives hshown using hpick
  have hback : ∀ e ∈ events, pick e.target.display = e.target := by
    intro e he
    obtain ⟨x, hx, hxe⟩ := hreceives _ (hkey e he)
    rw [← hxe]
    exact h.target_eq hx he (hxe ▸ hshown _ (hkey e he))
  refine ⟨keys.map pick, ?_, ?_, ?_⟩
  · rw [List.pairwise_map]
    refine (pairwise_sortedTexts _).imp_of_mem fun {k k'} hk hk' hlt => ?_
    obtain ⟨x, hx, hxk⟩ := hreceives k hk
    obtain ⟨y, hy, hyk⟩ := hreceives k' hk'
    rw [← hxk, ← hyk]
    apply h.before hx hy
    rwa [hxk, hyk, hshown k hk, hshown k' hk']
  · intro a
    constructor
    · intro ha
      obtain ⟨key, hin, rfl⟩ := List.mem_map.1 ha
      exact hreceives key hin
    · rintro ⟨e, he, rfl⟩
      exact List.mem_map.2 ⟨_, hkey e he, hback e he⟩
  · rw [perAddress_ofEvents, DelayTable.ofKeys, List.map_map]
    refine List.map_congr_left fun key hin => ?_
    have hsame : events.filter (·.target.display = key) = events.filter (·.target = pick key) := by
      refine List.filter_congr fun e he => decide_eq_decide.2 ⟨fun heq => ?_, fun heq => ?_⟩
      · rw [← heq, hback e he]
      · rw [heq, hshown key hin]
    rw [Function.comp_apply, hshown key hin, hsame]

/-- For any log: the breakdown has one entry for each text that receiving addresses are shown as, in
the order of the texts, with the counts over the events whose address is shown so. It goes by address
exactly if the addresses of the log are shown in their order, and they are if the actors' names have
only characters behind the stroke. -/
theorem breakdown_ofEvents (events : List (Event P)) :
    (ofEvents events).perAddress =
        .ofKeys (sortedTexts (events.map (·.target.display)))
          (fun key => .ofEvents (events.filter (·.target.display = key))) ∧
      (KeyedByAddress events (ofEvents events).perAddress ↔ ShownInOrder events) ∧
      ((∀ e ∈ events, ∀ c ∈ e.target.actor.toList, '/' < c) →
        KeyedByAddress events (ofEvents events).perAddress) := by
  refine ⟨perAddress_ofEvents events, ⟨KeyedByAddress.shownInOrder, ShownInOrder.keyedByAddress⟩, ?_⟩
  intro hnames
  exact ShownInOrder.keyedByAddress fun x _ y hy => Address.display_lt (hnames y hy)

/-- Of three addresses, the first and the last look alike, and the one between them is shown in front
of both. -/
theorem not_keyedByAddress :
    let log : List (Event Nat) :=
      [⟨1, ⟨"src", "out"⟩, ⟨"a", "b/c"⟩, 10, none, 0⟩, ⟨2, ⟨"src", "out"⟩, ⟨"a!", "x"⟩, 11, none, 1⟩,
        ⟨3, ⟨"src", "out"⟩, ⟨"a/b", "c"⟩, 12, none, 2⟩]
    ¬ KeyedByAddress log (ofEvents log).perAddress := by
  intro log h
  have hlt := h.shownInOrder log[0] (by simp [log]) log[2] (by simp [log]) (.inl (by decide))
  exact absurd hlt (by decide)

end RunMetrics

end ActorLogic
