import ActorLogic.Proofs.Repetition
import ActorLogic.Proofs.World.Delivery
/-!
# What can be built

A world is built from channels with distinct addresses and processes with distinct names. Otherwise
the first repetition is reported: the earliest address, or else the earliest name, that was there
before. In a world that was built, an address leads to the one channel that has it. No step changes
that, since steps put channels back with the addresses that they had.
-/

namespace ActorLogic

open Result

/-! ## First repetitions -/

section Repetitions

variable {α : Type} [DecidableEq α] {l seen : List α} {a : α}

/-- Behind distinct elements, the search finds the first repetition or none. -/
theorem firstRepeated_cases (hseen : seen.Nodup) :
    (firstRepeated seen l = none ∧ (seen.reverse ++ l).Nodup) ∨
      ∃ a, firstRepeated seen l = some a ∧ FirstRepetition (seen.reverse ++ l) a := by
  induction l generalizing seen with
  | nil => exact .inl ⟨rfl, by simpa using hseen⟩
  | cons b rest ih =>
    rw [firstRepeated]
    split
    · next hb =>
      exact .inr ⟨b, rfl, seen.reverse, rest, rfl, List.nodup_reverse.2 hseen,
        List.mem_reverse.2 hb⟩
    · next hb =>
      simpa only [List.reverse_cons, List.append_assoc, List.singleton_append] using
        ih (List.nodup_cons.2 ⟨hb, hseen⟩)

theorem firstRepeated_eq_none_iff : firstRepeated [] l = none ↔ l.Nodup := by
  obtain ⟨hnone, hnodup⟩ | ⟨a, hsome, hfirst⟩ := firstRepeated_cases (l := l) List.nodup_nil
  · exact ⟨fun _ => hnodup, fun _ => hnone⟩
  · simpa [hsome] using hfirst.not_nodup

theorem firstRepeated_eq_some_iff : firstRepeated [] l = some a ↔ FirstRepetition l a := by
  obtain ⟨hnone, hnodup⟩ | ⟨b, hsome, hfirst⟩ := firstRepeated_cases (l := l) List.nodup_nil
  · simpa [hnone] using fun h : FirstRepetition l a => h.not_nodup hnodup
  · rw [hsome, Option.some.injEq]
    exact ⟨fun heq => heq ▸ hfirst, hfirst.unique⟩

/-- The earliest repetition counts, whatever else is repeated later. -/
example : firstRepeated [] ["a", "b", "c", "b", "a"] = some "b" := by decide

end Repetitions

variable {P σ : Type}

/-! ## Registering -/

namespace ChannelTable

variable {t u : ChannelTable P} {c d : Channel P} {a : Address} {n : Nat}

/-- The addresses of the channels, in the order of their numbers. -/
def addresses (t : ChannelTable P) : List Address := t.channels.toList.map (·.address)

theorem getElem?_addresses : t.addresses[n]? = some a ↔ ∃ c, t.channels[n]? = some c ∧ c.address = a := by
  rw [addresses, List.getElem?_map, Option.map_eq_some_iff, Array.getElem?_toList]

theorem Indexed.find?_eq_some (h : t.Indexed) : t.find? a = some n ↔ t.addresses[n]? = some a := by
  rw [h a n, getElem?_addresses]

theorem Indexed.find?_eq_none (h : t.Indexed) : t.find? a = none ↔ a ∉ t.addresses := by
  rw [Option.eq_none_iff_forall_ne_some, List.mem_iff_getElem?, not_exists]
  simp only [ne_eq, h.find?_eq_some]

/-- Channels are registered up to the first one whose address is known already. -/
theorem register_cases (ht : t.Indexed) {seen : List Address}
    (hseen : ∀ a, a ∈ seen ↔ a ∈ t.addresses) (l : List (Channel P)) :
    (firstRepeated seen (l.map (·.address)) = none ∧ ∃ u, t.register l = .ok u) ∨
      ∃ a, firstRepeated seen (l.map (·.address)) = some a ∧
        t.register l = .error (.duplicateChannel a) := by
  induction l generalizing t seen with
  | nil => exact .inl ⟨rfl, t, rfl⟩
  | cons c rest ih =>
    rw [List.map_cons, firstRepeated, register]
    split
    · next hknown =>
      have hfind : t.find? c.address ≠ none := fun hnone =>
        ht.find?_eq_none.1 hnone ((hseen _).1 hknown)
      obtain ⟨n, hn⟩ := Option.ne_none_iff_exists'.1 hfind
      exact .inr ⟨c.address, rfl, by rw [insert?, hn]⟩
    · next hnew =>
      have hinsert : t.insert? c =
          some ⟨t.channels.push c, t.index.insert c.address t.channels.size⟩ := by
        rw [insert?, ht.find?_eq_none.2 (mt (hseen _).2 hnew)]
      rw [hinsert]
      refine ih (ht.insert hinsert) fun a => ?_
      simp [addresses, hseen, or_comm]

/-! ## Looking up -/

/-- How addresses lead to channels in a table in which some were registered. -/
structure Resolves (t : ChannelTable P) (registered : List (Channel P)) : Prop where
  /-- An address is resolved if a channel was registered under it, and unknown else. -/
  known : ∀ a, (∃ n, t.resolve (.address a) = .ok n) ↔ ∃ c ∈ registered, c.address = a
  unknown : ∀ a, t.resolve (.address a) = .error (.unknownChannel a) ↔
    ∀ c ∈ registered, c.address ≠ a
  /-- It leads to the number of a channel that has it, and no other channel has it. The channel is
  found by both. -/
  channel : ∀ a n, t.resolve (.address a) = .ok n →
    ∃ c, t.channels[n]? = some c ∧ c.address = a ∧
      t.get (.address a) = .ok c ∧ t.get (.id n) = .ok c ∧
      ∀ m d, t.channels[m]? = some d → d.address = a → m = n
  /-- Different addresses lead to different channels. -/
  apart : ∀ a b n, t.resolve (.address a) = .ok n → t.resolve (.address b) = .ok n → a = b

theorem Indexed.resolves (h : t.Indexed) {registered : List (Channel P)}
    (haddresses : t.addresses = registered.map (·.address)) : t.Resolves registered := by
  have hresolve : ∀ a n, t.resolve (.address a) = .ok n ↔ t.addresses[n]? = some a :=
    fun a n => resolve_address.trans h.find?_eq_some
  refine ⟨fun a => ?_, fun a => ?_, fun a n hn => ?_, fun a b n ha hb => ?_⟩
  · simp only [hresolve, ← List.mem_iff_getElem?, haddresses, List.mem_map]
  · have hnone : t.resolve (.address a) = .error (.unknownChannel a) ↔ t.find? a = none := by
      rw [resolve]
      cases t.find? a <;> simp
    rw [hnone, h.find?_eq_none, haddresses]
    simp
  · obtain ⟨c, hc, hca⟩ := getElem?_addresses.1 ((hresolve a n).1 hn)
    exact ⟨c, hc, hca, get_eq_ok.2 ⟨n, hn, hc⟩, get_eq_ok.2 ⟨n, rfl, hc⟩,
      fun m d hd hda => h.unique hd hc (hda.trans hca.symm)⟩
  · exact Option.some.inj (((hresolve a n).1 ha).symm.trans ((hresolve b n).1 hb))

/-! ## Putting channels back -/

/-- The channels of both tables have the same addresses under the same numbers. -/
structure SamePlaces (t u : ChannelTable P) : Prop where
  index : u.index = t.index
  addresses : u.addresses = t.addresses

namespace SamePlaces

theorem refl (t : ChannelTable P) : SamePlaces t t := ⟨rfl, rfl⟩

theorem trans {v : ChannelTable P} (h : SamePlaces t u) (hmore : SamePlaces u v) :
    SamePlaces t v :=
  ⟨hmore.index.trans h.index, hmore.addresses.trans h.addresses⟩

/-- A channel is put back with its address. -/
theorem set (hc : t.channels[n]? = some c) (haddress : d.address = c.address) :
    SamePlaces t (t.set n d) := by
  refine ⟨rfl, List.ext_getElem? fun k => ?_⟩
  have hn := (Array.getElem?_eq_some_iff.1 hc).1
  rw [ChannelTable.addresses, ChannelTable.addresses, List.getElem?_map, List.getElem?_map,
    Array.getElem?_toList, Array.getElem?_toList, channels_set t n d k hn]
  split
  · next heq =>
    subst heq
    rw [hc, Option.map_some, Option.map_some, haddress]
  · rfl

theorem indexed (h : SamePlaces t u) (ht : t.Indexed) : u.Indexed := by
  intro a n
  rw [find?, h.index, ← find?, ht.find?_eq_some, ← h.addresses, getElem?_addresses]

end SamePlaces

end ChannelTable

/-! ## Steps -/

namespace Turn

variable {t u : Turn P} {m : Message P} {key : ChannelKey}

theorem send_places {answer : Except (SendError P) Unit} (h : t.send m = .ok (answer, u)) :
    ChannelTable.SamePlaces t.channels u.channels := by
  obtain ⟨n, c, -, hc, hcase⟩ := send_cases h
  obtain ⟨-, -, rfl⟩ | ⟨-, -, rfl⟩ := hcase
  · exact .set hc rfl
  · exact .refl _

theorem receive_places {answer : Option (Message P)} (h : t.receive key = .ok (answer, u)) :
    ChannelTable.SamePlaces t.channels u.channels := by
  obtain ⟨n, c, -, hc, -, hcase⟩ := receive_cases h
  obtain ⟨-, -, rfl⟩ | ⟨e, d, htaken, -, -, rfl⟩ := hcase
  · exact .refl _
  · exact .set hc (Channel.receive?_eq_some.1 htaken).2.1

/-- Whatever a turn sends and receives, all channels keep their places. -/
theorem run_places {action : Action P σ} {state : σ} (h : run action t = .ok (state, u)) :
    ChannelTable.SamePlaces t.channels u.channels :=
  run_keeps (R := fun t u => ChannelTable.SamePlaces t.channels u.channels) (fun _ => .refl _)
    .trans send_places receive_places h

end Turn

/-- Along a run, all channels keep their places. -/
theorem World.FreeRun.places {start w : World P σ} {past : List (Tick P σ)}
    (h : FreeRun start past w) : ChannelTable.SamePlaces start.channels w.channels := by
  induction h with
  | start => exact .refl _
  | tick _ hnext ih =>
    obtain ⟨state, t, hrun, heq⟩ := perform_ok hnext
    rw [heq]
    exact ih.trans (Turn.run_places hrun)
  | watch i _ ih => exact ih

/-! ## Building -/

namespace Setup

variable {s : Setup P σ}

/-- A setup is refused for its configuration, or else for its channels, or else for its processes,
or a world is built from it. -/
theorem build_cases (s : Setup P σ) (fresh : UInt64) :
    (s.config.maxSteps = 0 ∧ s.build fresh = .error .noSteps) ∨
      0 < s.config.maxSteps ∧
        ((∃ a, FirstRepetition (s.channels.map (·.address)) a ∧
            s.build fresh = .error (.duplicateChannel a)) ∨
          (s.channels.map (·.address)).Nodup ∧
            ((∃ id, FirstRepetition (s.processes.map (·.id)) id ∧
                s.build fresh = .error (.duplicateProcess id)) ∨
              (s.processes.map (·.id)).Nodup ∧ ∃ w, s.build fresh = .ok w)) := by
  rw [build, SimulationConfig.validate]
  split
  · next hzero => exact .inl ⟨hzero, rfl⟩
  · next hsteps =>
    refine .inr ⟨Nat.pos_of_ne_zero hsteps, ?_⟩
    have hseen : ∀ a, a ∈ ([] : List Address) ↔ a ∈ (ChannelTable.empty : ChannelTable P).addresses :=
      fun a => by simp [ChannelTable.addresses, ChannelTable.empty]
    rw [ok_bind]
    obtain ⟨hnone, table, htable⟩ | ⟨a, hsome, hrefused⟩ :=
      ChannelTable.register_cases ChannelTable.indexed_empty hseen s.channels
    · refine .inr ⟨firstRepeated_eq_none_iff.1 hnone, ?_⟩
      rw [htable, ok_bind]
      cases hnames : firstRepeated [] (s.processes.map (·.id)) with
      | none => exact .inr ⟨firstRepeated_eq_none_iff.1 hnames, _, rfl⟩
      | some id => exact .inl ⟨id, firstRepeated_eq_some_iff.1 hnames, rfl⟩
    · exact .inl ⟨a, firstRepeated_eq_some_iff.1 hsome, by rw [hrefused]; rfl⟩

/-- In a world that was built, and after any steps, channels are found as they were registered. -/
theorem resolves_of_build {fresh : UInt64} {start w : World P σ} {past : List (Tick P σ)}
    (hbuild : s.build fresh = .ok start) (hrun : World.FreeRun start past w) :
    w.channels.Resolves s.channels := by
  obtain ⟨hindexed, hchannels, -⟩ := World.build_ok hbuild
  refine (hrun.places.indexed hindexed).resolves ?_
  rw [hrun.places.addresses, ChannelTable.addresses, hchannels]

/-- When a setup makes a world, why else it does not, and how addresses lead to channels then. -/
structure Builds (s : Setup P σ) (fresh : UInt64) : Prop where
  built : (∃ w, s.build fresh = .ok w) ↔
    0 < s.config.maxSteps ∧ (s.channels.map (·.address)).Nodup ∧ (s.processes.map (·.id)).Nodup
  /-- The configuration is looked at first, -/
  noSteps : s.build fresh = .error .noSteps ↔ s.config.maxSteps = 0
  /-- then the addresses of the channels, -/
  duplicateChannel : ∀ a, s.build fresh = .error (.duplicateChannel a) ↔
    0 < s.config.maxSteps ∧ FirstRepetition (s.channels.map (·.address)) a
  /-- and then the names of the processes. -/
  duplicateProcess : ∀ id, s.build fresh = .error (.duplicateProcess id) ↔
    0 < s.config.maxSteps ∧ (s.channels.map (·.address)).Nodup ∧
      FirstRepetition (s.processes.map (·.id)) id
  /-- Whatever steps are taken in the world, its channels are found as they were registered. -/
  resolves : ∀ start, s.build fresh = .ok start → start.channels.Resolves s.channels ∧
    ∀ past w, World.FreeRun start past w → w.channels.Resolves s.channels

/-- Every setup is treated by these rules, whatever its channels, processes and configuration are. -/
theorem builds (s : Setup P σ) (fresh : UInt64) : s.Builds fresh := by
  have hresolves : ∀ start, s.build fresh = .ok start → start.channels.Resolves s.channels ∧
      ∀ past w, World.FreeRun start past w → w.channels.Resolves s.channels := fun start hbuild =>
    ⟨resolves_of_build hbuild .start, fun past w hrun => resolves_of_build hbuild hrun⟩
  -- The four outcomes exclude each other, and so do their conditions.
  obtain ⟨hzero, h⟩ | ⟨hsteps, ⟨a, ha, h⟩ | ⟨hdistinct, ⟨id, hid, h⟩ | ⟨hnames, w, h⟩⟩⟩ :=
    s.build_cases fresh
  · refine ⟨?_, ?_, ?_, ?_, hresolves⟩ <;> simp [h, hzero]
  · have hnonzero := Nat.ne_of_gt hsteps
    refine ⟨by simp [h, ha.not_nodup], by simp [h, hnonzero], fun b => ?_,
      by simp [h, ha.not_nodup], hresolves⟩
    simpa [h, hsteps] using ⟨fun heq => heq ▸ ha, ha.unique⟩
  · have hnonzero := Nat.ne_of_gt hsteps
    refine ⟨by simp [h, hid.not_nodup], by simp [h, hnonzero],
      by simp [h, not_firstRepetition hdistinct], fun b => ?_, hresolves⟩
    simpa [h, hsteps, hdistinct] using ⟨fun heq => heq ▸ hid, hid.unique⟩
  · have hnonzero := Nat.ne_of_gt hsteps
    exact ⟨by simp [h, hsteps, hdistinct, hnames], by simp [h, hnonzero],
      by simp [h, not_firstRepetition hdistinct], by simp [h, not_firstRepetition hnames],
      hresolves⟩

end Setup

end ActorLogic
