import ActorLogic.Metrics
import ActorLogic.Proofs.Digest.Sha256
import ActorLogic.Proofs.Json.Compact
/-!
# The digest of a log

A log is written with one event on a line, and the written log tells which events it is of. So the
digests of two logs are the same only if the logs are the same, or if different messages have the
same digest.
-/

namespace ActorLogic

/-! ## What is written of an event -/

theorem Address.plain (a : Address) : a.toJson.Plain :=
  .object (by simp [Json.Plain.text])

theorem Address.toJson_injective : Function.Injective Address.toJson := by
  rintro ⟨actor, channel⟩ ⟨actor', channel'⟩ h
  simpa [Address.toJson] using h

theorem Address.plain_optional : ∀ a : Option Address, (Address.optionalJson a).Plain
  | none => .null
  | some a => a.plain

/-- No address is written as a missing one is. -/
theorem Address.optionalJson_injective : Function.Injective Address.optionalJson := by
  rintro (_ | a) (_ | b) h
  · rfl
  · simp [Address.optionalJson, Address.toJson] at h
  · simp [Address.optionalJson, Address.toJson] at h
  · exact congrArg some (Address.toJson_injective h)

/-- Payloads are written without reals, and different ones differently. -/
structure Payload.Faithful (P : Type) [Payload P] : Prop where
  plain : ∀ p : P, (Payload.toJson p).Plain
  injective : Function.Injective (Payload.toJson : P → Json)

theorem Datum.faithful : Payload.Faithful Datum where
  plain
    | .int n => .int n
    | .text s => .text s
  injective := by
    rintro (m | s) (n | t) h <;> cases h <;> rfl

namespace Event

variable {P : Type} [Payload P]

theorem plain (h : Payload.Faithful P) (e : Event P) : e.toJson.Plain :=
  .object (by simp [Json.Plain.int, Address.plain, Address.plain_optional, h.plain])

theorem toJson_injective (h : Payload.Faithful P) :
    Function.Injective (Event.toJson : Event P → Json) := by
  rintro ⟨time, sender, target, payload, replyTo, delay⟩
    ⟨time', sender', target', payload', replyTo', delay'⟩ heq
  simp only [Event.toJson, Json.object.injEq, List.cons.injEq, Prod.mk.injEq, Json.int.injEq,
    Int.natCast_inj, true_and, and_true] at heq
  obtain ⟨rfl, hsender, htarget, hpayload, hreply, rfl⟩ := heq
  rw [Address.toJson_injective hsender, Address.toJson_injective htarget, h.injective hpayload,
    Address.optionalJson_injective hreply]

theorem toList_line (e : Event P) : e.line.toList = e.toJson.chars ++ ['\n'] := by
  rw [line, String.toList_append, Json.toList_compact]
  rfl

/-! ## What is written of a log -/

/-- The bytes of the written log, as a hasher takes them. -/
def written (events : List (Event P)) : ByteArray :=
  events.foldl (fun bytes e => bytes ++ e.line.toUTF8) .empty

/-- The lines of a log can be told apart: each event ends where its object is closed. -/
theorem lines_unique (h : Payload.Faithful P) {xs ys : List (Event P)}
    (heq : xs.flatMap (·.line.toList) = ys.flatMap (·.line.toList)) : xs = ys := by
  have hstops : ∀ rest : List Char, Json.Stops (['\n'] ++ rest) := by
    simp [Json.Stops, Json.isNumeral]
  induction xs generalizing ys with
  | nil =>
    cases ys with
    | nil => rfl
    | cons y ys => simp [toList_line] at heq
  | cons x xs ih =>
    cases ys with
    | nil => simp [toList_line] at heq
    | cons y ys =>
      rw [List.flatMap_cons, List.flatMap_cons, toList_line, toList_line, List.append_assoc,
        List.append_assoc] at heq
      obtain ⟨hjson, hrest⟩ := (x.plain h).known (y.plain h) (hstops _) (hstops _) heq
      rw [toJson_injective h hjson, ih (List.append_cancel_left hrest)]

theorem written_eq (events : List (Event P)) :
    written events = (String.ofList (events.flatMap (·.line.toList))).toByteArray := by
  have hall : ∀ out : String, events.foldl (fun bytes e => bytes ++ e.line.toUTF8) out.toByteArray =
      (out ++ String.ofList (events.flatMap (·.line.toList))).toByteArray := by
    induction events with
    | nil => simp
    | cons e rest ih =>
      intro out
      rw [List.foldl_cons, String.toUTF8_eq_toByteArray, ← String.toByteArray_append, ih]
      simp [String.append_assoc]
  simpa [written] using hall ""

/-- A log is known from the bytes that are written of it. -/
theorem written_inj (h : Payload.Faithful P) {xs ys : List (Event P)} :
    written xs = written ys ↔ xs = ys := by
  refine ⟨fun heq => ?_, congrArg written⟩
  rw [written_eq, written_eq, String.toByteArray_inj, String.ofList_inj] at heq
  exact lines_unique h heq

end Event

/-! ## Digests -/

theorem Collector.hasher_recordAll {P : Type} [Payload P] (c : Collector) (events : List (Event P)) :
    (c.recordAll events).hasher =
      events.foldl (fun h e => h.absorb e.line.toUTF8) c.hasher := by
  induction events generalizing c with
  | nil => rfl
  | cons e rest ih => exact ih (c.record e)

/-- The digest of a summary is that of the written log. -/
theorem RunMetrics.digest_ofEvents {P : Type} [Payload P] (events : List (Event P)) :
    (RunMetrics.ofEvents events).digest = Sha256.digest (Event.written events) := by
  have hparts := Sha256.Hasher.foldl_absorb (fun e : Event P => e.line.toUTF8) events {} .empty
  rw [Sha256.Hasher.absorb_empty] at hparts
  rw [RunMetrics.ofEvents, Collector.summary, Collector.hasher_recordAll]
  exact congrArg Sha256.Hasher.digest hparts

/-- For logs of any events that carry whole numbers or texts: the bytes that are written of two of
them are the same only if the logs are, and then only a collision can make their digests equal. -/
theorem RunMetrics.digest_identifies (xs ys : List (Event Datum)) :
    (Event.written xs = Event.written ys ↔ xs = ys) ∧
      (RunMetrics.ofEvents xs).digest = Sha256.digest (Event.written xs) ∧
      ((RunMetrics.ofEvents xs).digest = (RunMetrics.ofEvents ys).digest ↔
        xs = ys ∨ Sha256.Collide (Event.written xs) (Event.written ys)) := by
  have hwritten : Event.written xs = Event.written ys ↔ xs = ys := Event.written_inj Datum.faithful
  refine ⟨hwritten, digest_ofEvents xs, ?_⟩
  rw [digest_ofEvents, digest_ofEvents, Sha256.Collide]
  constructor
  · intro h
    by_cases hsame : xs = ys
    · exact .inl hsame
    · exact .inr ⟨mt hwritten.1 hsame, h⟩
  · rintro (rfl | ⟨-, h⟩)
    · rfl
    · exact h

end ActorLogic
