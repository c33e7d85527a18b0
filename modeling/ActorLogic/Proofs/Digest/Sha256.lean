import ActorLogic.Digest.Sha256
import Mathlib.Data.List.Basic
/-!
# Messages in parts

A hasher mixes in whole blocks as soon as they are there and keeps the bytes behind them. So it does
not matter how a message is cut into parts: the digest is that of the parts put together.
-/

namespace ActorLogic.Sha256

variable {a b : ByteArray} {s : State}

/-! ## Bytes of a block -/

theorem byteAt_eq (data : ByteArray) (i : Nat) :
    byteAt data i = (data.data[i]?.getD 0).toUInt32 := by
  rw [byteAt, getElem?_def, getElem?_def]
  rfl

theorem byteAt_append_left {i : Nat} (h : i < a.size) : byteAt (a ++ b) i = byteAt a i := by
  rw [byteAt_eq, byteAt_eq, ByteArray.data_append, Array.getElem?_append_left h]

theorem byteAt_append_right (i : Nat) : byteAt (a ++ b) (a.size + i) = byteAt b i := by
  rw [byteAt_eq, byteAt_eq, ByteArray.data_append, ← ByteArray.size_data,
    Array.getElem?_append_right (Nat.le_add_right _ _), Nat.add_sub_cancel_left]

theorem wordAt_append_left {i : Nat} (h : i + 3 < a.size) : wordAt (a ++ b) i = wordAt a i := by
  rw [wordAt, wordAt, byteAt_append_left (by omega), byteAt_append_left (by omega),
    byteAt_append_left (by omega), byteAt_append_left h]

theorem wordAt_append_right (i : Nat) : wordAt (a ++ b) (a.size + i) = wordAt b i := by
  simp only [wordAt, Nat.add_assoc, byteAt_append_right]

/-! ## Blocks -/

/-- A block that ends in the first part is mixed in without a look at the second. -/
theorem compress_append_left {start : Nat} (h : start + 64 ≤ a.size) :
    compress s (a ++ b) start = compress s a start := by
  have hwords : (Array.ofFn fun i : Fin 16 => wordAt (a ++ b) (start + 4 * i)) =
      Array.ofFn fun i : Fin 16 => wordAt a (start + 4 * i) :=
    congrArg Array.ofFn (funext fun i => wordAt_append_left (by omega))
  rw [compress, compress, schedule, schedule, hwords]

theorem compress_append_right (start : Nat) :
    compress s (a ++ b) (a.size + start) = compress s b start := by
  have hwords : (Array.ofFn fun i : Fin 16 => wordAt (a ++ b) (a.size + start + 4 * i)) =
      Array.ofFn fun i : Fin 16 => wordAt b (start + 4 * i) :=
    congrArg Array.ofFn (funext fun i => by rw [Nat.add_assoc, wordAt_append_right])
  rw [compress, compress, schedule, schedule, hwords]

/-- Behind whole blocks, mixing starts anew. -/
theorem mix_append (h : 64 ∣ a.size) : mix s (a ++ b) = mix (mix s a) b := by
  obtain ⟨n, hn⟩ := h
  have hcount : (a ++ b).size / 64 = n + b.size / 64 := by
    rw [ByteArray.size_append, hn]
    omega
  rw [mix, hcount, List.range_add, List.foldl_append, List.foldl_map]
  have hfirst : (List.range n).foldl (fun s i => compress s (a ++ b) (64 * i)) s = mix s a := by
    rw [mix, hn, Nat.mul_div_cancel_left n (by decide)]
    refine List.foldl_ext _ _ s fun s i hi => compress_append_left ?_
    rw [hn]
    have := List.mem_range.1 hi
    omega
  rw [hfirst, mix]
  refine List.foldl_ext _ _ _ fun s i _ => ?_
  rw [Nat.mul_add, ← hn, compress_append_right]

/-- Less than a block is not mixed in yet. -/
theorem mix_of_short (h : a.size < 64) : mix s a = s := by
  rw [mix, Nat.div_eq_of_lt h]
  rfl

/-! ## Parts -/

/-- The whole blocks of the data. -/
def whole (data : ByteArray) : ByteArray := data.extract 0 (data.size / 64 * 64)

/-- The bytes behind the last whole block. -/
def remainder (data : ByteArray) : ByteArray := data.extract (data.size / 64 * 64) data.size

theorem whole_append_remainder (data : ByteArray) : whole data ++ remainder data = data := by
  have hle : data.size / 64 * 64 ≤ data.size := Nat.div_mul_le_self _ _
  rw [whole, remainder, ByteArray.extract_append_extract, Nat.zero_min, Nat.max_eq_right hle,
    ByteArray.extract_zero_size]

theorem dvd_size_whole (data : ByteArray) : 64 ∣ (whole data).size := by
  rw [whole, ByteArray.size_extract]
  omega

theorem size_remainder (data : ByteArray) : (remainder data).size < 64 := by
  rw [remainder, ByteArray.size_extract]
  omega

theorem remainder_append (h : 64 ∣ a.size) : remainder (a ++ b) = remainder b := by
  obtain ⟨n, hn⟩ := h
  have hcount : (a ++ b).size / 64 * 64 = a.size + b.size / 64 * 64 := by
    rw [ByteArray.size_append, hn]
    omega
  rw [remainder, hcount, ByteArray.size_append, ByteArray.extract_append_size_add, remainder]

theorem mix_whole (s : State) (data : ByteArray) : mix s (whole data) = mix s data := by
  conv_rhs => rw [← whole_append_remainder data, mix_append (dvd_size_whole data),
    mix_of_short (size_remainder data)]

namespace Hasher

theorem absorb_eq (h : Hasher) (part : ByteArray) :
    h.absorb part =
      ⟨mix h.state (h.pending ++ part), remainder (h.pending ++ part), h.size + part.size⟩ := rfl

/-- To take two parts, one after the other, is to take both at once. -/
theorem absorb_absorb (h : Hasher) (a b : ByteArray) :
    (h.absorb a).absorb b = h.absorb (a ++ b) := by
  have hdvd := dvd_size_whole (h.pending ++ a)
  have hsplit : h.pending ++ (a ++ b) =
      whole (h.pending ++ a) ++ (remainder (h.pending ++ a) ++ b) := by
    rw [← ByteArray.append_assoc, ← ByteArray.append_assoc, whole_append_remainder]
  simp only [absorb_eq]
  rw [hsplit, mix_append hdvd, mix_whole, remainder_append hdvd, ByteArray.size_append,
    Nat.add_assoc]

theorem absorb_empty : ({} : Hasher).absorb .empty = {} := by
  rw [absorb_eq]
  rfl

/-- A message may be taken in any number of parts. -/
theorem foldl_absorb {α : Type} (part : α → ByteArray) (l : List α) (h : Hasher) (taken : ByteArray) :
    l.foldl (fun h x => h.absorb (part x)) (h.absorb taken) =
      h.absorb (l.foldl (fun bytes x => bytes ++ part x) taken) := by
  induction l generalizing taken with
  | nil => rfl
  | cons x rest ih => rw [List.foldl_cons, List.foldl_cons, absorb_absorb, ih]

end Hasher

/-- Two messages that have the same digest but are not the same. -/
def Collide (a b : ByteArray) : Prop := a ≠ b ∧ digest a = digest b

end ActorLogic.Sha256
