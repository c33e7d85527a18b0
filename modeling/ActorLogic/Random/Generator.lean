import ActorLogic.Random.ChaCha
/-!
# The random number generator

A generator reads the keystream of a key from its start, so two generators with the same seed give
the same values. A value has 64 bits: two neighbouring words of the keystream, the low one first. A
block gives eight values, and those that are not drawn yet are kept.
-/

namespace ActorLogic

structure Generator where
  key : ChaCha.Key
  /-- How many blocks of the keystream have been read. -/
  blocks : Nat := 0
  /-- The values of the last of these blocks that have not been drawn. -/
  ready : List UInt64 := []
  deriving DecidableEq, Repr

namespace Generator

/-! ## Seeds -/

/-- The step of the sequence that spreads a seed over a key. -/
def advance (state : UInt64) : UInt64 := state * 6364136223846793005 + 11634580027462260723

/-- The word that a state of that sequence stands for: some of its high bits, turned right by the
five highest. -/
def output (state : UInt64) : UInt32 :=
  let x := (((state >>> 18) ^^^ state) >>> 27).toUInt32
  let turn := (state >>> 59).toUInt32
  (x >>> turn) ||| (x <<< (32 - turn))

/-- The states of the sequence after a seed. -/
def states (seed : UInt64) (n : Nat) : UInt64 := Nat.repeat advance (n + 1) seed

/-- The key of a seed. -/
def expand (seed : UInt64) : ChaCha.Key := Vector.ofFn fun i => output (states seed i)

def ofSeed (seed : UInt64) : Generator := { key := expand seed }

/-! ## Draws -/

/-- The values that the words of a block give, in order. -/
def values (b : ChaCha.Block) : List UInt64 :=
  List.ofFn fun i : Fin 8 =>
    (b.get ⟨2 * i.val, by omega⟩).toUInt64 ||| ((b.get ⟨2 * i.val + 1, by omega⟩).toUInt64 <<< 32)

/-- The next value. Where none is left, the next block is read. -/
def draw (g : Generator) : UInt64 × Generator :=
  match g.ready with
  | v :: rest => (v, { g with ready := rest })
  | [] =>
    let vs := values (ChaCha.block g.key (UInt64.ofNat g.blocks))
    (vs.headD 0, { g with blocks := g.blocks + 1, ready := vs.tail })

/-- The greatest low half of a product that is accepted: one less than the bound, moved up as far as
64 bits allow. -/
def zone (bound : Nat) : Nat := bound <<< (63 - bound.log2) - 1

/-- Draw until the low half of `value * bound` is in the zone, at most `tries + 1` times. The high
half is the answer. -/
def belowIn (bound : Nat) : Nat → Generator → Nat × Generator
  | 0, g =>
    let (v, g) := g.draw
    (v.toNat * bound / 1 <<< 64, g)
  | tries + 1, g =>
    let (v, g') := g.draw
    if v.toNat * bound % 1 <<< 64 ≤ zone bound then (v.toNat * bound / 1 <<< 64, g')
    else belowIn bound tries g'

/-- A number below a positive bound, each with the same chance. At least half of all values are
accepted, so the limit on tries does not matter. -/
def below (g : Generator) (bound : Nat) : Nat × Generator := belowIn bound 1000 g

/-! ## The answer is in range -/

theorem high_half_lt (v : UInt64) {bound : Nat} (h : 0 < bound) :
    v.toNat * bound / 1 <<< 64 < bound :=
  Nat.div_lt_of_lt_mul (Nat.mul_lt_mul_of_pos_right v.toNat_lt h)

theorem belowIn_lt {bound : Nat} (h : 0 < bound) (tries : Nat) (g : Generator) :
    (belowIn bound tries g).1 < bound := by
  induction tries generalizing g with
  | zero => exact high_half_lt _ h
  | succ tries ih =>
    simp only [belowIn]
    split
    · exact high_half_lt _ h
    · exact ih _

theorem below_lt (g : Generator) {bound : Nat} (h : 0 < bound) : (g.below bound).1 < bound :=
  belowIn_lt h _ g

end Generator

end ActorLogic
