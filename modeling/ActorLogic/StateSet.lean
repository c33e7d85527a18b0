import ActorLogic.Graph.Fault
/-!
# Sets of states

A set over the first `size` states, its universe, packed into words of 64 bits. Bits past the
universe are zero in every set that the operations build, so that two sets are equal as soon as they
have the same universe and the same members.
-/

namespace ActorLogic

structure StateSet where
  size : Nat
  words : Array (BitVec 64)
  deriving DecidableEq, Repr

namespace StateSet

/-! ## Words -/

/-- The number of words that hold `n` bits. -/
def wordCount (n : Nat) : Nat := (n + 63) / 64

/-- The bit of a state within its word. -/
def mask (s : StateId) : BitVec 64 := 1#64 <<< (s % 64)

/-- The number of bits that are set. -/
def countOnes (w : BitVec 64) : Nat := (List.range 64).countP fun i => w.getLsbD i

/-- Clear the bits past the universe in the last word. -/
def clearTail (set : StateSet) : StateSet :=
  let tail := set.size % 64
  if tail = 0 then set
  else
    let kept : BitVec 64 := (1#64 <<< tail) - 1#64
    { set with words := set.words.modify (set.words.size - 1) (· &&& kept) }

/-! ## Construction -/

def empty (n : Nat) : StateSet := ⟨n, Array.replicate (wordCount n) 0#64⟩

def full (n : Nat) : StateSet := clearTail ⟨n, Array.replicate (wordCount n) (BitVec.allOnes 64)⟩

/-! ## Members -/

/-- No set holds a state past its universe. -/
def contains (set : StateSet) (s : StateId) : Bool :=
  decide (s < set.size) && (set.words.getD (s / 64) 0#64).getLsbD (s % 64)

/-- Add a state, and tell whether it is new. -/
def insert (set : StateSet) (s : StateId) : Except GraphFault (StateSet × Bool) :=
  if s < set.size then
    let isNew := !set.contains s
    .ok ({ set with words := set.words.modify (s / 64) (· ||| mask s) }, isNew)
  else .error (.outsideSet s set.size)

/-- Take a state away, and tell whether it was there. -/
def remove (set : StateSet) (s : StateId) : Except GraphFault (StateSet × Bool) :=
  if s < set.size then
    let present := set.contains s
    .ok ({ set with words := set.words.modify (s / 64) (· &&& ~~~(mask s)) }, present)
  else .error (.outsideSet s set.size)

/-- Add states one by one. At the first one outside the universe this stops, and keeps those before
it. -/
def extend (set : StateSet) : List StateId → StateSet × Option GraphFault
  | [] => (set, none)
  | s :: rest =>
    match set.insert s with
    | .ok (grown, _) => grown.extend rest
    | .error fault => (set, some fault)

/-- The set of the listed states. -/
def ofList (n : Nat) (states : List StateId) : Except GraphFault StateSet :=
  match (empty n).extend states with
  | (set, none) => .ok set
  | (_, some fault) => .error fault

def card (set : StateSet) : Nat := set.words.toList.foldr (fun w n => countOnes w + n) 0

def isEmpty (set : StateSet) : Bool := set.words.all (· == 0#64)

/-! ## Algebra -/

/-- Join two sets word by word, and tell whether the first one changes. -/
def combine (f : BitVec 64 → BitVec 64 → BitVec 64) (set other : StateSet) :
    Except GraphFault (StateSet × Bool) :=
  if set.size = other.size then
    let words := Array.zipWith f set.words other.words
    .ok ({ set with words := words }, words != set.words)
  else .error .differentUniverses

def unionWith : StateSet → StateSet → Except GraphFault (StateSet × Bool) :=
  combine fun a b => a ||| b

def intersectWith : StateSet → StateSet → Except GraphFault (StateSet × Bool) :=
  combine fun a b => a &&& b

def differenceWith : StateSet → StateSet → Except GraphFault (StateSet × Bool) :=
  combine fun a b => a &&& ~~~b

def union (set other : StateSet) : Except GraphFault StateSet :=
  (set.unionWith other).map (·.1)

def intersection (set other : StateSet) : Except GraphFault StateSet :=
  (set.intersectWith other).map (·.1)

def difference (set other : StateSet) : Except GraphFault StateSet :=
  (set.differenceWith other).map (·.1)

/-- The states of the universe that are not members. -/
def complement (set : StateSet) : StateSet :=
  clearTail { set with words := set.words.map fun w => ~~~w }

def isSubset (set other : StateSet) : Except GraphFault Bool :=
  if set.size = other.size then
    .ok ((Array.zipWith (fun a b => a &&& ~~~b) set.words other.words).all (· == 0#64))
  else .error .differentUniverses

/-! ## Iteration

A cursor stands in one word. It hands out the lowest bit that is left there and clears it, and goes
on to the next word when none is left. -/

/-- The word without its lowest bit that is set. -/
def dropLowest (w : BitVec 64) : BitVec 64 := w &&& (w - 1#64)

/-- The position of the lowest bit that is set: the only bit that `dropLowest` changes. -/
def lowestBit (w : BitVec 64) : Nat := (w ^^^ dropLowest w).toNat.log2

structure Cursor where
  words : Array (BitVec 64)
  position : Nat
  current : BitVec 64

def cursor (set : StateSet) : Cursor := ⟨set.words, 0, set.words.getD 0 0#64⟩

/-- The next member, at most `fuel` words further on. -/
def Cursor.nextWithin : Nat → Cursor → Option (StateId × Cursor)
  | 0, _ => none
  | fuel + 1, c =>
    if c.current = 0#64 then
      match c.words[c.position + 1]? with
      | some w => nextWithin fuel ⟨c.words, c.position + 1, w⟩
      | none => none
    else
      some (c.position * 64 + lowestBit c.current,
        { c with current := dropLowest c.current })

/-- The next member, and the cursor behind it. -/
def Cursor.next? (c : Cursor) : Option (StateId × Cursor) :=
  c.nextWithin (c.words.size - c.position + 1)

/-- At most `fuel` members from here on. -/
def Cursor.collect : Nat → Cursor → List StateId
  | 0, _ => []
  | fuel + 1, c =>
    match c.next? with
    | some (s, c) => s :: c.collect fuel
    | none => []

/-- The members in increasing order. -/
def toList (set : StateSet) : List StateId := set.cursor.collect (64 * set.words.size)

/-- How a set is shown in a diagnostic. -/
def display (set : StateSet) : String :=
  "\x7b" ++ ", ".intercalate (set.toList.map fun s => "StateId(" ++ toString s ++ ")") ++ "\x7d"

end StateSet

end ActorLogic
