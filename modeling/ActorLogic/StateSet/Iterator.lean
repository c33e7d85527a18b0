import ActorLogic.StateSet
/-!
# Calls on a cursor

A cursor is asked for one member at a time and goes on from where it stands. It can be asked again
after it had no member left: then it stands behind its words, and moves on without an end.
-/

namespace ActorLogic.StateSet.Cursor

/-- One call: the next member, if there is one, and the cursor as the call leaves it. -/
def pull (c : Cursor) : Option StateId × Cursor :=
  if c.current = 0#64 then
    match h : c.words[c.position + 1]? with
    | some w => pull ⟨c.words, c.position + 1, w⟩
    | none => (none, { c with position := c.position + 1 })
  else
    (some (c.position * 64 + lowestBit c.current), { c with current := dropLowest c.current })
termination_by c.words.size - c.position
decreasing_by
  have hin : c.position + 1 < c.words.size := (Array.getElem?_eq_some_iff.1 h).1
  omega

/-- The answer to a call after `k` calls before. -/
def answer : Nat → Cursor → Option StateId
  | 0, c => c.pull.1
  | k + 1, c => answer k c.pull.2

end ActorLogic.StateSet.Cursor
