import ActorLogic.Text.Sorted
/-!
# Formulas of computation tree logic

A formula speaks of a state of a graph. Beside the connectives it has one operator for each pair of
a path quantifier (some path, every path) and a modality (next, finally, globally, until).
-/

namespace ActorLogic

inductive Formula where
  /-- Holds at every state. -/
  | top
  /-- Holds at no state. -/
  | bot
  /-- Holds where the state carries the label. -/
  | atom (name : String)
  | not (f : Formula)
  | and (f g : Formula)
  | or (f g : Formula)
  /-- Some successor satisfies the operand. -/
  | ex (f : Formula)
  /-- Every successor satisfies the operand. -/
  | ax (f : Formula)
  /-- Some path reaches the operand. -/
  | ef (f : Formula)
  /-- Every infinite path reaches the operand. -/
  | af (f : Formula)
  /-- Some infinite path stays in the operand. -/
  | eg (f : Formula)
  /-- Every path stays in the operand. -/
  | ag (f : Formula)
  /-- Some path stays in the first operand until it reaches the second. -/
  | eu (f g : Formula)
  /-- Every path stays in the first operand until it reaches the second. -/
  | au (f g : Formula)
  deriving DecidableEq, Repr, Inhabited

namespace Formula

/-- An implication is written with negation and disjunction. -/
def implies (f g : Formula) : Formula := .or (.not f) g

/-- The number of nodes. -/
def size : Formula → Nat
  | .top | .bot | .atom _ => 1
  | .not f | .ex f | .ax f | .ef f | .af f | .eg f | .ag f => 1 + f.size
  | .and f g | .or f g | .eu f g | .au f g => 1 + f.size + g.size

/-- The atoms from left to right, with repetitions, in front of a list. -/
def atomsBefore (rest : List String) : Formula → List String
  | .top | .bot => rest
  | .atom name => name :: rest
  | .not f | .ex f | .ax f | .ef f | .af f | .eg f | .ag f => f.atomsBefore rest
  | .and f g | .or f g | .eu f g | .au f g => f.atomsBefore (g.atomsBefore rest)

/-- The atoms in increasing order, each once. -/
def atoms (f : Formula) : List String := sortedTexts (f.atomsBefore [])

/-- The text of a formula. Conjunctions and disjunctions stand in parentheses. -/
def display : Formula → String
  | .top => "true"
  | .bot => "false"
  | .atom name => name
  | .not f => "!" ++ f.display
  | .and f g => "(" ++ f.display ++ " & " ++ g.display ++ ")"
  | .or f g => "(" ++ f.display ++ " | " ++ g.display ++ ")"
  | .ex f => "EX " ++ f.display
  | .ax f => "AX " ++ f.display
  | .ef f => "EF " ++ f.display
  | .af f => "AF " ++ f.display
  | .eg f => "EG " ++ f.display
  | .ag f => "AG " ++ f.display
  | .eu f g => "E[" ++ f.display ++ " U " ++ g.display ++ "]"
  | .au f g => "A[" ++ f.display ++ " U " ++ g.display ++ "]"

end Formula

end ActorLogic
