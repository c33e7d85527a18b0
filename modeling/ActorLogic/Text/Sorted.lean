/-!
# Sorted lists of texts

Labels and atoms are kept as lists in increasing order without repetition. Texts are ordered by code
points, which is also the order of their UTF-8 bytes.
-/

namespace ActorLogic

/-- Put a text at its place, unless it is there already. -/
def insertSorted (s : String) : List String → List String
  | [] => [s]
  | t :: rest =>
    if s < t then s :: t :: rest
    else if s = t then t :: rest
    else t :: insertSorted s rest

/-- The texts of a list in increasing order, each once. -/
def sortedTexts (l : List String) : List String := l.foldr insertSorted []

end ActorLogic
