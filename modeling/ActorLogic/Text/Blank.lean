/-!
# Blank characters

The characters that may stand between two words: those with the Unicode property White_Space.
-/

namespace ActorLogic

/-- The code points with the property White_Space. -/
def blankCodes : List Nat :=
  [0x09, 0x0a, 0x0b, 0x0c, 0x0d, 0x20, 0x85, 0xa0, 0x1680,
   0x2000, 0x2001, 0x2002, 0x2003, 0x2004, 0x2005, 0x2006, 0x2007, 0x2008, 0x2009, 0x200a,
   0x2028, 0x2029, 0x202f, 0x205f, 0x3000]

/-- The character separates words and means nothing itself. -/
def isBlank (c : Char) : Bool := blankCodes.contains c.toNat

end ActorLogic
