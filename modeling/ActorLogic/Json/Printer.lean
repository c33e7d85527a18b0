import ActorLogic.Json.Basic
import ActorLogic.Decimal.Shortest
/-!
# Writing JSON text

`Json.compact` writes a value without blanks, `Json.pretty` over several lines with an indent of
two. In strings the quote, the backslash and the characters below the blank are escaped, and nothing
else is. Both put one piece behind the other into a single text.
-/

namespace ActorLogic.Json

/-- A hexadecimal digit, lower case. -/
def hexDigit (n : Nat) : Char := (Nat.toDigits 16 n).headD '0'

/-- One character of a string. -/
def escape (c : Char) : List Char :=
  if c = '"' then ['\\', '"']
  else if c = '\\' then ['\\', '\\']
  else if c = '\x08' then ['\\', 'b']
  else if c = '\x0c' then ['\\', 'f']
  else if c = '\n' then ['\\', 'n']
  else if c = '\r' then ['\\', 'r']
  else if c = '\t' then ['\\', 't']
  else if c.toNat < 0x20 then
    ['\\', 'u', '0', '0', hexDigit (c.toNat / 16), hexDigit (c.toNat % 16)]
  else [c]

/-- A string between quotes. -/
def quote (s : String) : String := String.ofList ('"' :: s.toList.flatMap escape ++ ['"'])

/-- A value without inner values; the others are written by their callers. -/
def leaf : Json → String
  | .null => "null"
  | .bool true => "true"
  | .bool false => "false"
  | .int n => toString n
  | .real x => Decimal.shortest x
  | .text s => quote s
  | _ => "null"

/-! ## Without blanks -/

mutual
/-- Put a value behind a text. -/
def putValue (out : String) : Json → String
  | .list [] => out ++ "[]"
  | .list (item :: items) => putItems (putValue (out ++ "[") item) items
  | .object [] => out ++ "\x7b\x7d"
  | .object ((name, value) :: fields) =>
    putFields (putValue (out ++ "\x7b" ++ quote name ++ ":") value) fields
  | j => out ++ leaf j
/-- Put the items after the first and the closing bracket behind a text. -/
def putItems (out : String) : List Json → String
  | [] => out ++ "]"
  | item :: items => putItems (putValue (out ++ ",") item) items
/-- Put the fields after the first and the closing brace behind a text. -/
def putFields (out : String) : List (String × Json) → String
  | [] => out ++ "\x7d"
  | (name, value) :: fields =>
    putFields (putValue (out ++ "," ++ quote name ++ ":") value) fields
end

/-- The text of a value without blanks. -/
def compact (j : Json) : String := putValue "" j

/-! ## Over several lines -/

/-- A line break and the indent of a line at depth `n`. -/
def newline (n : Nat) : String := "\n".pushn ' ' (2 * n)

mutual
/-- Put a value that starts at depth `n` behind a text, one inner value to a line. -/
def layValue (n : Nat) (out : String) : Json → String
  | .list [] => out ++ "[]"
  | .list (item :: items) =>
    layItems n (layValue (n + 1) (out ++ "[" ++ newline (n + 1)) item) items
  | .object [] => out ++ "\x7b\x7d"
  | .object ((name, value) :: fields) =>
    layFields n
      (layValue (n + 1) (out ++ "\x7b" ++ newline (n + 1) ++ quote name ++ ": ") value) fields
  | j => out ++ leaf j
/-- Put the items after the first and the closing bracket, at depth `n`, behind a text. -/
def layItems (n : Nat) (out : String) : List Json → String
  | [] => out ++ newline n ++ "]"
  | item :: items => layItems n (layValue (n + 1) (out ++ "," ++ newline (n + 1)) item) items
/-- Put the fields after the first and the closing brace, at depth `n`, behind a text. -/
def layFields (n : Nat) (out : String) : List (String × Json) → String
  | [] => out ++ newline n ++ "\x7d"
  | (name, value) :: fields =>
    layFields n
      (layValue (n + 1) (out ++ "," ++ newline (n + 1) ++ quote name ++ ": ") value) fields
end

/-- The text of a value over several lines. -/
def pretty (j : Json) : String := layValue 0 "" j

end ActorLogic.Json
