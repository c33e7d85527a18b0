import ActorLogic.Decimal.Scaled
import ActorLogic.Json.Basic
/-!
# Reading JSON text

`Json.readValue?` takes one value off the front of a text, `Json.read?` a whole text. Both answer
`none` where the text is no JSON. The depth of nesting is not bounded. A number with a fraction or
an exponent is read in two roundings, so it is not always the double nearest to the text.
-/

namespace ActorLogic.Json

/-- The four characters that may stand between the marks of a JSON text. -/
def isSpace (c : Char) : Bool := c == ' ' || c == '\n' || c == '\t' || c == '\r'

def skipSpace (cs : List Char) : List Char := cs.dropWhile isSpace

/-! ## Strings -/

/-- The value of a hexadecimal digit of either case. -/
def hexValue? (c : Char) : Option Nat :=
  if '0' ≤ c ∧ c ≤ '9' then some (c.toNat - '0'.toNat)
  else if 'a' ≤ c ∧ c ≤ 'f' then some (c.toNat - 'a'.toNat + 10)
  else if 'A' ≤ c ∧ c ≤ 'F' then some (c.toNat - 'A'.toNat + 10)
  else none

def hexUnit? (a b c d : Char) : Option Nat :=
  match hexValue? a, hexValue? b, hexValue? c, hexValue? d with
  | some a, some b, some c, some d => some (((a * 16 + b) * 16 + c) * 16 + d)
  | _, _, _, _ => none

/-- The character of an escape that is a backslash and one letter. -/
def escapedChar? (c : Char) : Option Char :=
  match c with
  | '"' => some '"'
  | '\\' => some '\\'
  | '/' => some '/'
  | 'b' => some '\x08'
  | 'f' => some '\x0c'
  | 'n' => some '\n'
  | 'r' => some '\r'
  | 't' => some '\t'
  | _ => none

/-- What follows an opening quote, up to the closing one: the code points, in reverse, and the rest
of the text. An escaped half of a surrogate pair is kept as a code point of its own. -/
def stringBody? : List Char → List Nat → Option (List Nat × List Char)
  | '"' :: rest, acc => some (acc, rest)
  | '\\' :: 'u' :: a :: b :: c :: d :: rest, acc =>
    match hexUnit? a b c d with
    | some n => stringBody? rest (n :: acc)
    | none => none
  | '\\' :: c :: rest, acc =>
    match escapedChar? c with
    | some e => stringBody? rest (e.toNat :: acc)
    | none => none
  | c :: rest, acc => if c.toNat < 0x20 then none else stringBody? rest (c.toNat :: acc)
  | [], _ => none

def isHighHalf (n : Nat) : Bool := 0xd800 ≤ n && n < 0xdc00

def isLowHalf (n : Nat) : Bool := 0xdc00 ≤ n && n < 0xe000

/-- The text that code points spell, if each high half stands before a low half and no low half
stands alone. -/
def spell? : List Nat → Option (List Char)
  | [] => some []
  | [n] => if isHighHalf n || isLowHalf n then none else some [Char.ofNat n]
  | n :: m :: rest =>
    if isHighHalf n then
      if isLowHalf m then
        (spell? rest).map (Char.ofNat (0x10000 + (n - 0xd800) * 0x400 + (m - 0xdc00)) :: ·)
      else none
    else if isLowHalf n then none
    else (spell? (m :: rest)).map (Char.ofNat n :: ·)

/-- The text after an opening quote, `none` inside if the string spells no text. -/
def readString? (cs : List Char) : Option (Option String × List Char) :=
  (stringBody? cs []).map fun (codes, rest) => ((spell? codes.reverse).map String.ofList, rest)

/-! ## Numbers -/

/-- The number that decimal digits write. -/
def ofDigits (ds : List Char) : Nat :=
  ds.foldl (fun n c => n * 10 + (c.toNat - '0'.toNat)) 0

/-- The digits at the front, which may not be missing, and what follows them. -/
def digits? (cs : List Char) : Option (List Char × List Char) :=
  match cs.span Char.isDigit with
  | ([], _) => none
  | (ds, rest) => some (ds, rest)

/-- The digits of a whole number: no zero stands before another digit. -/
def wholeDigits? (cs : List Char) : Option (List Char × List Char) :=
  match digits? cs with
  | some ('0' :: _ :: _, _) => none
  | found => found

/-- The digits of a fraction, none if there is no point at the front, and the text after them. -/
def fraction? : List Char → Option (List Char × List Char)
  | '.' :: rest => digits? rest
  | cs => some ([], cs)

/-- Whether a minus sign stands at the front, and the text after the sign, which may be a plus. -/
def exponentSign : List Char → Bool × List Char
  | '-' :: rest => (true, rest)
  | '+' :: rest => (false, rest)
  | cs => (false, cs)

/-- The exponent at the front, if one stands there, and the text after it. -/
def exponent? : List Char → Option (Option Int × List Char)
  | c :: rest =>
    if c == 'e' || c == 'E' then
      let (negative, unsigned) := exponentSign rest
      (digits? unsigned).map fun (ds, rest) =>
        (some (if negative then -Int.ofNat (ofDigits ds) else Int.ofNat (ofDigits ds)), rest)
    else some (none, c :: rest)
  | [] => some (none, [])

/-- A whole number that fits into 64 bits; a negative zero is none. -/
def wholeNumber (negative : Bool) (n : Nat) : Json :=
  if negative then
    if n = 0 ∨ 1 <<< 63 < n then .unreadable else .int (-n)
  else if n < 1 <<< 64 then .int n
  else .unreadable

/-- A number that is written with a fraction or an exponent. -/
def realNumber (negative : Bool) (digits : Nat) (scale : Int) : Json :=
  match Decimal.scaled? digits scale with
  | some x => .real (if negative then -x else x)
  | none => .unreadable

def readNumber? (cs : List Char) : Option (Json × List Char) := do
  let (negative, unsigned) := match cs with
    | '-' :: rest => (true, rest)
    | _ => (false, cs)
  let (whole, rest) ← wholeDigits? unsigned
  let (fraction, rest) ← fraction? rest
  let (exponent, rest) ← exponent? rest
  let number :=
    if fraction.isEmpty && exponent.isNone then wholeNumber negative (ofDigits whole)
    else
      realNumber negative (ofDigits (whole ++ fraction))
        (exponent.getD 0 - Int.ofNat fraction.length)
  pure (number, rest)

/-! ## Values -/

/-- An object; one of its names may spell no text, and then nobody can read it. -/
def ofFields (fields : List (Option String × Json)) : Json :=
  match fields.mapM fun (name, value) => name.map fun n => (n, value) with
  | some named => .object named
  | none => .unreadable

mutual
/-- One value. The first argument bounds the number of calls; twice the length of the text is
enough, since two calls in a row take a character. -/
def valueAt? : Nat → List Char → Option (Json × List Char)
  | 0, _ => none
  | fuel + 1, cs =>
    match skipSpace cs with
    | 'n' :: 'u' :: 'l' :: 'l' :: rest => some (.null, rest)
    | 't' :: 'r' :: 'u' :: 'e' :: rest => some (.bool true, rest)
    | 'f' :: 'a' :: 'l' :: 's' :: 'e' :: rest => some (.bool false, rest)
    | '"' :: rest =>
      (readString? rest).map fun (s, rest) => ((s.map Json.text).getD .unreadable, rest)
    | '[' :: rest =>
      match skipSpace rest with
      | ']' :: rest => some (.list [], rest)
      | rest => itemsAt? fuel rest []
    | '\x7b' :: rest =>
      match skipSpace rest with
      | '\x7d' :: rest => some (.object [], rest)
      | rest => fieldsAt? fuel rest []
    | cs => readNumber? cs
/-- The items of a list, with those before them in reverse, up to the closing bracket. -/
def itemsAt? : Nat → List Char → List Json → Option (Json × List Char)
  | 0, _, _ => none
  | fuel + 1, cs, acc =>
    match valueAt? fuel cs with
    | some (item, rest) =>
      match skipSpace rest with
      | ',' :: rest => itemsAt? fuel rest (item :: acc)
      | ']' :: rest => some (.list (item :: acc).reverse, rest)
      | _ => none
    | none => none
/-- The fields of an object, with those before them in reverse, up to the closing brace. -/
def fieldsAt? : Nat → List Char → List (Option String × Json) → Option (Json × List Char)
  | 0, _, _ => none
  | fuel + 1, cs, acc =>
    match skipSpace cs with
    | '"' :: rest =>
      match readString? rest with
      | some (name, rest) =>
        match skipSpace rest with
        | ':' :: rest =>
          match valueAt? fuel rest with
          | some (value, rest) =>
            match skipSpace rest with
            | ',' :: rest => fieldsAt? fuel rest ((name, value) :: acc)
            | '\x7d' :: rest => some (ofFields ((name, value) :: acc).reverse, rest)
            | _ => none
          | none => none
        | _ => none
      | none => none
    | _ => none
end

/-- The value at the front of a text, and what stands behind it. -/
def readValue? (s : String) : Option (Json × List Char) :=
  valueAt? (2 * s.length + 2) s.toList

/-- Nothing but blanks is left. -/
def atEnd (cs : List Char) : Bool := cs.all isSpace

/-- The value that a whole text holds. -/
def read? (s : String) : Option Json :=
  match readValue? s with
  | some (j, rest) => if atEnd rest then some j else none
  | none => none

end ActorLogic.Json
