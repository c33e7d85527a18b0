/-!
# JSON values

The values that descriptions, messages and reports are written in. An object keeps its fields in
written order, and a name may occur twice: it is the reader of a record that objects to that.
-/

namespace ActorLogic

/-- A JSON value. `unreadable` stands for a well-formed value that no reader of this library takes:
a number too long or too great to be an `int` or a `real`, or a string whose escapes spell no text.
It can be skipped, and only skipped. -/
inductive Json where
  | null
  | bool (b : Bool)
  | int (n : Int)
  | real (x : Float)
  | text (s : String)
  | list (items : List Json)
  | object (fields : List (String × Json))
  | unreadable
  deriving Inhabited

namespace Json

/-! ## Leaves -/

def asBool? : Json → Option Bool
  | .bool b => some b
  | _ => none

def asText? : Json → Option String
  | .text s => some s
  | _ => none

def asList? : Json → Option (List Json)
  | .list items => some items
  | _ => none

/-- A natural number below `2 ^ bits`. -/
def asNat? (bits : Nat) : Json → Option Nat
  | .int n => if 0 ≤ n ∧ n.toNat < 1 <<< bits then some n.toNat else none
  | _ => none

/-- An unsigned word of 64 bits. -/
def asWord? (j : Json) : Option Nat := j.asNat? 64

/-- A signed word of 64 bits. -/
def asInt? : Json → Option Int
  | .int n => if n.toNat < 1 <<< 63 ∧ (-n).toNat ≤ 1 <<< 63 then some n else none
  | _ => none

/-- A list whose items are all read by `read`. -/
def asListOf? {α : Type} (read : Json → Option α) (j : Json) : Option (List α) :=
  j.asList?.bind fun items => items.mapM read

/-! ## Records

A record is an object with the named fields, other names being skipped, or the list of the values
of its first fields. -/

/-- The value of a field that stands at most once. -/
def single? (fields : List (String × Json)) (name : String) : Option (Option Json) :=
  match fields.filter fun f => f.1 == name with
  | [] => some none
  | [f] => some (some f.2)
  | _ => none

/-- The values of the fields `names`, in this order, with `none` for an absent one. The list form
holds at least `least` values, and no more than there are names. -/
def record? (least : Nat) (names : List String) : Json → Option (List (Option Json))
  | .object fields => names.mapM (single? fields)
  | .list items =>
    if least ≤ items.length ∧ items.length ≤ names.length then
      some (items.map some ++ List.replicate (names.length - items.length) none)
    else none
  | _ => none

/-- The last field of that name in an object. -/
def get? (name : String) : Json → Option Json
  | .object fields => (fields.reverse.find? fun f => f.1 == name).map (·.2)
  | _ => none

/-- A field that has a default. -/
def fieldOr {α : Type} (default : α) (read : Json → Option α) : Option Json → Option α
  | none => some default
  | some j => read j

/-- A field that may be absent or `null`. -/
def optional? {α : Type} (read : Json → Option α) : Option Json → Option (Option α)
  | none => some none
  | some .null => some none
  | some j => (read j).map some

/-- A list that may be absent. -/
def listOr? {α : Type} (read : Json → Option α) (j : Option Json) : Option (List α) :=
  fieldOr [] (asListOf? read) j

/-! ## Alternatives

One of several named cases: a bare name, or an object whose only field names the case and holds its
content. -/

/-- The name of the case, and its content if one is written. -/
def case? : Json → Option (String × Option Json)
  | .text s => some (s, none)
  | .object [(name, content)] => some (name, some content)
  | _ => none

/-- A case without content may also be written with the content `null`. -/
def isBare : Option Json → Bool
  | none => true
  | some .null => true
  | _ => false

end Json

end ActorLogic
