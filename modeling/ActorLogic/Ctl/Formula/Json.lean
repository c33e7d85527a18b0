import ActorLogic.Ctl.Formula.Basic
import ActorLogic.Json.Basic
/-!
# Formulas as JSON trees

A constant is its name, and every other node an object whose only field is named for the node and
holds its operand, or the list of its two operands.
-/

namespace ActorLogic.Formula

def toJson : Formula → Json
  | .top => .text "True"
  | .bot => .text "False"
  | .atom name => .object [("Atom", .text name)]
  | .not f => .object [("Not", f.toJson)]
  | .and f g => .object [("And", .list [f.toJson, g.toJson])]
  | .or f g => .object [("Or", .list [f.toJson, g.toJson])]
  | .ex f => .object [("Ex", f.toJson)]
  | .ax f => .object [("Ax", f.toJson)]
  | .ef f => .object [("Ef", f.toJson)]
  | .af f => .object [("Af", f.toJson)]
  | .eg f => .object [("Eg", f.toJson)]
  | .ag f => .object [("Ag", f.toJson)]
  | .eu f g => .object [("Eu", .list [f.toJson, g.toJson])]
  | .au f g => .object [("Au", .list [f.toJson, g.toJson])]

/-- The constant of that name. -/
def constant? : String → Option Formula
  | "True" => some .top
  | "False" => some .bot
  | _ => none

/-- The node of that name with one operand. -/
def unary? : String → Option (Formula → Formula)
  | "Not" => some .not
  | "Ex" => some .ex
  | "Ax" => some .ax
  | "Ef" => some .ef
  | "Af" => some .af
  | "Eg" => some .eg
  | "Ag" => some .ag
  | _ => none

/-- The node of that name with two operands. -/
def binary? : String → Option (Formula → Formula → Formula)
  | "And" => some .and
  | "Or" => some .or
  | "Eu" => some .eu
  | "Au" => some .au
  | _ => none

/-- The formula that a tree spells. A constant may also be written as an object with the content
`null`. -/
def ofJson? : Json → Option Formula
  | .text name => constant? name
  | .object [("Atom", .text name)] => some (.atom name)
  | .object [(name, .null)] => constant? name
  | .object [(name, .list [a, b])] =>
    match binary? name, ofJson? a, ofJson? b with
    | some node, some f, some g => some (node f g)
    | _, _, _ => none
  | .object [(name, a)] =>
    match unary? name, ofJson? a with
    | some node, some f => some (node f)
    | _, _ => none
  | _ => none

end ActorLogic.Formula
