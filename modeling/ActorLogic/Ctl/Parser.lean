import ActorLogic.Ctl.Token
/-!
# Reading formulas

The grammar, loosest binding first:

* a formula is a disjunction, or a disjunction, an arrow and a formula;
* a disjunction joins conjunctions by bars, a conjunction joins simple formulas by ampersands, both
  from the left;
* a simple formula is a negation, one of the words EX, AX, EF, AF, EG, AG before a simple formula,
  an until formula in brackets behind E or A, a formula in parentheses, a constant, or an atom.

A formula and a simple formula each take one level of nesting. The readers below are given the
number of levels that are left, and recurse on it.
-/

namespace ActorLogic

/-- A reader takes a formula off the front of a list of lexemes and gives back the rest. -/
abbrev FormulaReader := List Lexeme → Except SyntaxError (Formula × List Lexeme)

namespace FormulaReader

/-- The lexemes behind a token that has to come next. -/
def expect (token : Token) (expected : Expected) : List Lexeme → Except SyntaxError (List Lexeme)
  | [] => .error (.unexpectedEnd expected)
  | l :: rest =>
    if l.token = token then .ok rest else .error (.unexpectedToken expected l.token l.offset)

/-- Further operands, each behind the separator, joined to the left operand one by one. The first
argument bounds their number; the number of lexemes is enough. -/
def joinMore (separator : Token) (join : Formula → Formula → Formula) (operand : FormulaReader) :
    Nat → Formula → List Lexeme → Except SyntaxError (Formula × List Lexeme)
  | 0, left, ls => .ok (left, ls)
  | _ + 1, left, [] => .ok (left, [])
  | fuel + 1, left, l :: rest =>
    if l.token = separator then
      match operand rest with
      | .ok (right, rest) => joinMore separator join operand fuel (join left right) rest
      | .error e => .error e
    else .ok (left, l :: rest)

/-- Operands with the separator between them. -/
def joined (separator : Token) (join : Formula → Formula → Formula) (operand : FormulaReader) :
    FormulaReader := fun ls =>
  match operand ls with
  | .ok (first, rest) => joinMore separator join operand rest.length first rest
  | .error e => .error e

def conjunction (simple : FormulaReader) : FormulaReader := joined .amp .and simple

def disjunction (simple : FormulaReader) : FormulaReader := joined .pipe .or (conjunction simple)

/-- A disjunction, and a formula behind an arrow if one comes next. -/
def implication (simple formula : FormulaReader) : FormulaReader := fun ls =>
  match disjunction simple ls with
  | .ok (left, ⟨.arrow, _⟩ :: rest) =>
    match formula rest with
    | .ok (right, rest) => .ok (.implies left right, rest)
    | .error e => .error e
  | found => found

/-- The operator that a word stands for in front of a simple formula. -/
def operator? : String → Option (Formula → Formula)
  | "EX" => some .ex
  | "AX" => some .ax
  | "EF" => some .ef
  | "AF" => some .af
  | "EG" => some .eg
  | "AG" => some .ag
  | _ => none

/-- The until operator that a word stands for in front of a bracket. -/
def untilOperator? : String → Option (Formula → Formula → Formula)
  | "E" => some .eu
  | "A" => some .au
  | _ => none

/-- A word that stands alone: a constant or an atom. -/
def ofWord : String → Formula
  | "true" => .top
  | "false" => .bot
  | name => .atom name

/-- What follows the opening bracket of an until formula. -/
def untilBody (join : Formula → Formula → Formula) (formula : FormulaReader) : FormulaReader :=
  fun ls => do
    let (hold, ls) ← formula ls
    let ls ← expect (.word "U") .untilWord ls
    let (goal, ls) ← formula ls
    let ls ← expect .rightBracket .closingBracket ls
    pure (join hold goal, ls)

/-- What follows a word. -/
def afterWord (simple formula : FormulaReader) (name : String) : FormulaReader := fun ls =>
  match operator? name with
  | some node => (simple ls).map fun (f, rest) => (node f, rest)
  | none =>
    match untilOperator? name, ls with
    | some join, ⟨.leftBracket, _⟩ :: rest => untilBody join formula rest
    | _, _ => .ok (ofWord name, ls)

/-- The first lexeme decides what a simple formula is. -/
def primary (simple formula : FormulaReader) : FormulaReader
  | [] => .error (.unexpectedEnd .formula)
  | ⟨.bang, _⟩ :: rest => (simple rest).map fun (f, rest) => (.not f, rest)
  | ⟨.leftParen, _⟩ :: rest => do
    let (f, rest) ← formula rest
    let rest ← expect .rightParen .closingParen rest
    pure (f, rest)
  | ⟨.word name, _⟩ :: rest => afterWord simple formula name rest
  | ⟨token, offset⟩ :: _ => .error (.unexpectedToken .formula token offset)

/-- No level is left. The error names the next lexeme, or the end of the text. -/
def refuse (textEnd : Nat) (ls : List Lexeme) : Except SyntaxError (Formula × List Lexeme) :=
  .error (.tooDeep (match ls with | l :: _ => l.offset | [] => textEnd))

mutual
/-- A simple formula with `room` levels left. -/
def simpleAt (textEnd : Nat) : Nat → List Lexeme → Except SyntaxError (Formula × List Lexeme)
  | 0, ls => refuse textEnd ls
  | room + 1, ls => primary (simpleAt textEnd room) (formulaAt textEnd room) ls
/-- A formula with `room` levels left. -/
def formulaAt (textEnd : Nat) : Nat → List Lexeme → Except SyntaxError (Formula × List Lexeme)
  | 0, ls => refuse textEnd ls
  | room + 1, ls => implication (simpleAt textEnd room) (formulaAt textEnd room) ls
end

end FormulaReader

/-- The formula that a list of lexemes spells, for a text of `textEnd` bytes. -/
def Formula.ofLexemes (textEnd : Nat) (ls : List Lexeme) : Except SyntaxError Formula :=
  match FormulaReader.formulaAt textEnd maxDepth ls with
  | .ok (f, []) => .ok f
  | .ok (_, l :: _) => .error (.unexpectedToken .endOfInput l.token l.offset)
  | .error e => .error e

/-- The formula that a text spells. -/
def Formula.parse (s : String) : Except SyntaxError Formula :=
  match Lexeme.ofText s with
  | .ok ls => Formula.ofLexemes s.utf8ByteSize ls
  | .error e => .error e

end ActorLogic
