import ActorLogic.Ctl.Formula.Basic
import ActorLogic.Text.Blank
import ActorLogic.Text.Quoted
/-!
# Tokens of formulas

A text is cut into words and marks, each with the offset of its first byte in UTF-8. Blanks separate
tokens and are skipped. Words are made of ASCII letters, digits, underscores and points, and start
with a letter or an underscore.
-/

namespace ActorLogic

inductive Token where
  | word (name : String)
  | bang
  | amp
  | pipe
  | arrow
  | leftParen
  | rightParen
  | leftBracket
  | rightBracket
  deriving DecidableEq, Repr

/-- How a token is named in an error. -/
def Token.describe : Token → String
  | .word name => "'" ++ name ++ "'"
  | .bang => "'!'"
  | .amp => "'&'"
  | .pipe => "'|'"
  | .arrow => "'->'"
  | .leftParen => "'('"
  | .rightParen => "')'"
  | .leftBracket => "'['"
  | .rightBracket => "']'"

/-- A token and where it starts. -/
structure Lexeme where
  token : Token
  offset : Nat
  deriving DecidableEq, Repr

/-! ## Errors -/

/-- What would have gone on with a formula. -/
inductive Expected where
  | formula
  | closingParen
  | closingBracket
  | untilWord
  | endOfInput
  deriving DecidableEq, Repr

def Expected.describe : Expected → String
  | .formula => "a formula"
  | .closingParen => "')'"
  | .closingBracket => "']'"
  | .untilWord => "'U'"
  | .endOfInput => "end of input"

/-- The number of levels that formulas may be nested. -/
def maxDepth : Nat := 256

/-- Why a text is no formula. Offsets count bytes. -/
inductive SyntaxError where
  | unexpectedChar (found : Char) (offset : Nat)
  | unexpectedToken (expected : Expected) (found : Token) (offset : Nat)
  | unexpectedEnd (expected : Expected)
  | tooDeep (offset : Nat)
  deriving DecidableEq, Repr

/-- The text of an error. -/
def SyntaxError.message : SyntaxError → String
  | .unexpectedChar c offset =>
    "Unexpected character " ++ quotedChar c ++ " at offset " ++ toString offset
  | .unexpectedToken expected found offset =>
    "Expected " ++ expected.describe ++ " at offset " ++ toString offset
      ++ ", found " ++ found.describe
  | .unexpectedEnd expected => "Unexpected end of input, expected " ++ expected.describe
  | .tooDeep offset =>
    "Formula nested deeper than " ++ toString maxDepth ++ " levels at offset " ++ toString offset

/-! ## Cutting a text into tokens -/

def isWordStart (c : Char) : Bool := c.isAlpha || c == '_'

def isWordPart (c : Char) : Bool := c.isAlphanum || c == '_' || c == '.'

/-- The mark that is this one character. -/
def mark? : Char → Option Token
  | '!' => some .bang
  | '&' => some .amp
  | '|' => some .pipe
  | '(' => some .leftParen
  | ')' => some .rightParen
  | '[' => some .leftBracket
  | ']' => some .rightBracket
  | _ => none

/-- The lexemes of a text that starts at `offset`, behind those found before, which stand in
reverse. A word takes as many characters as it can, all of them of one byte. -/
def Lexeme.scan (found : List Lexeme) (offset : Nat) : List Char → Except SyntaxError (List Lexeme)
  | [] => .ok found.reverse
  | c :: rest =>
    if isBlank c then scan found (offset + c.utf8Size) rest
    else if isWordStart c then
      let name := c :: rest.takeWhile isWordPart
      scan (⟨.word (String.ofList name), offset⟩ :: found) (offset + name.length)
        (rest.dropWhile isWordPart)
    else if c = '-' then
      match rest with
      | '>' :: rest => scan (⟨.arrow, offset⟩ :: found) (offset + 2) rest
      | _ => .error (.unexpectedChar '-' offset)
    else
      match mark? c with
      | some token => scan (⟨token, offset⟩ :: found) (offset + 1) rest
      | none => .error (.unexpectedChar c offset)
termination_by cs => cs.length
decreasing_by
  all_goals simp only [List.length_cons]
  all_goals try omega
  exact Nat.lt_succ_of_le (List.dropWhile_sublist _).length_le

/-- The lexemes of a whole text. -/
def Lexeme.ofText (s : String) : Except SyntaxError (List Lexeme) := scan [] 0 s.toList

end ActorLogic
