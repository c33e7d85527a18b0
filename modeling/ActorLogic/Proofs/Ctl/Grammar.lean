import ActorLogic.Ctl.Token
/-!
# The grammar of formulas

Which sequences of tokens spell which formulas, and how deep they are nested, without saying how a
formula is read. Bars and ampersands join from the left, arrows from the right, and an arrow is
written with negation and disjunction.
-/

namespace ActorLogic

namespace Grammar

/-- The kinds of phrases, loosest binding first. -/
inductive Category where
  | formula
  | disjunction
  | conjunction
  | simple
  deriving DecidableEq, Repr

/-! ## Words -/

/-- The words that stand in front of a simple formula, and what they make of it. -/
def prefixWords : List (String × (Formula → Formula)) :=
  [("EX", .ex), ("AX", .ax), ("EF", .ef), ("AF", .af), ("EG", .eg), ("AG", .ag)]

/-- The words that stand in front of a bracket, and what they make of the two formulas in it. They
are atoms elsewhere. -/
def untilWords : List (String × (Formula → Formula → Formula)) := [("E", .eu), ("A", .au)]

/-- The words that are no atoms. -/
def reservedWords : List String := ["true", "false", "EX", "AX", "EF", "AF", "EG", "AG"]

/-- Words that stand in front of a simple formula are no atoms. -/
theorem reserved_of_prefixWords {name : String} {node : Formula → Formula}
    (h : (name, node) ∈ prefixWords) : name ∈ reservedWords := by
  have hreserved : reservedWords = "true" :: "false" :: prefixWords.map Prod.fst := rfl
  rw [hreserved]
  exact List.mem_cons_of_mem _ (List.mem_cons_of_mem _ (List.mem_map_of_mem h))

/-! ## Derivations -/

/-- Tokens of a category that spell a formula. A formula and a simple formula each take one level of
nesting; the number counts the levels on the longest way down. -/
inductive Derives : Category → Nat → List Token → Formula → Prop where
  | plain {d : Nat} {ts : List Token} {f : Formula} :
      Derives .disjunction d ts f → Derives .formula (d + 1) ts f
  | arrow {d e : Nat} {ts us : List Token} {f g : Formula} :
      Derives .disjunction d ts f → Derives .formula e us g →
      Derives .formula (max d e + 1) (ts ++ .arrow :: us) (.or (.not f) g)
  | conjunction {d : Nat} {ts : List Token} {f : Formula} :
      Derives .conjunction d ts f → Derives .disjunction d ts f
  | bar {d e : Nat} {ts us : List Token} {f g : Formula} :
      Derives .disjunction d ts f → Derives .conjunction e us g →
      Derives .disjunction (max d e) (ts ++ .pipe :: us) (.or f g)
  | simple {d : Nat} {ts : List Token} {f : Formula} :
      Derives .simple d ts f → Derives .conjunction d ts f
  | ampersand {d e : Nat} {ts us : List Token} {f g : Formula} :
      Derives .conjunction d ts f → Derives .simple e us g →
      Derives .conjunction (max d e) (ts ++ .amp :: us) (.and f g)
  | bang {d : Nat} {ts : List Token} {f : Formula} :
      Derives .simple d ts f → Derives .simple (d + 1) (.bang :: ts) (.not f)
  | operator {d : Nat} {ts : List Token} {f : Formula} {name : String} {node : Formula → Formula} :
      (name, node) ∈ prefixWords → Derives .simple d ts f →
      Derives .simple (d + 1) (.word name :: ts) (node f)
  | «until» {d e : Nat} {ts us : List Token} {f g : Formula} {name : String}
      {node : Formula → Formula → Formula} :
      (name, node) ∈ untilWords → Derives .formula d ts f → Derives .formula e us g →
      Derives .simple (max d e + 1)
        (.word name :: .leftBracket :: (ts ++ .word "U" :: (us ++ [.rightBracket]))) (node f g)
  | parentheses {d : Nat} {ts : List Token} {f : Formula} :
      Derives .formula d ts f →
      Derives .simple (d + 1) (.leftParen :: (ts ++ [.rightParen])) f
  | top : Derives .simple 1 [.word "true"] .top
  | bot : Derives .simple 1 [.word "false"] .bot
  | atom {name : String} : name ∉ reservedWords → Derives .simple 1 [.word name] (.atom name)

end Grammar

/-! ## Tokens without places -/

namespace Lexeme

/-- The tokens of lexemes, without their places. -/
def tokens (ls : List Lexeme) : List Token := ls.map (·.token)

@[simp] theorem tokens_nil : tokens [] = [] := rfl

@[simp] theorem tokens_cons (l : Lexeme) (ls : List Lexeme) :
    tokens (l :: ls) = l.token :: tokens ls := rfl

@[simp] theorem tokens_append (ls more : List Lexeme) :
    tokens (ls ++ more) = tokens ls ++ tokens more := List.map_append

end Lexeme

end ActorLogic
