import ActorLogic.Proofs.Ctl.RoundTrip
/-!
# Beginnings of formulas

Tokens begin a phrase if more tokens make them one. A few fillers are enough for that: an atom where
an operand is missing, and what closes the parentheses and brackets that are open. A beginning of a
part is a beginning of the whole, as long as the fillers do not nest deeper than the whole may be.

Every list of tokens whose words are identifiers has a text, with a blank behind each token. So the
tokens of texts that are read as formulas are those that the grammar derives within the levels.
-/

namespace ActorLogic

open Grammar Lexeme

variable {d e room : Nat} {cs : List Char} {token : Token} {ts us : List Token}
  {category one joinedAs : Category} {name : String} {f g : Formula}

/-! ## Texts of tokens -/

/-- A text for tokens, with a blank behind each. -/
def Token.spaced : List Token → List Char
  | [] => []
  | t :: ts => t.spelling.toList ++ ' ' :: Token.spaced ts

theorem Token.spells_spaced (h : ∀ name, .word name ∈ ts → isIdentifier name = true) :
    Spells (Token.spaced ts) ts := by
  induction ts with
  | nil => exact .nil
  | cons t ts ih =>
    have hrest := (ih fun name hname => h name (List.mem_cons_of_mem t hname)).space
    have htoken : t.WellFormed := by
      cases t with
      | word name => exact h name List.mem_cons_self
      | _ => trivial
    exact hrest.cons htoken fun _ => rfl

/-! ## Accepted texts -/

/-- Some text that is read as a formula is cut into these tokens. -/
def Formula.Accepted (ts : List Token) : Prop :=
  ∃ text ls f, Lexeme.ofText text = .ok ls ∧ tokens ls = ts ∧ Formula.parse text = .ok f

/-- The words are identifiers, and the grammar derives the tokens within the levels. -/
theorem Formula.accepted_iff :
    Formula.Accepted ts ↔
      (∀ name, .word name ∈ ts → isIdentifier name = true) ∧
        ∃ d f, d ≤ maxDepth ∧ Derives .formula d ts f := by
  constructor
  · rintro ⟨text, ls, f, htext, rfl, hparse⟩
    rw [parse_of_ofText htext] at hparse
    obtain ⟨d, hd, hderives⟩ := ofLexemes_eq_ok.1 hparse
    exact ⟨fun name => (ofText_eq_ok.1 htext).isIdentifier, d, f, hd, hderives⟩
  · rintro ⟨hwords, d, f, hd, hderives⟩
    obtain ⟨ls, hls, rfl⟩ := Token.spells_spaced hwords 0
    rw [← String.toList_ofList (l := Token.spaced (tokens ls)), ← ofText_eq_ok] at hls
    refine ⟨_, ls, f, hls, rfl, ?_⟩
    rw [parse_of_ofText hls]
    exact ofLexemes_eq_ok.2 ⟨d, hd, hderives⟩

/-! ## Levels -/

namespace Grammar

theorem Derives.one_le (h : Derives category d ts f) : 1 ≤ d := by
  induction h with
  | plain | arrow | bang | operator | «until» | parentheses => exact Nat.succ_le_succ (Nat.zero_le _)
  | conjunction _ ih | simple _ ih => exact ih
  | bar _ _ ih _ | ampersand _ _ ih _ => exact ih.trans (Nat.le_max_left _ _)
  | top | bot | atom => exact Nat.le_refl 1

/-- A formula takes a level, and the simple formula that it starts with takes another. -/
theorem Derives.two_le (h : Derives .formula d ts f) : 2 ≤ d := by
  cases h with
  | plain h => exact Nat.succ_le_succ h.one_le
  | arrow h _ => exact Nat.succ_le_succ (h.one_le.trans (Nat.le_max_left _ _))

/-! ## Beginnings -/

/-- The tokens that may have to be filled in. -/
def fillers : List Token := [.word "a", .word "U", .rightParen, .rightBracket]

/-- With some fillers behind them, the tokens are a phrase of the category that is not too deep. -/
def Begins (category : Category) (room : Nat) (ts : List Token) : Prop :=
  ∃ more d f, more ⊆ fillers ∧ d ≤ room ∧ Derives category d (ts ++ more) f

theorem Derives.begins (h : Derives category d ts f) (hd : d ≤ room) : Begins category room ts :=
  ⟨[], d, f, List.nil_subset _, hd, by rwa [List.append_nil]⟩

theorem begins_simple_nil : Begins .simple (room + 1) [] :=
  ⟨[.word "a"], 1, .atom "a", by simp [fillers], Nat.succ_le_succ (Nat.zero_le room),
    .atom (by decide)⟩

namespace Begins

theorem bang (h : Begins .simple room ts) : Begins .simple (room + 1) (.bang :: ts) := by
  obtain ⟨more, d, f, hmore, hd, h⟩ := h
  exact ⟨more, d + 1, _, hmore, Nat.succ_le_succ hd, .bang h⟩

theorem operator {node : Formula → Formula} (hmem : (name, node) ∈ prefixWords)
    (h : Begins .simple room ts) : Begins .simple (room + 1) (.word name :: ts) := by
  obtain ⟨more, d, f, hmore, hd, h⟩ := h
  exact ⟨more, d + 1, _, hmore, Nat.succ_le_succ hd, .operator hmem h⟩

theorem parentheses (h : Begins .formula room ts) : Begins .simple (room + 1) (.leftParen :: ts) := by
  obtain ⟨more, d, f, hmore, hd, h⟩ := h
  refine ⟨more ++ [.rightParen], d + 1, f, ?_, Nat.succ_le_succ hd, ?_⟩
  · exact List.append_subset.2 ⟨hmore, by simp [fillers]⟩
  · simpa using Derives.parentheses h

/-- The first formula in the brackets shows that there is room for the second. -/
theorem untilHold {node : Formula → Formula → Formula} (hmem : (name, node) ∈ untilWords)
    (h : Begins .formula room ts) :
    Begins .simple (room + 1) (.word name :: .leftBracket :: ts) := by
  obtain ⟨more, d, f, hmore, hd, h⟩ := h
  have hatom : Derives .formula 2 [.word "a"] (.atom "a") :=
    Formula.derives_alone (.atom (by decide))
  refine ⟨more ++ [.word "U", .word "a", .rightBracket], max d 2 + 1, node f (.atom "a"), ?_, ?_, ?_⟩
  · exact List.append_subset.2 ⟨hmore, by simp [fillers]⟩
  · exact Nat.succ_le_succ (Nat.max_le.2 ⟨hd, h.two_le.trans hd⟩)
  · simpa using Derives.until hmem h hatom

theorem untilGoal {node : Formula → Formula → Formula} (hmem : (name, node) ∈ untilWords)
    (hhold : Derives .formula d ts f) (hd : d ≤ room) (h : Begins .formula room us) :
    Begins .simple (room + 1) (.word name :: .leftBracket :: (ts ++ .word "U" :: us)) := by
  obtain ⟨more, e, g, hmore, he, h⟩ := h
  refine ⟨more ++ [.rightBracket], max d e + 1, node f g, ?_, ?_, ?_⟩
  · exact List.append_subset.2 ⟨hmore, by simp [fillers]⟩
  · exact Nat.succ_le_succ (Nat.max_le.2 ⟨hd, he⟩)
  · simpa using Derives.until hmem hhold h

/-- The first operand of a joined phrase. -/
theorem first (hone : ∀ {d ts f}, Derives one d ts f → Derives joinedAs d ts f)
    (h : Begins one room ts) : Begins joinedAs room ts := by
  obtain ⟨more, d, f, hmore, hd, h⟩ := h
  exact ⟨more, d, f, hmore, hd, hone h⟩

/-- One more operand of a joined phrase. -/
theorem joined {join : Formula → Formula → Formula}
    (hmore : ∀ {d e ts us f g}, Derives joinedAs d ts f → Derives one e us g →
      Derives joinedAs (max d e) (ts ++ token :: us) (join f g))
    (hleft : Derives joinedAs d ts f) (hd : d ≤ room) (h : Begins one room us) :
    Begins joinedAs room (ts ++ token :: us) := by
  obtain ⟨more, e, g, hfill, he, h⟩ := h
  refine ⟨more, max d e, join f g, hfill, Nat.max_le.2 ⟨hd, he⟩, ?_⟩
  simpa using hmore hleft h

theorem plain (h : Begins .disjunction room ts) : Begins .formula (room + 1) ts := by
  obtain ⟨more, d, f, hmore, hd, h⟩ := h
  exact ⟨more, d + 1, f, hmore, Nat.succ_le_succ hd, .plain h⟩

theorem arrow (hleft : Derives .disjunction d ts f) (hd : d ≤ room) (h : Begins .formula room us) :
    Begins .formula (room + 1) (ts ++ .arrow :: us) := by
  obtain ⟨more, e, g, hmore, he, h⟩ := h
  refine ⟨more, max d e + 1, .or (.not f) g, hmore, Nat.succ_le_succ (Nat.max_le.2 ⟨hd, he⟩), ?_⟩
  simpa using Derives.arrow hleft h

end Begins

end Grammar

/-- What begins a formula that is not too deep begins the tokens of an accepted text, if its words
are identifiers. -/
theorem Grammar.Begins.accepted (h : Begins .formula maxDepth ts)
    (hwords : ∀ name, .word name ∈ ts → isIdentifier name = true) :
    ∃ more, Formula.Accepted (ts ++ more) := by
  obtain ⟨more, d, f, hmore, hd, h⟩ := h
  refine ⟨more, Formula.accepted_iff.2 ⟨fun name hname => ?_, d, f, hd, h⟩⟩
  rcases List.mem_append.1 hname with hin | hin
  · exact hwords name hin
  · have hfill := hmore hin
    simp only [fillers, List.mem_cons, Token.word.injEq, reduceCtorEq, or_false,
      List.not_mem_nil] at hfill
    rcases hfill with rfl | rfl <;> decide

end ActorLogic
