import Mathlib.Algebra.GroupWithZero.Nat
import ActorLogic.Proofs.Ctl.RoundTrip
/-!
# Feeding back what was printed

A formula that was read from one text is printed as another. Whoever wrote the first may have left
out parentheses where operators bind or join by themselves, and the printed text has them all. So it
may be nested deeper than what was read: by two levels for each operator that joins, and by three for
an arrow, which also puts a negation in. That is all that may keep it from being read again.
-/

namespace ActorLogic

open Grammar Lexeme

variable {category : Category} {cs : List Char} {d n : Nat} {ts us : List Token} {f : Formula}

/-! ## Levels of what was read -/

/-- How many levels the parentheses of a printed operator may add to its operands. -/
def Token.addedLevels : Token → Nat
  | .amp | .pipe => 2
  | .arrow => 3
  | .word _ | .bang | .leftParen | .rightParen | .leftBracket | .rightBracket => 0

def addedLevels (ts : List Token) : Nat := (ts.map Token.addedLevels).sum

@[simp] theorem addedLevels_nil : addedLevels [] = 0 := rfl

@[simp] theorem addedLevels_cons (token : Token) :
    addedLevels (token :: ts) = token.addedLevels + addedLevels ts := List.sum_cons

@[simp] theorem addedLevels_append : addedLevels (ts ++ us) = addedLevels ts + addedLevels us := by
  rw [addedLevels, List.map_append, List.sum_append]
  rfl

theorem Formula.levels_of_prefixWords {name : String} {node : Formula → Formula}
    (h : (name, node) ∈ prefixWords) : (node f).levels = f.levels + 1 := by
  simp only [prefixWords, List.mem_cons, Prod.mk.injEq, List.not_mem_nil, or_false] at h
  rcases h with ⟨-, rfl⟩ | ⟨-, rfl⟩ | ⟨-, rfl⟩ | ⟨-, rfl⟩ | ⟨-, rfl⟩ | ⟨-, rfl⟩ <;> rfl

theorem Formula.levels_of_untilWords {g : Formula} {name : String}
    {node : Formula → Formula → Formula} (h : (name, node) ∈ untilWords) :
    (node f g).levels = max f.levels g.levels + 2 := by
  simp only [untilWords, List.mem_cons, Prod.mk.injEq, List.not_mem_nil, or_false] at h
  rcases h with ⟨-, rfl⟩ | ⟨-, rfl⟩ <;> rfl

/-- The levels that a phrase takes beside those of the simple formula that is printed for it. -/
def Grammar.Category.extra : Category → Nat
  | .formula => 1
  | .disjunction | .conjunction | .simple => 0

/-- Printing adds levels only where operators join without parentheses. -/
theorem Grammar.Derives.levels_le (h : Derives category d ts f) :
    f.levels + category.extra ≤ d + addedLevels ts := by
  induction h with
  | conjunction _ ih | simple _ ih => exact ih
  | plain _ ih | bang _ ih | parentheses _ ih =>
    simp only [Category.extra, Formula.levels, addedLevels_cons, addedLevels_append] at ih ⊢
    omega
  | arrow _ _ ihl ihr | bar _ _ ihl ihr | ampersand _ _ ihl ihr =>
    simp only [Category.extra, Formula.levels, addedLevels_append, addedLevels_cons,
      Token.addedLevels] at ihl ihr ⊢
    omega
  | operator hmem _ ih =>
    simp only [Category.extra, Formula.levels_of_prefixWords hmem, addedLevels_cons] at ih ⊢
    omega
  | «until» hmem _ _ ihl ihr =>
    simp only [Category.extra, Formula.levels_of_untilWords hmem, addedLevels_append,
      addedLevels_cons] at ihl ihr ⊢
    omega
  | top | bot | atom => exact Nat.le_refl 1

/-! ## Reading again -/

namespace Formula

/-- A readable formula is read back from its text if the levels allow it. -/
theorem Readable.parse_display_iff (h : f.Readable) :
    Formula.parse f.display = .ok f ↔ f.levels + 1 ≤ maxDepth := by
  obtain ⟨ls, htext, hderives⟩ := h.ofText_display
  rw [parse_of_ofText htext, ofLexemes_eq_ok]
  constructor
  · rintro ⟨d, hd, hagain⟩
    obtain ⟨-, rfl⟩ := hderives.unique hagain
    exact hd
  · exact fun hlevels => ⟨_, hlevels, hderives⟩

theorem Readable.parse_display_tooDeep (h : f.Readable) (hlevels : maxDepth < f.levels + 1) :
    ∃ offset, Formula.parse f.display = .error (.tooDeep offset) := by
  obtain ⟨ls, htext, hderives⟩ := h.ofText_display
  rw [parse_of_ofText htext]
  exact ofLexemes_tooDeep hderives hlevels

/-- What becomes of the text that is printed for a formula that was read. -/
structure Reprints (text : String) (f : Formula) : Prop where
  /-- The printed text spells the formula, nested no deeper than the text that was read and the
  levels that the operators of that may add. -/
  nesting : ∃ ls printed d, Lexeme.ofText text = .ok ls ∧ d ≤ 256 ∧
    Derives .formula d (tokens ls) f ∧ Lexeme.ofText f.display = .ok printed ∧
    Derives .formula (f.levels + 1) (tokens printed) f ∧
    f.levels + 1 ≤ d + addedLevels (tokens ls)
  /-- It is read as the formula exactly if it is not nested too deep, -/
  read : Formula.parse f.display = .ok f ↔ f.levels + 1 ≤ 256
  /-- and else it is refused for that. -/
  refused : 256 < f.levels + 1 → ∃ offset, Formula.parse f.display = .error (.tooDeep offset)

/-- If a text is read as a formula, then what is printed for the formula can be read as it again, as
far as the levels allow. -/
theorem reprints_of_parse {text : String} (h : Formula.parse text = .ok f) : Reprints text f := by
  obtain ⟨hreadable, ls, d, htext, hd, hderives⟩ := readable_of_parse h
  obtain ⟨printed, hprinted, hagain⟩ := hreadable.ofText_display
  exact
    { nesting := ⟨ls, printed, d, htext, hd, hderives, hprinted, hagain, hderives.levels_le⟩
      read := hreadable.parse_display_iff
      refused := hreadable.parse_display_tooDeep }

/-- An arrow adds three levels to three. -/
theorem reprints_of_parse_arrow :
    let f : Formula := .or (.not (.not (.atom "p"))) (.atom "q")
    let ls : List Lexeme := [⟨.bang, 0⟩, ⟨.word "p", 1⟩, ⟨.arrow, 3⟩, ⟨.word "q", 6⟩]
    Lexeme.ofText "!p -> q" = .ok ls ∧ addedLevels (tokens ls) = 3 ∧ f.levels + 1 = 6 ∧
      Formula.parse "!p -> q" = .ok f ∧ Reprints "!p -> q" f := by
  intro f ls
  have hls : Lexeme.ofText "!p -> q" = .ok ls := by
    refine ofText_eq_ok.2 (.mark rfl (@Renders.word 1 'p' [] _ _ rfl nofun rfl (.blank rfl ?_)))
    exact .arrow (.blank rfl (@Renders.word 6 'q' [] _ _ rfl nofun trivial .done))
  have hparse : Formula.parse "!p -> q" = .ok f := by
    rw [parse_of_ofText hls]
    rfl
  exact ⟨hls, rfl, rfl, hparse, reprints_of_parse hparse⟩

/-! ## Atoms in a row -/

/-- The same atom again and again, joined from the left. -/
def row : Nat → Formula
  | 0 => .atom "p"
  | n + 1 => .and (row n) (.atom "p")

/-- The text of a row without parentheses. -/
def rowText : Nat → String
  | 0 => "p"
  | n + 1 => rowText n ++ " & p"

def rowTokens : Nat → List Token
  | 0 => [.word "p"]
  | n + 1 => rowTokens n ++ [.amp, .word "p"]

/-- A row of any length takes two levels without parentheses. -/
theorem derives_row (n : Nat) : Derives .conjunction 1 (rowTokens n) (row n) := by
  have hatom : Derives .simple 1 [.word "p"] (.atom "p") := .atom (by decide)
  induction n with
  | zero => exact .simple hatom
  | succ n ih => exact .ampersand ih hatom

theorem spells_rowText (hrest : Spells cs ts) (hends : Ends cs) :
    Spells ((rowText n).toList ++ cs) (rowTokens n ++ ts) := by
  have hatom : isIdentifier "p" = true := by decide
  induction n generalizing cs ts with
  | zero => exact hrest.word hends hatom
  | succ n ih =>
    rw [rowText, rowTokens, String.toList_append, List.append_assoc, List.append_assoc]
    exact ih ((hrest.word hends hatom).space.mark (c := '&') rfl).space rfl

theorem parse_rowText (n : Nat) : Formula.parse (rowText n) = .ok (row n) := by
  obtain ⟨ls, hls, hts⟩ := spells_rowText (n := n) .nil trivial 0
  rw [List.append_nil] at hls hts
  rw [parse_of_ofText (ofText_eq_ok.2 hls)]
  refine ofLexemes_eq_ok.2 ⟨2, by decide, ?_⟩
  rw [hts]
  exact .plain (.conjunction (derives_row n))

theorem levels_row (n : Nat) : (row n).levels = 2 * n + 1 := by
  induction n with
  | zero => rfl
  | succ n ih =>
    rw [row, levels, ih, levels]
    omega

/-- A row is read again from what is printed for it only if it has no more than 128 atoms. -/
theorem parse_display_row (n : Nat) : Formula.parse (row n).display = .ok (row n) ↔ n ≤ 127 := by
  rw [(readable_of_parse (parse_rowText n)).1.parse_display_iff, levels_row]
  simp only [maxDepth]
  omega

/-- What is printed for 129 atoms in a row is nested too deep to be read again. -/
theorem not_parse_display_of_parse :
    Formula.parse (rowText 128) = .ok (row 128) ∧
      (∃ offset, Formula.parse (row 128).display = .error (.tooDeep offset)) ∧
      ¬ ∀ text f, Formula.parse text = .ok f → Formula.parse f.display = .ok f := by
  have hread := parse_rowText 128
  have hdeep : maxDepth < (row 128).levels + 1 := by rw [levels_row]; decide
  refine ⟨hread, (readable_of_parse hread).1.parse_display_tooDeep hdeep, fun h => ?_⟩
  exact absurd ((parse_display_row 128).1 (h _ _ hread)) (by decide)

end Formula

end ActorLogic
