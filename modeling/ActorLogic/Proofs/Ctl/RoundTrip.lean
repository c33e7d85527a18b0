import ActorLogic.Proofs.Ctl.Atoms
import ActorLogic.Proofs.Ctl.Parsing
import ActorLogic.Proofs.Ctl.Rendering
/-!
# Reading what was written

The text of a formula is read back as that formula exactly if its atoms are identifiers that stand
for nothing else, and it is not nested too deep. Other formulas have texts too, but no text is read
as one of them.
-/

namespace ActorLogic

open Grammar Lexeme

variable {o : Nat} {c : Char} {cs : List Char} {token : Token} {ts : List Token} {ls : List Lexeme}
  {name : String} {f g : Formula}

/-! ## Identifiers -/

/-- An ASCII letter or an underscore, and then any number of ASCII letters, digits, underscores and
points. -/
def isIdentifier (name : String) : Bool :=
  match name.toList with
  | [] => false
  | c :: rest =>
    (c.isAlpha || c == '_') && rest.all fun x => x.isAlphanum || x == '_' || x == '.'

/-- Identifiers are the words that a text can be cut into. -/
theorem isIdentifier_iff :
    isIdentifier name = true ↔
      ∃ c rest, name.toList = c :: rest ∧ isWordStart c = true ∧ ∀ x ∈ rest, isWordPart x = true := by
  unfold isIdentifier
  cases name.toList with
  | nil => simp
  | cons c rest =>
    simp only [Bool.and_eq_true, List.all_eq_true]
    constructor
    · rintro ⟨hc, hrest⟩
      exact ⟨c, rest, rfl, hc, hrest⟩
    · rintro ⟨_, _, ⟨rfl, rfl⟩, hc, hrest⟩
      exact ⟨hc, hrest⟩

/-- Every word of a rendering is an identifier. -/
theorem Lexeme.Renders.isIdentifier (h : Renders o cs ls) (hword : .word name ∈ tokens ls) :
    isIdentifier name = true := by
  induction h with
  | done => simp at hword
  | blank _ _ ih => exact ih hword
  | @word o c rest cs ls hc hrest _ _ ih =>
    rcases List.mem_cons.1 hword with heq | hmem
    · cases heq
      exact isIdentifier_iff.2 ⟨c, rest, String.toList_ofList, hc, hrest⟩
    · exact ih hmem
  | arrow _ ih => exact ih (by simpa using hword)
  | @mark o c token cs ls hc _ ih =>
    rcases List.mem_cons.1 hword with heq | hmem
    · cases heq
      unfold mark? at hc
      split at hc <;> cases hc
    · exact ih hmem

theorem Formula.atoms_of_prefixWords {node : Formula → Formula} (h : (name, node) ∈ prefixWords) :
    (node f).atoms = f.atoms := by
  simp only [prefixWords, List.mem_cons, Prod.mk.injEq, List.not_mem_nil, or_false] at h
  rcases h with ⟨-, rfl⟩ | ⟨-, rfl⟩ | ⟨-, rfl⟩ | ⟨-, rfl⟩ | ⟨-, rfl⟩ | ⟨-, rfl⟩ <;> rfl

theorem Formula.mem_atoms_of_untilWords {node : Formula → Formula → Formula} {a : String}
    (h : (name, node) ∈ untilWords) : a ∈ (node f g).atoms ↔ a ∈ f.atoms ∨ a ∈ g.atoms := by
  simp only [untilWords, List.mem_cons, Prod.mk.injEq, List.not_mem_nil, or_false] at h
  rcases h with ⟨-, rfl⟩ | ⟨-, rfl⟩ <;> exact mem_atoms_pair

/-- The atoms of a phrase are words among its tokens, and not reserved. -/
theorem Grammar.Derives.mem_atoms {category : Category} {d : Nat} {a : String}
    (h : Derives category d ts f) (ha : a ∈ f.atoms) : .word a ∈ ts ∧ a ∉ reservedWords := by
  induction h with
  | plain _ ih | conjunction _ ih | simple _ ih => exact ih ha
  | arrow _ _ ihl ihr | bar _ _ ihl ihr | ampersand _ _ ihl ihr =>
    rcases Formula.mem_atoms_pair.1 ha with hl | hr
    · exact ⟨List.mem_append_left _ (ihl hl).1, (ihl hl).2⟩
    · exact ⟨List.mem_append_right _ (List.mem_cons_of_mem _ (ihr hr).1), (ihr hr).2⟩
  | bang _ ih => exact ⟨List.mem_cons_of_mem _ (ih ha).1, (ih ha).2⟩
  | operator hmem _ ih =>
    rw [Formula.atoms_of_prefixWords hmem] at ha
    exact ⟨List.mem_cons_of_mem _ (ih ha).1, (ih ha).2⟩
  | «until» hmem _ _ ihl ihr =>
    rcases (Formula.mem_atoms_of_untilWords hmem).1 ha with hl | hr
    · exact ⟨by simp [(ihl hl).1], (ihl hl).2⟩
    · exact ⟨by simp [(ihr hr).1], (ihr hr).2⟩
  | parentheses _ ih => exact ⟨by simp [(ih ha).1], (ih ha).2⟩
  | top => cases ha
  | bot => cases ha
  | atom hname =>
    obtain rfl := List.mem_singleton.1 ha
    exact ⟨List.mem_singleton_self _, hname⟩

/-! ## Written formulas -/

namespace Formula

/-- The levels that a written formula takes as a simple formula. A part in parentheses or brackets
takes one for itself and one for the formula in them. -/
def levels : Formula → Nat
  | .top | .bot | .atom _ => 1
  | .not f | .ex f | .ax f | .ef f | .af f | .eg f | .ag f => f.levels + 1
  | .and f g | .or f g | .eu f g | .au f g => max f.levels g.levels + 2

/-- The tokens of a written formula. -/
def printed : Formula → List Token
  | .top => [.word "true"]
  | .bot => [.word "false"]
  | .atom name => [.word name]
  | .not f => .bang :: f.printed
  | .and f g => .leftParen :: (f.printed ++ .amp :: g.printed ++ [.rightParen])
  | .or f g => .leftParen :: (f.printed ++ .pipe :: g.printed ++ [.rightParen])
  | .ex f => .word "EX" :: f.printed
  | .ax f => .word "AX" :: f.printed
  | .ef f => .word "EF" :: f.printed
  | .af f => .word "AF" :: f.printed
  | .eg f => .word "EG" :: f.printed
  | .ag f => .word "AG" :: f.printed
  | .eu f g => .word "E" :: .leftBracket :: (f.printed ++ .word "U" :: (g.printed ++ [.rightBracket]))
  | .au f g => .word "A" :: .leftBracket :: (f.printed ++ .word "U" :: (g.printed ++ [.rightBracket]))

/-- A simple formula alone is a formula. -/
theorem derives_alone {d : Nat} (h : Derives .simple d ts f) : Derives .formula (d + 1) ts f :=
  .plain (.conjunction (.simple h))

/-- What is written for a formula spells it. -/
theorem derives_printed (h : ∀ a ∈ f.atoms, a ∉ reservedWords) :
    Derives .simple f.levels f.printed f := by
  induction f with
  | top => exact .top
  | bot => exact .bot
  | atom name => exact .atom (h name (List.mem_singleton_self name))
  | not f ih => exact .bang (ih h)
  | and f g ihf ihg =>
    obtain ⟨hf, hg⟩ := forall_atoms_pair h
    exact .parentheses (.plain (.conjunction (.ampersand (.simple (ihf hf)) (ihg hg))))
  | or f g ihf ihg =>
    obtain ⟨hf, hg⟩ := forall_atoms_pair h
    exact .parentheses (.plain (.bar (.conjunction (.simple (ihf hf))) (.simple (ihg hg))))
  | ex f ih => exact .operator (by simp [prefixWords]) (ih h)
  | ax f ih => exact .operator (by simp [prefixWords]) (ih h)
  | ef f ih => exact .operator (by simp [prefixWords]) (ih h)
  | af f ih => exact .operator (by simp [prefixWords]) (ih h)
  | eg f ih => exact .operator (by simp [prefixWords]) (ih h)
  | ag f ih => exact .operator (by simp [prefixWords]) (ih h)
  | eu f g ihf ihg =>
    obtain ⟨hf, hg⟩ := forall_atoms_pair h
    have huntil : ("E", Formula.eu) ∈ untilWords := by simp [untilWords]
    -- Both parts are formulas in the brackets, and take a level for that.
    have hderives := Derives.until huntil (derives_alone (ihf hf)) (derives_alone (ihg hg))
    rwa [Nat.add_max_add_right] at hderives
  | au f g ihf ihg =>
    obtain ⟨hf, hg⟩ := forall_atoms_pair h
    have huntil : ("A", Formula.au) ∈ untilWords := by simp [untilWords]
    have hderives := Derives.until huntil (derives_alone (ihf hf)) (derives_alone (ihg hg))
    rwa [Nat.add_max_add_right] at hderives

end Formula

/-! ## Cutting what was written -/

def Token.isWord : Token → Bool
  | .word _ => true
  | _ => false

/-- The token can stand in a text: a word is an identifier. -/
def Token.WellFormed : Token → Prop
  | .word name => isIdentifier name = true
  | _ => True

/-- A token in front of a rendering, which no word runs into. -/
theorem Lexeme.Renders.behind_token (htoken : token.WellFormed)
    (hends : token.isWord = true → Ends cs)
    (h : Renders (o + token.spelling.utf8ByteSize) cs ls) :
    Renders o (token.spelling.toList ++ cs) (⟨token, o⟩ :: ls) := by
  cases token with
  | word name =>
    obtain ⟨c, rest, hname, hc, hrest⟩ := isIdentifier_iff.1 htoken
    have hparts := forall_isWordPart hc hrest
    obtain rfl : name = String.ofList (c :: rest) := by rw [← hname, String.ofList_toList]
    rw [Token.spelling, utf8ByteSize_word hparts] at h
    rw [Token.spelling, String.toList_ofList]
    exact .word hc hrest (hends rfl) h
  | arrow => exact .arrow h
  | bang | amp | pipe | leftParen | rightParen | leftBracket | rightBracket => exact .mark rfl h

/-- Wherever the characters stand, they are a rendering of the tokens. -/
def Spells (cs : List Char) (ts : List Token) : Prop := ∀ o, ∃ ls, Renders o cs ls ∧ tokens ls = ts

namespace Spells

theorem nil : Spells [] [] := fun _ => ⟨[], .done, rfl⟩

theorem space (h : Spells cs ts) : Spells (' ' :: cs) ts := by
  intro o
  obtain ⟨ls, hls, hts⟩ := h (o + ' '.utf8Size)
  exact ⟨ls, .blank rfl hls, hts⟩

theorem cons (h : Spells cs ts) (htoken : token.WellFormed)
    (hends : token.isWord = true → Ends cs) : Spells (token.spelling.toList ++ cs) (token :: ts) := by
  intro o
  obtain ⟨ls, hls, hts⟩ := h (o + token.spelling.utf8ByteSize)
  exact ⟨⟨token, o⟩ :: ls, hls.behind_token htoken hends, by rw [tokens_cons, hts]⟩

theorem mark (h : Spells cs ts) (hmark : mark? c = some token) : Spells (c :: cs) (token :: ts) := by
  intro o
  obtain ⟨ls, hls, hts⟩ := h (o + 1)
  exact ⟨⟨token, o⟩ :: ls, .mark hmark hls, by rw [tokens_cons, hts]⟩

theorem word (h : Spells cs ts) (hends : Ends cs) (hname : isIdentifier name = true) :
    Spells (name.toList ++ cs) (.word name :: ts) := by
  have htoken : (Token.word name).WellFormed := hname
  exact h.cons htoken fun _ => hends

/-- A word and a blank in front of a text. -/
theorem operator {front text : String} (h : Spells (text.toList ++ cs) ts)
    (hfront : front.toList = name.toList ++ [' ']) (hname : isIdentifier name = true) :
    Spells ((front ++ text).toList ++ cs) (.word name :: ts) := by
  rw [String.toList_append, hfront, List.append_assoc, List.append_assoc]
  exact h.space.word rfl hname

end Spells

/-- The text of a formula with identifiers for atoms is a rendering of its tokens, whatever follows
it that does not go on with a word. -/
theorem Formula.spells_display (h : ∀ a ∈ f.atoms, isIdentifier a = true) (hrest : Spells cs ts)
    (hends : Ends cs) : Spells (f.display.toList ++ cs) (f.printed ++ ts) := by
  -- From the back to the front: what follows a word has to end it.
  induction f generalizing cs ts with
  | top => exact hrest.word hends (by decide)
  | bot => exact hrest.word hends (by decide)
  | atom name => exact hrest.word hends (h name (List.mem_singleton_self name))
  | not f ih =>
    rw [display, String.toList_append]
    exact (ih h hrest hends).mark rfl
  | ex f ih => exact (ih h hrest hends).operator rfl (by decide)
  | ax f ih => exact (ih h hrest hends).operator rfl (by decide)
  | ef f ih => exact (ih h hrest hends).operator rfl (by decide)
  | af f ih => exact (ih h hrest hends).operator rfl (by decide)
  | eg f ih => exact (ih h hrest hends).operator rfl (by decide)
  | ag f ih => exact (ih h hrest hends).operator rfl (by decide)
  | and f g ihf ihg =>
    obtain ⟨hf, hg⟩ := forall_atoms_pair h
    have hback := ihg hg (hrest.mark (c := ')') rfl) rfl
    have hfront := ihf hf (hback.space.mark (c := '&') rfl).space rfl
    simp only [display, printed, String.toList_append, List.append_assoc, List.cons_append]
    exact hfront.mark rfl
  | or f g ihf ihg =>
    obtain ⟨hf, hg⟩ := forall_atoms_pair h
    have hback := ihg hg (hrest.mark (c := ')') rfl) rfl
    have hfront := ihf hf (hback.space.mark (c := '|') rfl).space rfl
    simp only [display, printed, String.toList_append, List.append_assoc, List.cons_append]
    exact hfront.mark rfl
  | eu f g ihf ihg =>
    obtain ⟨hf, hg⟩ := forall_atoms_pair h
    have huntil : isIdentifier "U" = true := by decide
    have hquantifier : isIdentifier "E" = true := by decide
    have hback := ihg hg (hrest.mark (c := ']') rfl) rfl
    have hfront := ihf hf (hback.space.word rfl huntil).space rfl
    simp only [display, printed, String.toList_append, List.append_assoc, List.cons_append]
    exact (hfront.mark (c := '[') rfl).word rfl hquantifier
  | au f g ihf ihg =>
    obtain ⟨hf, hg⟩ := forall_atoms_pair h
    have huntil : isIdentifier "U" = true := by decide
    have hquantifier : isIdentifier "A" = true := by decide
    have hback := ihg hg (hrest.mark (c := ']') rfl) rfl
    have hfront := ihf hf (hback.space.word rfl huntil).space rfl
    simp only [display, printed, String.toList_append, List.append_assoc, List.cons_append]
    exact (hfront.mark (c := '[') rfl).word rfl hquantifier

/-! ## The round trip -/

namespace Formula

/-- The atoms that a formula may have if its text is to be read back. -/
def Readable (f : Formula) : Prop := ∀ a ∈ f.atoms, isIdentifier a = true ∧ a ∉ reservedWords

/-- Whatever a text is read as is readable. -/
theorem readable_of_parse {text : String} (h : Formula.parse text = .ok f) :
    f.Readable ∧ ∃ ls d, Lexeme.ofText text = .ok ls ∧ d ≤ maxDepth ∧
      Derives .formula d (tokens ls) f := by
  cases htext : Lexeme.ofText text with
  | error err => simp [Formula.parse, htext] at h
  | ok ls =>
    rw [parse_of_ofText htext] at h
    obtain ⟨d, hd, hderives⟩ := ofLexemes_eq_ok.1 h
    refine ⟨fun a ha => ?_, ls, d, rfl, hd, hderives⟩
    obtain ⟨hword, hfree⟩ := hderives.mem_atoms ha
    exact ⟨(ofText_eq_ok.1 htext).isIdentifier hword, hfree⟩

/-- The text of a readable formula is cut into tokens that spell it. -/
theorem Readable.ofText_display (h : f.Readable) :
    ∃ ls, Lexeme.ofText f.display = .ok ls ∧ Derives .formula (f.levels + 1) (tokens ls) f := by
  obtain ⟨ls, hls, hts⟩ := spells_display (fun a ha => (h a ha).1) .nil trivial 0
  rw [List.append_nil] at hls hts
  refine ⟨ls, ofText_eq_ok.2 hls, ?_⟩
  rw [hts]
  exact derives_alone (derives_printed fun a ha => (h a ha).2)

/-- The text of a formula is read back as the formula exactly if its atoms are identifiers and no
reserved words, and it takes no more than 256 levels. With such atoms and more levels, the text is
refused for its depth. -/
theorem parse_display_eq_ok_iff (f : Formula) :
    (Formula.parse f.display = .ok f ↔ f.Readable ∧ 1 + f.levels ≤ 256) ∧
      (f.Readable → 256 < 1 + f.levels →
        ∃ offset, Formula.parse f.display = .error (.tooDeep offset)) := by
  rw [Nat.add_comm 1]
  constructor
  · constructor
    · intro h
      obtain ⟨hreadable, ls, d, htext, hd, hderives⟩ := readable_of_parse h
      obtain ⟨ls', htext', hderives'⟩ := hreadable.ofText_display
      cases htext.symm.trans htext'
      -- The derivation that was read is the one that was written.
      obtain ⟨-, rfl⟩ := hderives.unique hderives'
      exact ⟨hreadable, hd⟩
    · rintro ⟨hreadable, hlevels⟩
      obtain ⟨ls, htext, hderives⟩ := hreadable.ofText_display
      rw [parse_of_ofText htext]
      exact ofLexemes_eq_ok.2 ⟨_, hlevels, hderives⟩
  · intro hreadable hlevels
    obtain ⟨ls, htext, hderives⟩ := hreadable.ofText_display
    rw [parse_of_ofText htext]
    exact ofLexemes_tooDeep hderives hlevels

end Formula

end ActorLogic
