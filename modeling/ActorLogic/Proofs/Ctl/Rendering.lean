import ActorLogic.Proofs.Ctl.Grammar
/-!
# Renderings of tokens

A text is cut into tokens exactly if it is a rendering of them: the tokens one after the other, with
blanks before, between and behind them, and no word running into what could still belong to it.
-/

namespace ActorLogic.Lexeme

variable {o : Nat} {c : Char} {cs name : List Char} {ls found all : List Lexeme} {token : Token}

/-! ## Characters -/

theorem isWordStart_iff :
    isWordStart c = true ↔
      (65 ≤ c.toNat ∧ c.toNat ≤ 90 ∨ 97 ≤ c.toNat ∧ c.toNat ≤ 122) ∨ c.toNat = 95 := by
  have hupper : c.isUpper = true ↔ 65 ≤ c.toNat ∧ c.toNat ≤ 90 := by
    change decide (65 ≤ c.val ∧ c.val ≤ 90) = true ↔ _
    rw [decide_eq_true_iff]
    exact and_congr UInt32.le_iff_toNat_le UInt32.le_iff_toNat_le
  have hlower : c.isLower = true ↔ 97 ≤ c.toNat ∧ c.toNat ≤ 122 := by
    change (decide (97 ≤ c.val) && decide (c.val ≤ 122)) = true ↔ _
    rw [Bool.and_eq_true, decide_eq_true_iff, decide_eq_true_iff]
    exact and_congr UInt32.le_iff_toNat_le UInt32.le_iff_toNat_le
  have hunderscore : c = '_' ↔ c.toNat = 95 := Char.toNat_inj.symm
  have halpha : c.isAlpha = (c.isUpper || c.isLower) := rfl
  rw [isWordStart, halpha, Bool.or_eq_true, Bool.or_eq_true, hupper, hlower, beq_iff_eq, hunderscore]

/-- A word cannot start with a blank. -/
theorem isBlank_of_isWordStart (h : isWordStart c = true) : isBlank c = false := by
  rw [isWordStart_iff] at h
  simp only [isBlank, blankCodes, List.contains_cons, List.contains_nil, Bool.or_false,
    Bool.or_eq_false_iff, beq_eq_false_iff_ne]
  omega

/-- A mark is no blank, starts no word and no arrow. -/
theorem not_blank_of_mark (h : mark? c = some token) :
    isBlank c = false ∧ isWordStart c = false ∧ c ≠ '-' := by
  unfold mark? at h
  split at h <;> first | exact ⟨rfl, rfl, by simp⟩ | cases h

/-! ## Renderings -/

/-- No word goes on with these characters. -/
def Ends : List Char → Prop
  | [] => True
  | c :: _ => isWordPart c = false

/-- The characters from an offset on are a rendering of lexemes. -/
inductive Renders : Nat → List Char → List Lexeme → Prop where
  | done {o : Nat} : Renders o [] []
  | blank {o : Nat} {c : Char} {cs : List Char} {ls : List Lexeme} :
      isBlank c = true → Renders (o + c.utf8Size) cs ls → Renders o (c :: cs) ls
  | word {o : Nat} {c : Char} {name cs : List Char} {ls : List Lexeme} :
      isWordStart c = true → (∀ x ∈ name, isWordPart x = true) → Ends cs →
      Renders (o + (c :: name).length) cs ls →
      Renders o (c :: (name ++ cs)) (⟨.word (String.ofList (c :: name)), o⟩ :: ls)
  | arrow {o : Nat} {cs : List Char} {ls : List Lexeme} :
      Renders (o + 2) cs ls → Renders o ('-' :: '>' :: cs) (⟨.arrow, o⟩ :: ls)
  | mark {o : Nat} {c : Char} {token : Token} {cs : List Char} {ls : List Lexeme} :
      mark? c = some token → Renders (o + 1) cs ls → Renders o (c :: cs) (⟨token, o⟩ :: ls)

theorem takeWhile_of_ends (h : Ends cs) : cs.takeWhile isWordPart = [] := by
  cases cs with
  | nil => rfl
  | cons c cs => exact List.takeWhile_cons_of_neg (by simpa [Ends] using h)

theorem dropWhile_of_ends (h : Ends cs) : cs.dropWhile isWordPart = cs := by
  cases cs with
  | nil => rfl
  | cons c cs => exact List.dropWhile_cons_of_neg (by simpa [Ends] using h)

theorem ends_dropWhile (cs : List Char) : Ends (cs.dropWhile isWordPart) := by
  have h := List.head?_dropWhile_not isWordPart cs
  cases hrest : cs.dropWhile isWordPart with
  | nil => trivial
  | cons c rest =>
    rw [hrest] at h
    exact h

theorem scan_blank (h : isBlank c = true) :
    scan found o (c :: cs) = scan found (o + c.utf8Size) cs := by
  rw [scan.eq_def]
  exact if_pos h

theorem scan_word (h : isWordStart c = true) :
    scan found o (c :: cs) =
      scan (⟨.word (String.ofList (c :: cs.takeWhile isWordPart)), o⟩ :: found)
        (o + (c :: cs.takeWhile isWordPart).length) (cs.dropWhile isWordPart) := by
  rw [scan.eq_def]
  simp only [isBlank_of_isWordStart h, h, if_true, Bool.false_eq_true, if_false]

/-- A word that ends here is taken as a whole. -/
theorem scan_name (hc : isWordStart c = true) (hname : ∀ x ∈ name, isWordPart x = true)
    (hends : Ends cs) :
    scan found o (c :: (name ++ cs)) =
      scan (⟨.word (String.ofList (c :: name)), o⟩ :: found) (o + (c :: name).length) cs := by
  have htake : (name ++ cs).takeWhile isWordPart = name := by
    rw [List.takeWhile_append_of_pos hname, takeWhile_of_ends hends, List.append_nil]
  have hdrop : (name ++ cs).dropWhile isWordPart = cs := by
    rw [List.dropWhile_append_of_pos hname, dropWhile_of_ends hends]
  rw [scan_word hc, htake, hdrop]

theorem scan_arrow : scan found o ('-' :: '>' :: cs) = scan (⟨.arrow, o⟩ :: found) (o + 2) cs := by
  rw [scan.eq_def]
  rfl

theorem scan_mark (h : mark? c = some token) :
    scan found o (c :: cs) = scan (⟨token, o⟩ :: found) (o + 1) cs := by
  obtain ⟨hblank, hword, harrow⟩ := not_blank_of_mark h
  rw [scan.eq_def]
  simp only [hblank, hword, harrow, h, Bool.false_eq_true, if_false]

/-- A rendering is cut into its lexemes. -/
theorem scan_of_renders (h : Renders o cs ls) (found : List Lexeme) :
    scan found o cs = .ok (found.reverse ++ ls) := by
  induction h generalizing found with
  | done => rw [scan, List.append_nil]
  | blank hc _ ih => rw [scan_blank hc, ih]
  | word hc hname hends _ ih =>
    rw [scan_name hc hname hends, ih, List.reverse_cons, List.append_assoc]
    rfl
  | arrow _ ih =>
    rw [scan_arrow, ih, List.reverse_cons, List.append_assoc]
    rfl
  | mark hc _ ih =>
    rw [scan_mark hc, ih, List.reverse_cons, List.append_assoc]
    rfl

/-- No blank and no token starts with the character, if the others follow. -/
structure Stray (c : Char) (rest : List Char) : Prop where
  blank : isBlank c = false
  word : isWordStart c = false
  mark : mark? c = none
  arrow : c = '-' → ∀ tail, rest ≠ '>' :: tail

/-- What a scan does with the first character. -/
theorem scan_cases {rest : List Char} {result : Except SyntaxError (List Lexeme)}
    (h : scan found o (c :: rest) = result) :
    (isBlank c = true ∧ scan found (o + c.utf8Size) rest = result) ∨
    (isWordStart c = true ∧
      scan (⟨.word (String.ofList (c :: rest.takeWhile isWordPart)), o⟩ :: found)
        (o + (c :: rest.takeWhile isWordPart).length) (rest.dropWhile isWordPart) = result) ∨
    (∃ tail, c = '-' ∧ rest = '>' :: tail ∧
      scan (⟨.arrow, o⟩ :: found) (o + 2) tail = result) ∨
    (∃ token, mark? c = some token ∧ scan (⟨token, o⟩ :: found) (o + 1) rest = result) ∨
    (Stray c rest ∧ result = .error (.unexpectedChar c o)) := by
  rw [scan.eq_def] at h
  dsimp only at h
  split at h
  · next hblank => exact .inl ⟨hblank, h⟩
  next hblank =>
  split at h
  · next hword => exact .inr (.inl ⟨hword, h⟩)
  next hword =>
  rw [Bool.not_eq_true] at hblank hword
  split at h
  · next hdash =>
    subst hdash
    split at h
    · exact .inr (.inr (.inl ⟨_, rfl, rfl, h⟩))
    · next hrest =>
      refine .inr (.inr (.inr (.inr ⟨⟨hblank, hword, rfl, fun _ tail heq => ?_⟩, h.symm⟩)))
      exact hrest tail heq
  next hdash =>
  split at h
  · next token hmark => exact .inr (.inr (.inr (.inl ⟨token, hmark, h⟩)))
  · next hmark =>
    exact .inr (.inr (.inr (.inr ⟨⟨hblank, hword, hmark, fun heq => absurd heq hdash⟩, h.symm⟩)))

/-- What a text is cut into, it is a rendering of. -/
theorem renders_of_scan (h : scan found o cs = .ok all) :
    ∃ ls, all = found.reverse ++ ls ∧ Renders o cs ls := by
  -- A word takes more than one character off, so the induction is on the length of the text.
  induction hlength : cs.length using Nat.strongRecOn generalizing found o cs with
  | ind n ih =>
    subst hlength
    cases cs with
    | nil =>
      rw [scan] at h
      cases h
      exact ⟨[], by simp, .done⟩
    | cons c rest =>
      obtain ⟨hc, hrest⟩ | ⟨hc, hrest⟩ | ⟨tail, rfl, rfl, hrest⟩ | ⟨token, hc, hrest⟩ | ⟨-, hfails⟩ :=
        scan_cases h
      · obtain ⟨ls, rfl, hls⟩ := ih _ (by simp) hrest rfl
        exact ⟨ls, rfl, .blank hc hls⟩
      · -- a word, as long as it goes on
        have hshorter := (List.dropWhile_sublist (l := rest) isWordPart).length_le
        obtain ⟨ls, rfl, hls⟩ := ih _ (Nat.lt_succ_of_le hshorter) hrest rfl
        refine ⟨⟨.word (String.ofList (c :: rest.takeWhile isWordPart)), o⟩ :: ls, by simp, ?_⟩
        have hname : ∀ x ∈ rest.takeWhile isWordPart, isWordPart x = true :=
          List.all_eq_true.1 List.all_takeWhile
        have hword := Renders.word hc hname (ends_dropWhile rest) hls
        rwa [List.takeWhile_append_dropWhile] at hword
      · have hshorter : tail.length < tail.length + 1 + 1 := by omega
        obtain ⟨ls, rfl, hls⟩ := ih _ hshorter hrest rfl
        exact ⟨⟨.arrow, o⟩ :: ls, by simp, .arrow hls⟩
      · obtain ⟨ls, rfl, hls⟩ := ih _ (by simp) hrest rfl
        exact ⟨⟨token, o⟩ :: ls, by simp, .mark hc hls⟩
      · cases hfails

theorem ofText_eq_ok {s : String} : ofText s = .ok ls ↔ Renders 0 s.toList ls := by
  constructor
  · intro h
    obtain ⟨_, rfl, hls⟩ := renders_of_scan h
    exact hls
  · intro h
    exact scan_of_renders h []

end ActorLogic.Lexeme

/-! ## Places -/

namespace ActorLogic

open Lexeme

variable {o : Nat} {c : Char} {cs rest : List Char} {token : Token} {l : Lexeme}
  {before after ls : List Lexeme}

/-- A token as it stands in a text. -/
def Token.spelling : Token → String
  | .word name => name
  | .bang => "!"
  | .amp => "&"
  | .pipe => "|"
  | .arrow => "->"
  | .leftParen => "("
  | .rightParen => ")"
  | .leftBracket => "["
  | .rightBracket => "]"

theorem Token.spelling_of_mark (h : mark? c = some token) : token.spelling = String.ofList [c] := by
  unfold mark? at h
  split at h <;> cases h <;> rfl

theorem utf8Size_of_isWordPart (h : isWordPart c = true) : c.utf8Size = 1 := by
  rw [Char.utf8Size_eq_one_iff]
  have hstart : isWordStart c = true → c.val ≤ 127 := by
    intro hs
    rw [isWordStart_iff] at hs
    rw [UInt32.le_iff_toNat_le]
    change c.toNat ≤ 127
    omega
  have hdigit : c.isDigit = true → c.val ≤ 127 := by
    intro hd
    simp only [Char.isDigit, Bool.and_eq_true, decide_eq_true_eq] at hd
    exact UInt32.le_trans hd.2 (by decide)
  simp only [isWordPart, Char.isAlphanum, Bool.or_eq_true, beq_iff_eq] at h
  rcases h with ((halpha | hd) | rfl) | rfl
  · exact hstart (by simp [isWordStart, halpha])
  · exact hdigit hd
  · decide
  · decide

theorem isWordPart_of_isWordStart (h : isWordStart c = true) : isWordPart c = true := by
  simp only [isWordStart, isWordPart, Char.isAlphanum, Bool.or_eq_true] at h ⊢
  exact .inl (h.imp_left .inl)

theorem forall_isWordPart (hc : isWordStart c = true) (hrest : ∀ x ∈ cs, isWordPart x = true) :
    ∀ x ∈ c :: cs, isWordPart x = true :=
  List.forall_mem_cons.2 ⟨isWordPart_of_isWordStart hc, hrest⟩

theorem utf8ByteSize_char (c : Char) : (String.ofList [c]).utf8ByteSize = c.utf8Size := by
  rw [String.ofList_cons, String.ofList_nil, String.append_empty, String.utf8ByteSize_singleton]

/-- The characters of a word take one byte each. -/
theorem utf8ByteSize_word (h : ∀ x ∈ cs, isWordPart x = true) :
    (String.ofList cs).utf8ByteSize = cs.length := by
  induction cs with
  | nil => rfl
  | cons c cs ih =>
    rw [String.ofList_cons, String.utf8ByteSize_append, String.utf8ByteSize_singleton,
      utf8Size_of_isWordPart (h c List.mem_cons_self),
      ih fun x hx => h x (List.mem_cons_of_mem c hx), List.length_cons, Nat.add_comm]

/-- A character takes one byte if it is a mark. -/
theorem utf8Size_of_mark (h : mark? c = some token) : c.utf8Size = 1 := by
  unfold mark? at h
  split at h <;> cases h <;> rfl

/-- The lexeme stands in the characters, which start at an offset: its token is spelled there, behind
as many bytes as the offsets differ. -/
def Lexeme.StandsIn (l : Lexeme) (o : Nat) (cs : List Char) : Prop :=
  ∃ front back, cs = front ++ (l.token.spelling.toList ++ back) ∧
    o + (String.ofList front).utf8ByteSize = l.offset

/-- What stands behind some characters stands in the whole. -/
theorem Lexeme.StandsIn.behind (h : l.StandsIn (o + (String.ofList cs).utf8ByteSize) rest) :
    l.StandsIn o (cs ++ rest) := by
  obtain ⟨front, back, rfl, hoffset⟩ := h
  refine ⟨cs ++ front, back, by rw [List.append_assoc], ?_⟩
  rw [String.ofList_append, String.utf8ByteSize_append, ← Nat.add_assoc, hoffset]

/-- A token in front of characters, in which all further lexemes stand. -/
theorem Lexeme.StandsIn.cons
    (h : ∀ l ∈ ls, l.StandsIn (o + token.spelling.utf8ByteSize) rest) :
    ∀ l ∈ ⟨token, o⟩ :: ls, l.StandsIn o (token.spelling.toList ++ rest) := by
  intro l hl
  rcases List.mem_cons.1 hl with rfl | hmem
  · exact ⟨[], rest, rfl, rfl⟩
  · apply Lexeme.StandsIn.behind
    rw [String.ofList_toList]
    exact h l hmem

/-- Every lexeme of a rendering stands in its characters. -/
theorem Lexeme.Renders.standsIn (h : Renders o cs ls) : ∀ l ∈ ls, l.StandsIn o cs := by
  induction h with
  | done => simp
  | @blank o c cs ls _ _ ih =>
    intro l hl
    have hbehind : l.StandsIn (o + (String.ofList [c]).utf8ByteSize) cs := by
      rw [utf8ByteSize_char]
      exact ih l hl
    exact hbehind.behind
  | @word o c name cs ls hc hname _ _ ih =>
    have hparts := forall_isWordPart hc hname
    rw [← utf8ByteSize_word hparts] at ih
    have hword : Token.spelling (.word (String.ofList (c :: name))) = String.ofList (c :: name) := rfl
    rw [← hword] at ih
    have hall := Lexeme.StandsIn.cons ih
    rwa [hword, String.toList_ofList] at hall
  | @arrow o cs ls _ ih =>
    have hsize : (Token.spelling .arrow).utf8ByteSize = 2 := by decide
    rw [← hsize] at ih
    exact Lexeme.StandsIn.cons ih
  | @mark o c token cs ls hc _ ih =>
    rw [← utf8Size_of_mark hc, ← utf8ByteSize_char, ← Token.spelling_of_mark hc] at ih
    have hall := Lexeme.StandsIn.cons ih
    rwa [Token.spelling_of_mark hc, String.toList_ofList] at hall

end ActorLogic
