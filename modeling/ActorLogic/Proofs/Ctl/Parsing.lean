import ActorLogic.Ctl.Parser
import ActorLogic.Proofs.Ctl.Grammar
import ActorLogic.Proofs.Result
/-!
# The readers follow the grammar

What a reader takes off the front of the tokens is a phrase of its category, nested no deeper than it
has levels. And a phrase is read to its end, whatever follows it that cannot belong to it; if it is
nested deeper, the reader says so.
-/

namespace ActorLogic

namespace FormulaReader

open Grammar Lexeme Result

variable {textEnd room fuel d e : Nat} {c joinedAs : Category} {f g left : Formula}
  {ls used rest : List Lexeme} {separator : Token} {join : Formula → Formula → Formula}
  {reader operand simple formula : FormulaReader} {name : String}

/-! ## Words -/

theorem operator?_eq_some {node : Formula → Formula} (h : operator? name = some node) :
    (name, node) ∈ prefixWords := by
  unfold operator? at h
  split at h <;> cases h <;> simp [prefixWords]

theorem operator?_of_mem {node : Formula → Formula} (h : (name, node) ∈ prefixWords) :
    operator? name = some node := by
  simp only [prefixWords, List.mem_cons, Prod.mk.injEq, List.not_mem_nil, or_false] at h
  rcases h with ⟨rfl, rfl⟩ | ⟨rfl, rfl⟩ | ⟨rfl, rfl⟩ | ⟨rfl, rfl⟩ | ⟨rfl, rfl⟩ | ⟨rfl, rfl⟩ <;> rfl

theorem untilOperator?_eq_some {node : Formula → Formula → Formula}
    (h : untilOperator? name = some node) : (name, node) ∈ untilWords := by
  unfold untilOperator? at h
  split at h <;> cases h <;> simp [untilWords]

theorem untilOperator?_of_mem {node : Formula → Formula → Formula}
    (h : (name, node) ∈ untilWords) : operator? name = none ∧ untilOperator? name = some node := by
  simp only [untilWords, List.mem_cons, Prod.mk.injEq, List.not_mem_nil, or_false] at h
  rcases h with ⟨rfl, rfl⟩ | ⟨rfl, rfl⟩ <;> exact ⟨rfl, rfl⟩

theorem operator?_of_atom (h : name ∉ reservedWords) : operator? name = none := by
  cases hop : operator? name with
  | none => rfl
  | some node => exact absurd (reserved_of_prefixWords (operator?_eq_some hop)) h

theorem ofWord_of_atom (h : name ∉ reservedWords) : ofWord name = .atom name := by
  unfold ofWord
  split
  · simp [reservedWords] at h
  · simp [reservedWords] at h
  · rfl

/-- A word that is no operator is a simple formula by itself. -/
theorem derives_ofWord (h : operator? name = none) :
    Derives .simple 1 [.word name] (ofWord name) := by
  unfold ofWord
  split
  · exact .top
  · exact .bot
  · next htrue hfalse =>
    apply Derives.atom
    intro hmem
    simp only [reservedWords, List.mem_cons, List.not_mem_nil, or_false] at hmem
    rcases hmem with rfl | rfl | rfl | rfl | rfl | rfl | rfl | rfl
    · exact htrue rfl
    · exact hfalse rfl
    all_goals cases h

/-! ## What is read is a phrase -/

/-- What the reader takes is a phrase of the category, and not too deep. -/
def Sound (reader : FormulaReader) (c : Category) (room : Nat) : Prop :=
  ∀ ls f rest, reader ls = .ok (f, rest) →
    ∃ used d, ls = used ++ rest ∧ d ≤ room ∧ Derives c d (tokens used) f

theorem expect_eq_ok {token : Token} {expected : Expected} :
    expect token expected ls = .ok rest ↔ ∃ offset, ls = ⟨token, offset⟩ :: rest := by
  cases ls with
  | nil => simp [expect]
  | cons l more =>
    obtain ⟨found, offset⟩ := l
    by_cases h : found = token
    · simp [expect, h]
    · simp [expect, h]

/-- The operands read so far and those that follow make one phrase. -/
theorem joinMore_sound (hoperand : Sound operand c room)
    (hmore : ∀ {d e ts us f g}, Derives joinedAs d ts f → Derives c e us g →
      Derives joinedAs (max d e) (ts ++ separator :: us) (join f g))
    (hd : d ≤ room) (hleft : Derives joinedAs d (tokens used) left)
    (h : joinMore separator join operand fuel left ls = .ok (f, rest)) :
    ∃ all k, used ++ ls = all ++ rest ∧ k ≤ room ∧ Derives joinedAs k (tokens all) f := by
  -- The phrase on the left grows by an operand in each round.
  induction fuel generalizing used d left ls with
  | zero =>
    cases h
    exact ⟨used, d, rfl, hd, hleft⟩
  | succ fuel ih =>
    cases ls with
    | nil =>
      cases h
      exact ⟨used, d, rfl, hd, hleft⟩
    | cons l more =>
      rw [joinMore] at h
      split at h
      · next hsep =>
        split at h
        · next right after hright =>
          obtain ⟨mid, k, rfl, hk, hmid⟩ := hoperand _ _ _ hright
          have hjoined := hmore hleft hmid
          rw [← hsep, ← tokens_cons, ← tokens_append] at hjoined
          obtain ⟨all, n, hall, hn, hderives⟩ := ih (Nat.max_le.2 ⟨hd, hk⟩) hjoined h
          exact ⟨all, n, by simpa using hall, hn, hderives⟩
        · cases h
      · cases h
        exact ⟨used, d, rfl, hd, hleft⟩

theorem Sound.joined (hoperand : Sound operand c room)
    (hone : ∀ {d ts f}, Derives c d ts f → Derives joinedAs d ts f)
    (hmore : ∀ {d e ts us f g}, Derives joinedAs d ts f → Derives c e us g →
      Derives joinedAs (max d e) (ts ++ separator :: us) (join f g)) :
    Sound (joined separator join operand) joinedAs room := by
  intro ls f rest h
  unfold FormulaReader.joined at h
  split at h
  · next first after hfirst =>
    obtain ⟨used, d, rfl, hd, hderives⟩ := hoperand _ _ _ hfirst
    exact joinMore_sound hoperand hmore hd (hone hderives) h
  · cases h

theorem Sound.conjunction (h : Sound simple .simple room) :
    Sound (conjunction simple) .conjunction room :=
  h.joined .simple .ampersand

theorem Sound.disjunction (h : Sound simple .simple room) :
    Sound (disjunction simple) .disjunction room :=
  h.conjunction.joined .conjunction .bar

theorem Sound.implication (hsimple : Sound simple .simple room)
    (hformula : Sound formula .formula room) :
    Sound (implication simple formula) .formula (room + 1) := by
  intro ls f rest h
  unfold FormulaReader.implication at h
  split at h
  · next left offset after hleft =>
    obtain ⟨used, d, rfl, hd, hl⟩ := hsimple.disjunction _ _ _ hleft
    split at h
    · next right end' hright =>
      obtain ⟨more, e, rfl, he, hr⟩ := hformula _ _ _ hright
      cases h
      refine ⟨used ++ ⟨.arrow, offset⟩ :: more, max d e + 1, by simp, ?_, ?_⟩
      · exact Nat.succ_le_succ (Nat.max_le.2 ⟨hd, he⟩)
      · rw [tokens_append, tokens_cons]
        exact .arrow hl hr
    · cases h
  · obtain ⟨used, d, hls, hd, hderives⟩ := hsimple.disjunction _ _ _ h
    exact ⟨used, d + 1, hls, Nat.succ_le_succ hd, .plain hderives⟩

theorem Sound.untilBody {node : Formula → Formula → Formula} (hmem : (name, node) ∈ untilWords)
    (hformula : Sound formula .formula room) {offset bracket : Nat}
    (h : untilBody node formula ls = .ok (f, rest)) :
    ∃ used d, ⟨.word name, offset⟩ :: ⟨.leftBracket, bracket⟩ :: ls = used ++ rest ∧
      d ≤ room + 1 ∧ Derives .simple d (tokens used) f := by
  obtain ⟨⟨hold, ls₁⟩, hhold, h⟩ := bind_eq_ok.1 h
  obtain ⟨ls₂, huntil, h⟩ := bind_eq_ok.1 h
  obtain ⟨⟨goal, ls₃⟩, hgoal, h⟩ := bind_eq_ok.1 h
  obtain ⟨ls₄, hclose, h⟩ := bind_eq_ok.1 h
  cases h
  obtain ⟨first, d, rfl, hd, hfirst⟩ := hformula _ _ _ hhold
  obtain ⟨o₁, rfl⟩ := expect_eq_ok.1 huntil
  obtain ⟨second, e, rfl, he, hsecond⟩ := hformula _ _ _ hgoal
  obtain ⟨o₂, rfl⟩ := expect_eq_ok.1 hclose
  refine ⟨⟨.word name, offset⟩ :: ⟨.leftBracket, bracket⟩ ::
    (first ++ ⟨.word "U", o₁⟩ :: (second ++ [⟨.rightBracket, o₂⟩])), max d e + 1, by simp, ?_, ?_⟩
  · exact Nat.succ_le_succ (Nat.max_le.2 ⟨hd, he⟩)
  · simpa using Derives.until hmem hfirst hsecond

theorem Sound.primary (hsimple : Sound simple .simple room)
    (hformula : Sound formula .formula room) :
    Sound (primary simple formula) .simple (room + 1) := by
  intro ls f rest h
  unfold FormulaReader.primary at h
  split at h
  · cases h
  · next offset more =>
    obtain ⟨⟨g, after⟩, hg, heq⟩ := map_eq_ok.1 h
    cases heq
    obtain ⟨used, d, rfl, hd, hderives⟩ := hsimple _ _ _ hg
    exact ⟨⟨.bang, offset⟩ :: used, d + 1, rfl, Nat.succ_le_succ hd, .bang hderives⟩
  · next offset more =>
    obtain ⟨⟨g, ls₁⟩, hg, h⟩ := bind_eq_ok.1 h
    obtain ⟨ls₂, hclose, h⟩ := bind_eq_ok.1 h
    cases h
    obtain ⟨used, d, rfl, hd, hderives⟩ := hformula _ _ _ hg
    obtain ⟨o, rfl⟩ := expect_eq_ok.1 hclose
    refine ⟨⟨.leftParen, offset⟩ :: (used ++ [⟨.rightParen, o⟩]), d + 1, by simp,
      Nat.succ_le_succ hd, ?_⟩
    simpa using Derives.parentheses hderives
  · next name offset more =>
    unfold afterWord at h
    split at h
    · next node hnode =>
      obtain ⟨⟨g, after⟩, hg, heq⟩ := map_eq_ok.1 h
      cases heq
      obtain ⟨used, d, rfl, hd, hderives⟩ := hsimple _ _ _ hg
      exact ⟨⟨.word name, offset⟩ :: used, d + 1, rfl, Nat.succ_le_succ hd,
        .operator (operator?_eq_some hnode) hderives⟩
    · next hnone =>
      split at h
      · next node bracket more' hnode =>
        exact Sound.untilBody (untilOperator?_eq_some hnode) hformula h
      · cases h
        exact ⟨[⟨.word name, offset⟩], 1, rfl, Nat.succ_le_succ (Nat.zero_le room),
          derives_ofWord hnone⟩
  · cases h

/-- What is read with some levels left is a phrase with no more levels. -/
theorem sound_at (textEnd room : Nat) :
    Sound (simpleAt textEnd room) .simple room ∧ Sound (formulaAt textEnd room) .formula room := by
  -- Each of the two readers calls the other, with a level less.
  induction room with
  | zero =>
    constructor
    · intro ls f rest h
      cases h
    · intro ls f rest h
      cases h
  | succ room ih => exact ⟨ih.1.primary ih.2, ih.1.implication ih.2⟩

/-! ## A phrase is read to its end -/

/-- The reader of a category with some levels left. -/
def readerOf (textEnd room : Nat) : Category → FormulaReader
  | .formula => formulaAt textEnd room
  | .disjunction => disjunction (simpleAt textEnd room)
  | .conjunction => conjunction (simpleAt textEnd room)
  | .simple => simpleAt textEnd room

/-- How the reader of a category goes on when it has read a phrase. Only joined phrases may still
grow. -/
def resume (textEnd room : Nat) : Category → Formula → FormulaReader
  | .formula, f, rest => .ok (f, rest)
  | .disjunction, f, rest =>
    joinMore .pipe .or (conjunction (simpleAt textEnd room)) rest.length f rest
  | .conjunction, f, rest => joinMore .amp .and (simpleAt textEnd room) rest.length f rest
  | .simple, f, rest => .ok (f, rest)

/-- The tokens that must not follow a phrase of a category for `resume` to tell how it is read. A
bracket would make an until formula of the atoms E and A. -/
def stops : Category → List Token
  | .formula => [.leftBracket, .amp, .pipe, .arrow]
  | .disjunction => [.leftBracket, .amp]
  | .conjunction => [.leftBracket]
  | .simple => [.leftBracket]

/-- The next token is none of these. -/
def Avoids (stop : List Token) : List Lexeme → Prop
  | [] => True
  | l :: _ => l.token ∉ stop

theorem Avoids.mono {stop more : List Token} (h : Avoids more rest) (hsub : stop ⊆ more) :
    Avoids stop rest := by
  cases rest with
  | nil => trivial
  | cons l ls => exact fun hmem => h (hsub hmem)

/-- What becomes of a phrase that takes `d` levels where `room` are left: with levels enough the
result is the one that is due, and otherwise it says that the nesting is too deep. -/
structure Reads (room d : Nat) (result due : Except SyntaxError (Formula × List Lexeme)) : Prop where
  ok : d ≤ room → result = due
  tooDeep : room < d → ∃ offset, result = .error (.tooDeep offset)

namespace Reads

variable {result due : Except SyntaxError (Formula × List Lexeme)}

/-- A phrase without levels of its own. -/
theorem here (h : result = due) : Reads room 0 result due where
  ok _ := h
  tooDeep hd := absurd hd (Nat.not_lt_zero room)

theorem map {node : Formula → Formula} (h : Reads room d result (.ok (f, rest))) :
    Reads room d (result.map fun (f, rest) => (node f, rest)) (.ok (node f, rest)) where
  ok hd := by rw [h.ok hd, ok_map]
  tooDeep hd := by
    obtain ⟨offset, h⟩ := h.tooDeep hd
    exact ⟨offset, by rw [h]; rfl⟩

/-- What comes first is the first to be found too deep. -/
theorem bind {k : Formula × List Lexeme → Except SyntaxError (Formula × List Lexeme)}
    (h : Reads room d result (.ok (f, rest))) (hk : Reads room e (k (f, rest)) due) :
    Reads room (max d e) (result >>= k) due where
  ok hde := by
    obtain ⟨hd, he⟩ := Nat.max_le.1 hde
    rw [h.ok hd, ok_bind, hk.ok he]
  tooDeep hde := by
    rcases Nat.lt_or_ge room d with hd | hd
    · obtain ⟨offset, h⟩ := h.tooDeep hd
      exact ⟨offset, by rw [h]; rfl⟩
    · rw [h.ok hd, ok_bind]
      refine hk.tooDeep ?_
      omega

end Reads

theorem joinMore_of_avoids (h : Avoids [separator] rest) :
    joinMore separator join operand fuel f rest = .ok (f, rest) := by
  cases fuel with
  | zero => rfl
  | succ fuel =>
    cases rest with
    | nil => rfl
    | cons l ls => exact if_neg fun heq => h (List.mem_singleton.2 heq)

/-- Fuel for each lexeme is enough: more of it changes nothing. -/
theorem joinMore_fuel (hoperand : Sound operand c room) {more : Nat} (hfuel : ls.length ≤ fuel)
    (hmore : ls.length ≤ more) :
    joinMore separator join operand fuel left ls = joinMore separator join operand more left ls := by
  induction fuel generalizing more left ls with
  | zero =>
    obtain rfl := List.length_eq_zero_iff.1 (Nat.le_zero.1 hfuel)
    cases more <;> rfl
  | succ fuel ih =>
    cases ls with
    | nil => cases more <;> rfl
    | cons l rest =>
      cases more with
      | zero => cases hmore
      | succ more =>
        rw [joinMore, joinMore]
        split
        · cases hright : operand rest with
          | error e => rfl
          | ok result =>
            obtain ⟨right, after⟩ := result
            -- The operand leaves no more than it was given.
            obtain ⟨used, d, rfl, -, -⟩ := hoperand _ _ _ hright
            rw [List.length_cons, List.length_append] at hfuel hmore
            exact ih (by omega) (by omega)
        · rfl

/-- One more operand is joined. -/
theorem joinMore_operand (hoperand : Sound operand c room) {l : Lexeme} (hl : l.token = separator)
    (h : operand (used ++ rest) = .ok (g, rest)) :
    joinMore separator join operand (l :: (used ++ rest)).length f (l :: (used ++ rest)) =
      joinMore separator join operand rest.length (join f g) rest := by
  rw [List.length_cons, joinMore, if_pos hl, h]
  exact joinMore_fuel hoperand (by simp) (Nat.le_refl _)

/-- A joined phrase grows by an operand. -/
theorem Reads.joined (hoperand : Sound operand c room) {l : Lexeme} (hl : l.token = separator)
    {more : List Lexeme}
    (hleft : Reads room d (joined separator join operand (used ++ l :: (more ++ rest)))
      (joinMore separator join operand (l :: (more ++ rest)).length f (l :: (more ++ rest))))
    (hright : Reads room e (operand (more ++ rest)) (.ok (g, rest))) :
    Reads room (max d e) (joined separator join operand (used ++ l :: (more ++ rest)))
      (joinMore separator join operand rest.length (join f g) rest) where
  ok hde := by
    obtain ⟨hd, he⟩ := Nat.max_le.1 hde
    rw [hleft.ok hd, joinMore_operand hoperand hl (hright.ok he)]
  tooDeep hde := by
    rcases Nat.lt_or_ge room d with hd | hd
    · exact hleft.tooDeep hd
    · have he : room < e := by omega
      obtain ⟨offset, h⟩ := hright.tooDeep he
      rw [hleft.ok hd]
      exact ⟨offset, by rw [List.length_cons, joinMore, if_pos hl, h]⟩

/-- The first operand of a joined phrase. -/
theorem Reads.first (h : Reads room d (operand ls) (.ok (f, rest))) :
    Reads room d (FormulaReader.joined separator join operand ls)
      (joinMore separator join operand rest.length f rest) where
  ok hd := by rw [FormulaReader.joined, h.ok hd]
  tooDeep hd := by
    obtain ⟨offset, h⟩ := h.tooDeep hd
    exact ⟨offset, by rw [FormulaReader.joined, h]⟩

/-- A disjunction alone is a formula, if no arrow follows. -/
theorem Reads.alone (h : Reads room d (disjunction simple ls) (.ok (f, rest)))
    (hrest : Avoids [.arrow] rest) :
    Reads room d (implication simple formula ls) (.ok (f, rest)) where
  ok hd := by
    rw [implication, h.ok hd]
    split
    · next heq =>
      cases heq
      exact absurd (List.mem_singleton_self _) hrest
    · rfl
  tooDeep hd := by
    obtain ⟨offset, h⟩ := h.tooDeep hd
    exact ⟨offset, by rw [implication, h]⟩

/-- Behind an arrow, a formula is read. -/
theorem Reads.arrow {offset : Nat} {more : List Lexeme}
    (hleft : Reads room d (disjunction simple ls) (.ok (f, ⟨.arrow, offset⟩ :: more)))
    (hright : Reads room e (formula more) (.ok (g, rest))) :
    Reads room (max d e) (implication simple formula ls) (.ok (.implies f g, rest)) where
  ok hde := by
    obtain ⟨hd, he⟩ := Nat.max_le.1 hde
    simp only [implication, hleft.ok hd, hright.ok he]
  tooDeep hde := by
    rcases Nat.lt_or_ge room d with hd | hd
    · obtain ⟨offset, h⟩ := hleft.tooDeep hd
      exact ⟨offset, by rw [implication, h]⟩
    · have he : room < e := by omega
      obtain ⟨offset, h⟩ := hright.tooDeep he
      exact ⟨offset, by simp only [implication, hleft.ok hd, h]⟩

/-- One level more than what stands in it. -/
theorem Reads.level (reader : Nat → FormulaReader)
    {due : Except SyntaxError (Formula × List Lexeme)} (hzero : reader 0 ls = refuse textEnd ls)
    (h : ∀ room, Reads room d (reader (room + 1) ls) due) (room : Nat) :
    Reads room (d + 1) (reader room ls) due := by
  cases room with
  | zero => exact ⟨fun hd => absurd hd (Nat.not_succ_le_zero d), fun _ => ⟨_, hzero⟩⟩
  | succ room =>
    exact ⟨fun hd => (h room).ok (Nat.le_of_succ_le_succ hd),
      fun hd => (h room).tooDeep (Nat.lt_of_succ_lt_succ hd)⟩

theorem expect_ok {token : Token} {expected : Expected} {offset : Nat} :
    expect token expected (⟨token, offset⟩ :: rest) = .ok rest := if_pos rfl

theorem tokens_eq_append {ts us : List Token} (h : tokens ls = ts ++ us) :
    ∃ first second, ls = first ++ second ∧ tokens first = ts ∧ tokens second = us :=
  List.map_eq_append_iff.1 h

theorem tokens_eq_cons {token : Token} {ts : List Token} (h : tokens ls = token :: ts) :
    ∃ offset more, ls = ⟨token, offset⟩ :: more ∧ tokens more = ts := by
  obtain ⟨⟨_, offset⟩, more, rfl, rfl, hmore⟩ := List.map_eq_cons_iff.1 h
  exact ⟨offset, more, rfl, hmore⟩

theorem afterWord_operator {node : Formula → Formula} (h : operator? name = some node) :
    afterWord simple formula name ls = (simple ls).map fun (f, rest) => (node f, rest) := by
  simp only [afterWord, h]

theorem afterWord_until {node : Formula → Formula → Formula} {offset : Nat}
    (hnone : operator? name = none) (h : untilOperator? name = some node) :
    afterWord simple formula name (⟨.leftBracket, offset⟩ :: ls) = untilBody node formula ls := by
  simp only [afterWord, hnone, h]

/-- A word that is no operator stands alone, if no bracket follows. -/
theorem afterWord_alone (h : operator? name = none) (hrest : Avoids [.leftBracket] rest) :
    afterWord simple formula name rest = .ok (ofWord name, rest) := by
  simp only [afterWord, h]
  split
  · exact absurd (List.mem_singleton_self _) hrest
  · rfl

theorem Reads.word {offset : Nat} (h : operator? name = none) (hrest : Avoids [.leftBracket] rest) :
    Reads room 1 (simpleAt textEnd room (⟨.word name, offset⟩ :: rest))
      (.ok (ofWord name, rest)) := by
  refine .level (simpleAt textEnd) rfl (fun room => .here ?_) room
  exact afterWord_alone h hrest

/-- A formula in front of the token that closes it. -/
theorem Reads.closed {token : Token} {expected : Expected} {offset : Nat}
    (node : Formula → Formula)
    (h : Reads room d (formula ls) (.ok (f, ⟨token, offset⟩ :: rest))) :
    Reads room d
      (formula ls >>= fun (f, ls) => expect token expected ls >>= fun ls => pure (node f, ls))
      (.ok (node f, rest)) := by
  have hclose : Reads room 0 (expect token expected (⟨token, offset⟩ :: rest) >>= fun ls =>
      pure (node f, ls)) (.ok (node f, rest)) := .here (by rw [expect_ok, ok_bind]; rfl)
  exact Nat.max_zero d ▸ h.bind hclose

/-- The until formula behind its opening bracket. -/
theorem Reads.untilBody {node : Formula → Formula → Formula} {more : List Lexeme} {u close : Nat}
    (hleft : Reads room d (formula ls) (.ok (f, ⟨.word "U", u⟩ :: more)))
    (hright : Reads room e (formula more) (.ok (g, ⟨.rightBracket, close⟩ :: rest))) :
    Reads room (max d e) (untilBody node formula ls) (.ok (node f g, rest)) := by
  refine hleft.bind ?_
  show Reads room e (expect _ _ _ >>= _) _
  rw [expect_ok, ok_bind]
  exact hright.closed (node f)

/-- Every phrase is read to its end, if what follows cannot belong to it and there are levels
enough. -/
theorem reads_of_derives (textEnd : Nat) {ts : List Token} (h : Derives c d ts f) :
    ∀ (room : Nat) (used rest : List Lexeme), tokens used = ts → Avoids (stops c) rest →
      Reads room d (readerOf textEnd room c (used ++ rest)) (resume textEnd room c f rest) := by
  -- A part of a phrase is followed by the rest of the phrase, so what follows must be any.
  induction h with
  | plain _ ih =>
    intro room used rest hused hrest
    refine Reads.level (formulaAt textEnd) rfl ?_ room
    intro room
    have hdisjunction := ih room _ _ hused (hrest.mono (by simp [stops]))
    rw [resume, joinMore_of_avoids (hrest.mono (by simp [stops]))] at hdisjunction
    exact hdisjunction.alone (hrest.mono (by simp [stops]))
  | arrow _ _ ihl ihr =>
    intro room used rest hused hrest
    obtain ⟨left, more, rfl, hleft, hmore⟩ := tokens_eq_append hused
    obtain ⟨offset, right, rfl, hright⟩ := tokens_eq_cons hmore
    refine Reads.level (formulaAt textEnd) rfl ?_ room
    intro room
    have hl := ihl room _ (⟨.arrow, offset⟩ :: (right ++ rest)) hleft
      (by simp [stops, Avoids])
    rw [resume, joinMore_of_avoids (by simp [Avoids])] at hl
    rw [List.append_assoc]
    exact hl.arrow (ihr _ _ _ hright hrest)
  | conjunction _ ih =>
    intro room used rest hused hrest
    have hconjunction := ih room _ _ hused (hrest.mono (by simp [stops]))
    rw [resume, joinMore_of_avoids (hrest.mono (by simp [stops]))] at hconjunction
    exact hconjunction.first
  | bar _ _ ihl ihr =>
    intro room used rest hused hrest
    obtain ⟨left, more, rfl, hleft, hmore⟩ := tokens_eq_append hused
    obtain ⟨offset, right, rfl, hright⟩ := tokens_eq_cons hmore
    have hl := ihl room _ (⟨.pipe, offset⟩ :: (right ++ rest)) hleft
      (by simp [stops, Avoids])
    have hr := ihr room _ _ hright (hrest.mono (by simp [stops]))
    rw [resume, joinMore_of_avoids (hrest.mono (by simp [stops]))] at hr
    rw [List.append_assoc]
    exact Reads.joined (sound_at textEnd room).1.conjunction rfl hl hr
  | simple _ ih =>
    intro room used rest hused hrest
    exact (ih _ _ _ hused hrest).first
  | ampersand _ _ ihl ihr =>
    intro room used rest hused hrest
    obtain ⟨left, more, rfl, hleft, hmore⟩ := tokens_eq_append hused
    obtain ⟨offset, right, rfl, hright⟩ := tokens_eq_cons hmore
    have hl := ihl room _ (⟨.amp, offset⟩ :: (right ++ rest)) hleft
      (by simp [stops, Avoids])
    rw [List.append_assoc]
    exact Reads.joined (sound_at textEnd room).1 rfl hl (ihr _ _ _ hright hrest)
  | bang _ ih =>
    intro room used rest hused hrest
    obtain ⟨offset, more, rfl, hmore⟩ := tokens_eq_cons hused
    exact Reads.level (simpleAt textEnd) rfl (fun room => (ih _ _ _ hmore hrest).map) room
  | operator hmem _ ih =>
    intro room used rest hused hrest
    obtain ⟨offset, more, rfl, hmore⟩ := tokens_eq_cons hused
    refine Reads.level (simpleAt textEnd) rfl ?_ room
    intro room
    show Reads room _ (afterWord _ _ _ (more ++ rest)) _
    rw [afterWord_operator (operator?_of_mem hmem)]
    exact (ih _ _ _ hmore hrest).map
  | «until» hmem _ _ ihl ihr =>
    intro room used rest hused hrest
    -- The lexemes come apart in the order in which they are read.
    obtain ⟨offset, ls, rfl, h₁⟩ := tokens_eq_cons hused
    obtain ⟨bracket, ls, rfl, h₂⟩ := tokens_eq_cons h₁
    obtain ⟨left, ls, rfl, hleft, h₃⟩ := tokens_eq_append h₂
    obtain ⟨u, ls, rfl, h₄⟩ := tokens_eq_cons h₃
    obtain ⟨right, ls, rfl, hright, h₅⟩ := tokens_eq_append h₄
    obtain ⟨close, ls, rfl, h₆⟩ := tokens_eq_cons h₅
    obtain rfl := List.map_eq_nil_iff.1 h₆
    obtain ⟨hnone, hnode⟩ := untilOperator?_of_mem hmem
    refine Reads.level (simpleAt textEnd) rfl ?_ room
    intro room
    have hr := ihr room _ (⟨.rightBracket, close⟩ :: rest) hright
      (by simp [stops, Avoids])
    have hl := ihl room _ (⟨.word "U", u⟩ :: (right ++ ⟨.rightBracket, close⟩ :: rest)) hleft
      (by simp [stops, Avoids])
    simp only [List.cons_append, List.append_assoc, List.nil_append]
    show Reads room _ (afterWord _ _ _ (⟨.leftBracket, bracket⟩ :: _)) _
    rw [afterWord_until hnone hnode]
    exact hl.untilBody hr
  | parentheses _ ih =>
    intro room used rest hused hrest
    obtain ⟨offset, ls, rfl, h₁⟩ := tokens_eq_cons hused
    obtain ⟨inner, ls, rfl, hinner, h₂⟩ := tokens_eq_append h₁
    obtain ⟨close, ls, rfl, h₃⟩ := tokens_eq_cons h₂
    obtain rfl := List.map_eq_nil_iff.1 h₃
    refine Reads.level (simpleAt textEnd) rfl ?_ room
    intro room
    have hi := ih room _ (⟨.rightParen, close⟩ :: rest) hinner
      (by simp [stops, Avoids])
    simp only [List.cons_append, List.append_assoc, List.nil_append]
    exact hi.closed id
  | top =>
    intro room used rest hused hrest
    obtain ⟨offset, more, rfl, hmore⟩ := tokens_eq_cons hused
    obtain rfl := List.map_eq_nil_iff.1 hmore
    exact .word rfl hrest
  | bot =>
    intro room used rest hused hrest
    obtain ⟨offset, more, rfl, hmore⟩ := tokens_eq_cons hused
    obtain rfl := List.map_eq_nil_iff.1 hmore
    exact .word rfl hrest
  | atom hname =>
    intro room used rest hused hrest
    obtain ⟨offset, more, rfl, hmore⟩ := tokens_eq_cons hused
    obtain rfl := List.map_eq_nil_iff.1 hmore
    rw [← ofWord_of_atom hname]
    exact .word (operator?_of_atom hname) hrest

end FormulaReader

/-! ## Formulas as a whole -/

open Grammar FormulaReader Lexeme

variable {ls : List Lexeme} {ts : List Token} {f g : Formula} {textEnd d e : Nat}

/-- How a whole list of lexemes is read that spells a formula. -/
theorem Formula.reads_tokens (textEnd room : Nat) (h : Derives .formula d (tokens ls) f) :
    Reads room d (formulaAt textEnd room ls) (.ok (f, [])) := by
  have hreads := reads_of_derives textEnd h room ls [] rfl trivial
  rwa [List.append_nil] at hreads

theorem Formula.ofLexemes_eq_ok :
    Formula.ofLexemes textEnd ls = .ok f ↔
      ∃ d, d ≤ maxDepth ∧ Derives .formula d (tokens ls) f := by
  constructor
  · intro h
    unfold Formula.ofLexemes at h
    split at h
    · next hread =>
      cases h
      obtain ⟨used, d, rfl, hd, hderives⟩ := (sound_at textEnd maxDepth).2 _ _ _ hread
      exact ⟨d, hd, by rwa [List.append_nil]⟩
    · cases h
    · cases h
  · rintro ⟨d, hd, h⟩
    rw [Formula.ofLexemes, (Formula.reads_tokens textEnd maxDepth h).ok hd]

theorem Formula.ofLexemes_tooDeep (h : Derives .formula d (tokens ls) f) (hd : maxDepth < d) :
    ∃ offset, Formula.ofLexemes textEnd ls = .error (.tooDeep offset) := by
  obtain ⟨offset, h⟩ := (Formula.reads_tokens textEnd maxDepth h).tooDeep hd
  exact ⟨offset, by rw [Formula.ofLexemes, h]⟩

/-- Tokens spell at most one formula, and in one way: both derivations are read by one reader. -/
theorem Grammar.Derives.unique (h : Derives .formula d ts f) (h' : Derives .formula e ts g) :
    f = g ∧ d = e := by
  obtain ⟨ls, rfl⟩ : ∃ ls, ts = tokens ls :=
    ⟨ts.map fun t => ⟨t, 0⟩, by simp [tokens, Function.comp_def]⟩
  have hf := fun room => Formula.reads_tokens 0 room h
  have hg := fun room => Formula.reads_tokens 0 room h'
  rcases Nat.lt_trichotomy d e with hlt | rfl | hlt
  · -- With the levels of the one, the other would be refused.
    obtain ⟨offset, hdeep⟩ := (hg d).tooDeep hlt
    rw [(hf d).ok (Nat.le_refl d)] at hdeep
    cases hdeep
  · have heq := ((hf d).ok (Nat.le_refl d)).symm.trans ((hg d).ok (Nat.le_refl d))
    cases heq
    exact ⟨rfl, rfl⟩
  · obtain ⟨offset, hdeep⟩ := (hf e).tooDeep hlt
    rw [(hg e).ok (Nat.le_refl e)] at hdeep
    cases hdeep

theorem Formula.parse_of_ofText {text : String} (h : Lexeme.ofText text = .ok ls) :
    Formula.parse text = Formula.ofLexemes text.utf8ByteSize ls := by
  rw [Formula.parse, h]

/-- A text is read as a formula exactly if its tokens spell the formula in no more than 256 levels;
they spell no other; and if they take more levels, the text is refused for that. -/
theorem Formula.parse_eq_ok_iff_derives (text : String) (f : Formula) :
    (Formula.parse text = .ok f ↔
      ∃ ls d, Lexeme.ofText text = .ok ls ∧ d ≤ 256 ∧ Derives .formula d (tokens ls) f) ∧
    (∀ ts g d e, Derives .formula d ts f → Derives .formula e ts g → f = g) ∧
    ∀ ls d, Lexeme.ofText text = .ok ls → Derives .formula d (tokens ls) f → 256 < d →
      ∃ offset, Formula.parse text = .error (.tooDeep offset) := by
  refine ⟨?_, fun ts g d e h h' => (h.unique h').1, ?_⟩
  · cases htext : Lexeme.ofText text with
    | error err => simp [Formula.parse, htext]
    | ok ls =>
      rw [Formula.parse_of_ofText htext, Formula.ofLexemes_eq_ok]
      constructor
      · rintro ⟨d, hd, h⟩
        exact ⟨ls, d, rfl, hd, h⟩
      · rintro ⟨_, d, ⟨⟩, hd, h⟩
        exact ⟨d, hd, h⟩
  · intro ls d htext h hd
    rw [Formula.parse_of_ofText htext]
    exact Formula.ofLexemes_tooDeep h hd

end ActorLogic
