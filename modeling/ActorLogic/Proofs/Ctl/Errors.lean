import ActorLogic.Proofs.Ctl.Beginnings
/-!
# Errors at the earliest token

A reader is prompt if it never looks further than the token that follows what it has read. So the
tokens up to there decide what it answers. If it refuses that token, no other tokens behind it could
make the reader accept; if it refuses the token or finds none, then what it has read is still
the beginning of a phrase. There is a rule for each way in which readers are put together.
-/

namespace ActorLogic

open Grammar Lexeme Result

namespace FormulaReader

variable {ls more rest used : List Lexeme} {l : Lexeme} {token : Token} {avoided ts : List Token}
  {reader body operand simple formula : FormulaReader} {begins : List Token → Prop}
  {expected : Expected} {f left : Formula} {name : String} {one joinedAs : Category}
  {textEnd room d : Nat} {join : Formula → Formula → Formula}

/-! ## One token ahead -/

/-- The lists go on alike, as far as one token tells. -/
def Facing (more rest : List Lexeme) : Prop := (tokens more).head? = (tokens rest).head?

theorem Facing.append {again : List Lexeme} (h : Facing more rest)
    (htokens : tokens again = tokens used) : Facing (again ++ more) (used ++ rest) := by
  rw [Facing, tokens_append, tokens_append, htokens, List.head?_append, List.head?_append, h]

theorem Facing.eq_nil (h : Facing more []) : more = [] := by
  cases more with
  | nil => rfl
  | cons l more => cases h

theorem Facing.eq_cons {offset : Nat} (h : Facing more (⟨token, offset⟩ :: rest)) :
    ∃ place behind, more = ⟨token, place⟩ :: behind := by
  cases more with
  | nil => cases h
  | cons l behind =>
    obtain ⟨found, place⟩ := l
    cases h
    exact ⟨place, behind, rfl⟩

theorem Facing.avoids (h : Facing more rest) (hrest : Avoids avoided rest) :
    Avoids avoided more := by
  cases rest with
  | nil =>
    rw [h.eq_nil]
    trivial
  | cons l rest =>
    obtain ⟨place, behind, rfl⟩ := h.eq_cons
    exact hrest

/-- The tokens that were used and the next one decide what the reader answers. -/
def Decides (reader : FormulaReader) (used rest : List Lexeme)
    (answer : List Lexeme → Except SyntaxError (Formula × List Lexeme) → Prop) : Prop :=
  ∀ again more, tokens again = tokens used → Facing more rest → answer more (reader (again ++ more))

/-- One reader, and then another that depends on what the first one found. -/
def andThen (reader : FormulaReader) (next : Formula → FormulaReader) : FormulaReader :=
  fun ls => reader ls >>= fun (f, rest) => next f rest

namespace Decides

variable {answer : List Lexeme → Except SyntaxError (Formula × List Lexeme) → Prop}

theorem nil (h : ∀ more, Facing more rest → answer more (reader more)) :
    Decides reader [] rest answer := by
  intro again more htokens hface
  obtain rfl := List.map_eq_nil_iff.1 htokens
  exact h more hface

/-- Whatever starts with the token comes to the reader of what is behind it. -/
theorem take {offset : Nat} (hreader : ∀ offset rest, reader (⟨token, offset⟩ :: rest) = body rest)
    (h : Decides body used rest answer) : Decides reader (⟨token, offset⟩ :: used) rest answer := by
  intro again more htokens hface
  obtain ⟨place, behind, rfl, hbehind⟩ := tokens_eq_cons htokens
  rw [List.cons_append, hreader]
  exact h behind more hbehind hface

/-- What the first reader leaves starts as the second one expects. -/
theorem andThen {next : Formula → FormulaReader} {part : List Lexeme}
    (hfirst : Decides reader used (part ++ rest) fun more a => a = .ok (f, more))
    (hsecond : Decides (next f) part rest answer) :
    Decides (andThen reader next) (used ++ part) rest answer := by
  intro again more htokens hface
  rw [tokens_append] at htokens
  obtain ⟨one, two, rfl, hone, htwo⟩ := tokens_eq_append htokens
  rw [FormulaReader.andThen, List.append_assoc, hfirst one _ hone (hface.append htwo), ok_bind]
  exact hsecond two more htwo hface

end Decides

/-- The reader looks one token ahead, and does so only behind the beginning of a phrase. The fields
are for the three kinds of answers; a text that is nested too deep may be refused for that
anywhere. -/
structure Prompt (reader : FormulaReader) (begins : List Token → Prop) (ls : List Lexeme) :
    Prop where
  found : ∀ f rest, reader ls = .ok (f, rest) →
    ∃ used, ls = used ++ rest ∧ Decides reader used rest fun more answer => answer = .ok (f, more)
  refused : ∀ expected token offset,
    reader ls = .error (.unexpectedToken expected token offset) →
    ∃ before after, ls = before ++ ⟨token, offset⟩ :: after ∧ begins (tokens before) ∧
      Decides reader before (⟨token, offset⟩ :: after) fun _ answer => ∃ e, answer = .error e
  ended : ∀ expected, reader ls = .error (.unexpectedEnd expected) → begins (tokens ls)

namespace Prompt

theorem mono {begins' : List Token → Prop} (h : Prompt reader begins' ls)
    (himp : ∀ ts, begins' ts → begins ts) : Prompt reader begins ls where
  found := h.found
  refused expected token offset herr := by
    obtain ⟨before, after, hls, hbegins, hdecides⟩ := h.refused expected token offset herr
    exact ⟨before, after, hls, himp _ hbegins, hdecides⟩
  ended expected herr := himp _ (h.ended expected herr)

/-- A reader that takes nothing, for what comes next. -/
theorem stop (h : ∀ more, Facing more ls → reader more = .ok (f, more)) :
    Prompt reader begins ls := by
  have hls := h ls rfl
  refine ⟨fun g rest hok => ?_, fun _ _ _ herr => ?_, fun _ herr => ?_⟩
  · cases hls.symm.trans hok
    exact ⟨[], rfl, .nil h⟩
  · cases hls.symm.trans herr
  · cases hls.symm.trans herr

theorem tooDeep {offset : Nat} (h : reader ls = .error (.tooDeep offset)) :
    Prompt reader begins ls := by
  refine ⟨fun _ _ hok => ?_, fun _ _ _ herr => ?_, fun _ herr => ?_⟩
  · cases h.symm.trans hok
  · cases h.symm.trans herr
  · cases h.symm.trans herr

/-- Something has to come next, and nothing does. -/
theorem missing (h : reader [] = .error (.unexpectedEnd expected)) (hbegins : begins []) :
    Prompt reader begins [] := by
  refine ⟨fun _ _ hok => ?_, fun _ _ _ herr => ?_, fun _ _ => hbegins⟩
  · cases h.symm.trans hok
  · cases h.symm.trans herr

/-- The next token is refused, wherever it stands. -/
theorem refuses {offset : Nat}
    (h : ∀ offset rest, reader (⟨token, offset⟩ :: rest) =
      .error (.unexpectedToken expected token offset)) (hbegins : begins []) :
    Prompt reader begins (⟨token, offset⟩ :: rest) := by
  refine ⟨fun _ _ hok => ?_, fun _ _ _ herr => ?_, fun _ herr => ?_⟩
  · cases (h offset rest).symm.trans hok
  · cases (h offset rest).symm.trans herr
    refine ⟨[], rest, rfl, hbegins, .nil fun more hface => ?_⟩
    obtain ⟨place, behind, rfl⟩ := hface.eq_cons
    exact ⟨_, h place behind⟩
  · cases (h offset rest).symm.trans herr

/-- The next token is taken, wherever it stands. -/
theorem take {offset : Nat} (hreader : ∀ offset rest, reader (⟨token, offset⟩ :: rest) = body rest)
    (h : Prompt body (fun ts => begins (token :: ts)) rest) :
    Prompt reader begins (⟨token, offset⟩ :: rest) := by
  refine ⟨fun f after hok => ?_, fun e found place herr => ?_, fun e herr => ?_⟩
  · obtain ⟨used, rfl, hused⟩ := h.found f after (hreader offset rest ▸ hok)
    exact ⟨⟨token, offset⟩ :: used, rfl, hused.take hreader⟩
  · obtain ⟨before, after, rfl, hbegins, hbefore⟩ :=
      h.refused e found place (hreader offset rest ▸ herr)
    exact ⟨⟨token, offset⟩ :: before, after, rfl, hbegins, hbefore.take hreader⟩
  · exact h.ended e (hreader offset rest ▸ herr)

theorem andThen {next : Formula → FormulaReader} (h : Prompt reader begins ls)
    (hnext : ∀ f used rest, ls = used ++ rest → reader ls = .ok (f, rest) →
      Prompt (next f) (fun ts => begins (tokens used ++ ts)) rest) :
    Prompt (andThen reader next) begins ls := by
  cases hfirst : reader ls with
  | error err =>
    have hstops : FormulaReader.andThen reader next ls = .error err := by
      rw [FormulaReader.andThen, hfirst]
      rfl
    refine ⟨fun _ _ hok => ?_, fun e token offset herr => ?_, fun e herr => ?_⟩
    · cases hstops.symm.trans hok
    · cases hstops.symm.trans herr
      obtain ⟨before, after, hls, hbegins, hbefore⟩ := h.refused e token offset hfirst
      refine ⟨before, after, hls, hbegins, fun again more htokens hface => ?_⟩
      obtain ⟨e', he'⟩ := hbefore again more htokens hface
      exact ⟨e', by rw [FormulaReader.andThen, he']; rfl⟩
    · cases hstops.symm.trans herr
      exact h.ended e hfirst
  | ok result =>
    obtain ⟨f, mid⟩ := result
    have hgoes : FormulaReader.andThen reader next ls = next f mid := by
      rw [FormulaReader.andThen, hfirst, ok_bind]
    obtain ⟨used, rfl, hused⟩ := h.found f mid hfirst
    have hmid := hnext f used mid rfl hfirst
    refine ⟨fun g rest hok => ?_, fun e token offset herr => ?_, fun e herr => ?_⟩
    · obtain ⟨part, rfl, hpart⟩ := hmid.found g rest (hgoes ▸ hok)
      exact ⟨used ++ part, (List.append_assoc ..).symm, hused.andThen hpart⟩
    · obtain ⟨part, after, rfl, hbegins, hpart⟩ := hmid.refused e token offset (hgoes ▸ herr)
      refine ⟨used ++ part, after, (List.append_assoc ..).symm, ?_, hused.andThen hpart⟩
      rwa [tokens_append]
    · rw [tokens_append]
      exact hmid.ended e (hgoes ▸ herr)

theorem map (node : Formula → Formula) (h : Prompt reader begins ls) :
    Prompt (fun ls => (reader ls).map fun (f, rest) => (node f, rest)) begins ls := by
  have hthen : (fun ls => (reader ls).map fun (f, rest) => (node f, rest)) =
      FormulaReader.andThen reader fun f rest => .ok (node f, rest) := by
    funext ls
    rw [FormulaReader.andThen]
    cases reader ls <;> rfl
  rw [hthen]
  exact h.andThen fun f used rest _ _ => .stop fun _ _ => rfl

/-- A token that has to come next, and then a reader. -/
theorem expect (hbegins : begins [])
    (h : ∀ rest, Prompt body (fun ts => begins (token :: ts)) rest) :
    Prompt (fun ls => FormulaReader.expect token expected ls >>= body) begins ls := by
  cases ls with
  | nil => exact .missing rfl hbegins
  | cons l rest =>
    obtain ⟨found, offset⟩ := l
    by_cases heq : found = token
    · subst heq
      exact .take (fun _ _ => by rw [expect_ok, ok_bind]) (h rest)
    · have hrefuses : ∀ offset rest,
          (FormulaReader.expect token expected (⟨found, offset⟩ :: rest) >>= body) =
            .error (.unexpectedToken expected found offset) := by
        intro offset rest
        rw [FormulaReader.expect, if_neg heq]
        rfl
      exact .refuses hrefuses hbegins

end Prompt

/-! ## Joined operands -/

/-- What a sound reader used is a phrase. -/
theorem Sound.derives (h : Sound reader one room) (hok : reader (used ++ rest) = .ok (f, rest)) :
    ∃ d, d ≤ room ∧ Derives one d (tokens used) f := by
  obtain ⟨used', d, heq, hd, hderives⟩ := h _ _ _ hok
  obtain rfl := List.append_cancel_right heq
  exact ⟨d, hd, hderives⟩

/-- Behind a separator an operand is read, and then more of them. -/
theorem joinMore_cons (hoperand : Sound operand one room) {offset : Nat} :
    joinMore token join operand (⟨token, offset⟩ :: rest).length left (⟨token, offset⟩ :: rest) =
      andThen operand (fun right rest =>
        joinMore token join operand rest.length (join left right) rest) rest := by
  rw [List.length_cons, joinMore, if_pos rfl, andThen]
  cases hright : operand rest with
  | error e => rfl
  | ok result =>
    obtain ⟨right, after⟩ := result
    obtain ⟨used, d, rfl, -, -⟩ := hoperand _ _ _ hright
    exact joinMore_fuel hoperand (by simp) (Nat.le_refl _)

theorem Prompt.joinMore (hsound : Sound operand one room)
    (hoperand : ∀ ls, Prompt operand (Begins one room) ls)
    (hmore : ∀ {d e ts us f g}, Derives joinedAs d ts f → Derives one e us g →
      Derives joinedAs (max d e) (ts ++ token :: us) (join f g))
    (hd : d ≤ room) (hleft : Derives joinedAs d ts left) :
    Prompt (fun ls => FormulaReader.joinMore token join operand ls.length left ls)
      (fun us => Begins joinedAs room (ts ++ us)) ls := by
  induction hlength : ls.length using Nat.strongRecOn generalizing ls ts d left with
  | ind n ih =>
    subst hlength
    cases ls with
    | nil => exact .stop fun more hface => by rw [hface.eq_nil]; rfl
    | cons l rest =>
      obtain ⟨found, offset⟩ := l
      by_cases heq : found = token
      · subst heq
        refine .take (fun _ _ => joinMore_cons hsound) (.andThen ?_ ?_)
        · exact (hoperand rest).mono fun us hus => .joined hmore hleft hd hus
        · rintro right used after rfl hright
          obtain ⟨e, he, hderives⟩ := hsound.derives hright
          have hshorter : after.length < (⟨found, offset⟩ :: (used ++ after)).length := by
            rw [List.length_cons, List.length_append]
            omega
          refine (ih _ hshorter (Nat.max_le.2 ⟨hd, he⟩) (hmore hleft hderives) rfl).mono ?_
          intro us hus
          rwa [List.append_assoc, List.cons_append] at hus
      · exact .stop fun more hface =>
          joinMore_of_avoids (hface.avoids fun hmem => heq (List.mem_singleton.1 hmem))

theorem Prompt.joined (hsound : Sound operand one room)
    (hoperand : ∀ ls, Prompt operand (Begins one room) ls)
    (hone : ∀ {d ts f}, Derives one d ts f → Derives joinedAs d ts f)
    (hmore : ∀ {d e ts us f g}, Derives joinedAs d ts f → Derives one e us g →
      Derives joinedAs (max d e) (ts ++ token :: us) (join f g)) (ls : List Lexeme) :
    Prompt (FormulaReader.joined token join operand) (Begins joinedAs room) ls := by
  have hthen : FormulaReader.joined token join operand = FormulaReader.andThen operand
      fun first rest => FormulaReader.joinMore token join operand rest.length first rest := by
    funext ls
    rw [FormulaReader.joined, FormulaReader.andThen]
    cases operand ls <;> rfl
  rw [hthen]
  refine .andThen ((hoperand ls).mono fun _ hbegins => hbegins.first hone) ?_
  rintro first used rest rfl hfirst
  obtain ⟨d, hd, hderives⟩ := hsound.derives hfirst
  exact .joinMore hsound hoperand hmore hd (hone hderives)

/-! ## Formulas and simple formulas -/

section Formulas

variable (hsound : Sound simple .simple room) (hsimple : ∀ ls, Prompt simple (Begins .simple room) ls)
  (hformula : ∀ ls, Prompt formula (Begins .formula room) ls)

include hsound hsimple

theorem Prompt.conjunction (ls : List Lexeme) :
    Prompt (conjunction simple) (Begins .conjunction room) ls :=
  .joined hsound hsimple .simple .ampersand ls

theorem Prompt.disjunction (ls : List Lexeme) :
    Prompt (disjunction simple) (Begins .disjunction room) ls :=
  .joined hsound.conjunction (.conjunction hsound hsimple) .conjunction .bar ls

/-- What follows a disjunction: an arrow and a formula, or nothing that belongs to it. -/
def afterDisjunction (formula : FormulaReader) (left : Formula) : FormulaReader
  | ⟨.arrow, _⟩ :: rest => (formula rest).map fun (right, rest) => (.implies left right, rest)
  | ls => .ok (left, ls)

include hformula

theorem Prompt.implication (ls : List Lexeme) :
    Prompt (implication simple formula) (Begins .formula (room + 1)) ls := by
  have hthen : FormulaReader.implication simple formula =
      FormulaReader.andThen (FormulaReader.disjunction simple) (afterDisjunction formula) := by
    funext ls
    rw [FormulaReader.implication, FormulaReader.andThen]
    cases FormulaReader.disjunction simple ls with
    | error e => rfl
    | ok result =>
      obtain ⟨left, _ | ⟨⟨token, offset⟩, rest⟩⟩ := result
      · rfl
      · rw [ok_bind]
        cases token with
        | arrow =>
          dsimp only [afterDisjunction]
          cases formula rest <;> rfl
        | _ => rfl
  rw [hthen]
  refine .andThen ((Prompt.disjunction hsound hsimple ls).mono fun _ => .plain) ?_
  rintro left used rest rfl hleft
  obtain ⟨d, hd, hderives⟩ := hsound.disjunction.derives hleft
  cases rest with
  | nil => exact .stop fun more hface => by rw [hface.eq_nil]; rfl
  | cons l rest =>
    obtain ⟨token, offset⟩ := l
    by_cases heq : token = .arrow
    · subst heq
      exact .take (fun _ _ => rfl) (.map _ ((hformula rest).mono fun _ => .arrow hderives hd))
    · refine .stop (f := left) fun more hface => ?_
      obtain ⟨place, behind, rfl⟩ := hface.eq_cons
      unfold afterDisjunction
      split
      · next h =>
        cases h
        exact absurd rfl heq
      · rfl

end Formulas

section SimpleFormulas

variable (hsound : Sound formula .formula room)
  (hformula : ∀ ls, Prompt formula (Begins .formula room) ls)

include hsound hformula

/-- A formula and the token that closes it. -/
theorem Prompt.closed {close : Token} (node : Formula → Formula)
    (hbegins : ∀ us, Begins .formula room us → begins us) (ls : List Lexeme) :
    Prompt (FormulaReader.andThen formula fun f ls =>
      FormulaReader.expect close expected ls >>= fun ls => pure (node f, ls)) begins ls := by
  refine .andThen ((hformula ls).mono hbegins) ?_
  rintro f used rest rfl hok
  obtain ⟨d, hd, hderives⟩ := hsound.derives hok
  refine .expect ?_ fun rest => .stop fun _ _ => rfl
  rw [List.append_nil]
  exact hbegins _ (hderives.begins hd)

/-- What stands behind the opening bracket of an until formula. -/
theorem Prompt.untilBody {node : Formula → Formula → Formula} (hmem : (name, node) ∈ untilWords)
    (ls : List Lexeme) :
    Prompt (untilBody node formula)
      (fun ts => Begins .simple (room + 1) (.word name :: .leftBracket :: ts)) ls := by
  have hthen : FormulaReader.untilBody node formula = FormulaReader.andThen formula
      fun hold ls => FormulaReader.expect (.word "U") .untilWord ls >>=
        FormulaReader.andThen formula fun goal ls =>
          FormulaReader.expect .rightBracket .closingBracket ls >>= fun ls =>
            pure (node hold goal, ls) := rfl
  rw [hthen]
  refine .andThen ((hformula ls).mono fun us hus => hus.untilHold hmem) ?_
  rintro hold used rest rfl hhold
  obtain ⟨d, hd, hderives⟩ := hsound.derives hhold
  refine .expect ?_ fun rest =>
    .closed hsound hformula (node hold) (fun us => .untilGoal hmem hderives hd) rest
  rw [List.append_nil]
  exact .untilHold hmem (hderives.begins hd)

/-- What stands behind a word. -/
theorem Prompt.afterWord (hsimple : ∀ ls, Prompt simple (Begins .simple room) ls)
    (ls : List Lexeme) :
    Prompt (afterWord simple formula name) (fun ts => Begins .simple (room + 1) (.word name :: ts))
      ls := by
  cases hop : operator? name with
  | some node =>
    have hmem := operator?_eq_some hop
    have heq : FormulaReader.afterWord simple formula name = fun ls =>
        (simple ls).map fun (f, rest) => (node f, rest) := funext fun ls => afterWord_operator hop
    rw [heq]
    exact .map node ((hsimple ls).mono fun us => .operator hmem)
  | none =>
    by_cases havoids : Avoids [.leftBracket] ls
    · exact .stop fun more hface => afterWord_alone hop (hface.avoids havoids)
    · cases ls with
      | nil => exact absurd trivial havoids
      | cons l rest =>
        obtain ⟨token, offset⟩ := l
        obtain rfl : token = .leftBracket := by simpa [Avoids] using havoids
        cases huntil : untilOperator? name with
        | some node =>
          exact .take (fun _ _ => afterWord_until hop huntil)
            (.untilBody hsound hformula (untilOperator?_eq_some huntil) rest)
        | none =>
          -- The bracket does not belong to the word, which stands alone.
          refine .stop (f := ofWord name) fun more _ => ?_
          simp only [FormulaReader.afterWord, hop, huntil]

theorem Prompt.primary (hsimple : ∀ ls, Prompt simple (Begins .simple room) ls)
    (ls : List Lexeme) : Prompt (primary simple formula) (Begins .simple (room + 1)) ls := by
  cases ls with
  | nil => exact .missing rfl begins_simple_nil
  | cons l rest =>
    obtain ⟨token, offset⟩ := l
    cases token with
    | bang => exact .take (fun _ _ => rfl) (.map _ ((hsimple rest).mono fun us => .bang))
    | leftParen =>
      exact .take (fun _ _ => rfl) (.closed hsound hformula id (fun us hus => hus.parentheses) rest)
    | word name => exact .take (fun _ _ => rfl) (.afterWord hsound hformula hsimple rest)
    | amp | pipe | arrow | rightParen | leftBracket | rightBracket =>
      exact .refuses (fun _ _ => rfl) begins_simple_nil

end SimpleFormulas

/-- With some levels left, the readers are prompt. -/
theorem prompt_at (textEnd room : Nat) :
    (∀ ls, Prompt (simpleAt textEnd room) (Begins .simple room) ls) ∧
      ∀ ls, Prompt (formulaAt textEnd room) (Begins .formula room) ls := by
  induction room with
  | zero => exact ⟨fun ls => .tooDeep rfl, fun ls => .tooDeep rfl⟩
  | succ room ih =>
    obtain ⟨hsimple, hformula⟩ := ih
    obtain ⟨hsound, hsound'⟩ := sound_at textEnd room
    exact ⟨fun ls => .primary hsound' hformula hsimple ls,
      fun ls => .implication hsound hsimple hformula ls⟩

end FormulaReader

/-! ## Whole texts -/

namespace Formula

open FormulaReader

variable {before ls : List Lexeme} {token : Token} {expected : Expected} {offset textEnd d : Nat}
  {ts : List Token} {f : Formula}

/-- A formula could be read from whatever tokens the grammar derives. -/
theorem not_derives_of_ofLexemes
    (h : ∀ behind f, ofLexemes textEnd (before ++ ⟨token, offset⟩ :: behind) ≠ .ok f)
    (hd : d ≤ maxDepth) : ¬ Derives .formula d (tokens before ++ token :: ts) f := by
  intro hderives
  let behind : List Lexeme := ts.map fun t => ⟨t, 0⟩
  have hbehind : tokens behind = ts := by simp [behind, tokens, Function.comp_def]
  refine h behind f (ofLexemes_eq_ok.2 ⟨d, hd, ?_⟩)
  rwa [tokens_append, tokens_cons, hbehind]

/-- The token that is refused stands behind the beginning of a formula, and no formula goes on with
it. -/
theorem begins_of_unexpectedToken
    (h : ofLexemes textEnd ls = .error (.unexpectedToken expected token offset)) :
    ∃ before after, ls = before ++ ⟨token, offset⟩ :: after ∧
      Begins .formula maxDepth (tokens before) ∧
      ∀ ts d f, d ≤ maxDepth → ¬ Derives .formula d (tokens before ++ token :: ts) f := by
  have hprompt := (prompt_at textEnd maxDepth).2 ls
  unfold ofLexemes at h
  split at h
  · cases h
  · next f l rest hread =>
    cases h
    -- A formula was read, and the token stands behind it.
    obtain ⟨used, rfl, hused⟩ := hprompt.found _ _ hread
    obtain ⟨d, hd, hderives⟩ := (sound_at textEnd maxDepth).2.derives hread
    have hnone : ∀ behind g, ofLexemes textEnd (used ++ ⟨l.token, l.offset⟩ :: behind) ≠ .ok g := by
      intro behind g hok
      rw [ofLexemes, hused used (⟨l.token, l.offset⟩ :: behind) rfl rfl] at hok
      cases hok
    exact ⟨used, rest, rfl, hderives.begins hd, fun ts d f hd => not_derives_of_ofLexemes hnone hd⟩
  · next hread =>
    cases h
    obtain ⟨used, rest, rfl, hbegins, hused⟩ := hprompt.refused _ _ _ hread
    have hnone : ∀ behind g, ofLexemes textEnd (used ++ ⟨token, offset⟩ :: behind) ≠ .ok g := by
      intro behind g hok
      obtain ⟨e, hagain⟩ := hused used (⟨token, offset⟩ :: behind) rfl rfl
      rw [ofLexemes, hagain] at hok
      cases hok
    exact ⟨used, rest, rfl, hbegins, fun ts d f hd => not_derives_of_ofLexemes hnone hd⟩

/-- Lexemes that end too early are the beginning of a formula. -/
theorem begins_of_unexpectedEnd (h : ofLexemes textEnd ls = .error (.unexpectedEnd expected)) :
    Begins .formula maxDepth (tokens ls) := by
  unfold ofLexemes at h
  split at h
  · cases h
  · cases h
  · next hread =>
    cases h
    exact ((prompt_at textEnd maxDepth).2 ls).ended _ hread

/-- A text that is cut into tokens and refused for one of them is refused for the earliest one that
no accepted text has there: some accepted text starts with the tokens before it, and none goes on
with it. The error names that token and its place. If a text is refused for its end, some accepted
text goes on behind it. -/
theorem parse_error_earliest {text : String} (htext : Lexeme.ofText text = .ok ls) :
    (∀ expected found offset,
      Formula.parse text = .error (.unexpectedToken expected found offset) →
      ∃ before after, ls = before ++ ⟨found, offset⟩ :: after ∧
        Lexeme.StandsIn ⟨found, offset⟩ 0 text.toList ∧
        (∃ more, Accepted (tokens before ++ more)) ∧
        ¬ ∃ more, Accepted (tokens before ++ found :: more)) ∧
    ∀ expected, Formula.parse text = .error (.unexpectedEnd expected) →
      ∃ more, more ≠ [] ∧ Accepted (tokens ls ++ more) := by
  have hrenders := ofText_eq_ok.1 htext
  rw [parse_of_ofText htext]
  constructor
  · intro expected found offset herr
    obtain ⟨before, after, rfl, hbegins, hnone⟩ := begins_of_unexpectedToken herr
    refine ⟨before, after, rfl, hrenders.standsIn _ (by simp), ?_, ?_⟩
    · exact hbegins.accepted fun name hname =>
        hrenders.isIdentifier (by rw [tokens_append]; exact List.mem_append_left _ hname)
    · rintro ⟨more, hmore⟩
      obtain ⟨-, d, f, hd, hderives⟩ := accepted_iff.1 hmore
      exact hnone more d f hd hderives
  · intro expected herr
    obtain ⟨more, hmore⟩ := (begins_of_unexpectedEnd herr).accepted fun name => hrenders.isIdentifier
    refine ⟨more, ?_, hmore⟩
    rintro rfl
    -- Otherwise the text would have been accepted itself.
    rw [List.append_nil] at hmore
    obtain ⟨-, d, f, hd, hderives⟩ := accepted_iff.1 hmore
    cases herr.symm.trans (ofLexemes_eq_ok.2 ⟨d, hd, hderives⟩)

/-- An until formula without its word, and one that ends behind an arrow in parentheses. -/
theorem parse_error_earliest_until :
    let ls : List Lexeme :=
      [⟨.word "E", 0⟩, ⟨.leftBracket, 1⟩, ⟨.word "p", 2⟩, ⟨.word "q", 4⟩, ⟨.rightBracket, 5⟩]
    let unclosed : List Lexeme := [⟨.leftParen, 0⟩, ⟨.word "A", 1⟩, ⟨.arrow, 3⟩]
    (Lexeme.ofText "E[p q]" = .ok ls ∧
      Formula.parse "E[p q]" = .error (.unexpectedToken .untilWord (.word "q") 4) ∧
      ∃ before after, ls = before ++ ⟨.word "q", 4⟩ :: after ∧
        Lexeme.StandsIn ⟨.word "q", 4⟩ 0 "E[p q]".toList ∧
        (∃ more, Accepted (tokens before ++ more)) ∧
        ¬ ∃ more, Accepted (tokens before ++ .word "q" :: more)) ∧
    Lexeme.ofText "(A ->" = .ok unclosed ∧
      Formula.parse "(A ->" = .error (.unexpectedEnd .formula) ∧
      ∃ more, more ≠ [] ∧ Accepted (tokens unclosed ++ more) := by
  intro ls unclosed
  have hls : Lexeme.ofText "E[p q]" = .ok ls := by
    refine ofText_eq_ok.2 (@Renders.word 0 'E' [] _ _ rfl nofun rfl (.mark rfl ?_))
    refine @Renders.word 2 'p' [] _ _ rfl nofun rfl (.blank rfl ?_)
    exact @Renders.word 4 'q' [] _ _ rfl nofun rfl (.mark rfl .done)
  have hopen : Lexeme.ofText "(A ->" = .ok unclosed := by
    refine ofText_eq_ok.2 (.mark rfl ?_)
    exact @Renders.word 1 'A' [] _ _ rfl nofun rfl (.blank rfl (.arrow .done))
  have hparse : Formula.parse "E[p q]" = .error (.unexpectedToken .untilWord (.word "q") 4) := by
    rw [parse_of_ofText hls]
    rfl
  have hparse' : Formula.parse "(A ->" = .error (.unexpectedEnd .formula) := by
    rw [parse_of_ofText hopen]
    rfl
  exact ⟨⟨hls, hparse, (parse_error_earliest hls).1 _ _ _ hparse⟩,
    hopen, hparse', (parse_error_earliest hopen).2 _ hparse'⟩

end Formula

end ActorLogic
