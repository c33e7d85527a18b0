import ActorLogic.Proofs.Ctl.RoundTrip
import Mathlib.Data.List.Chain
/-!
# Which texts can be cut

A layout writes tokens one after the other with blanks in front, between and behind. A text is cut
into lexemes exactly if it is a layout of them, and each of them starts behind the bytes that are
written in front of it. A text that cannot be cut is refused for the first character that no other
text with the same beginning gets over, an arrow that is begun and not finished apart.
-/

namespace ActorLogic

open Lexeme

variable {o : Nat} {c : Char} {cs gap : List Char} {token : Token} {ls found now : List Lexeme}
  {lead s name : String} {p q : Piece} {rest pieces : List Piece} {e : SyntaxError}

/-! ## Layouts -/

/-- A token with the gap behind it. -/
structure Piece where
  token : Token
  gap : String
  deriving DecidableEq, Repr

/-- A gap is made of blanks. -/
def IsGap (s : String) : Prop := ∀ c ∈ s.toList, isBlank c = true

/-- Two pieces may follow each other: there is a gap between two words. -/
def Piece.Apart (p q : Piece) : Prop := p.token.isWord = true → q.token.isWord = true → p.gap ≠ ""

/-- A gap, and pieces that may follow it and each other. -/
structure Spaced (lead : String) (pieces : List Piece) : Prop where
  lead : IsGap lead
  gaps : ∀ p ∈ pieces, IsGap p.gap
  tokens : ∀ p ∈ pieces, p.token.WellFormed
  apart : pieces.IsChain Piece.Apart

/-- Tokens one after the other, with a gap in front and one behind each. -/
structure Layout where
  lead : String
  pieces : List Piece
  spaced : Spaced lead pieces

namespace Layout

/-- The text of a gap and the pieces behind it. -/
def write (lead : String) : List Piece → String
  | [] => lead
  | p :: rest => lead ++ (p.token.spelling ++ write p.gap rest)

/-- The tokens, each with the bytes of what is written in front of it. -/
def place (o : Nat) (lead : String) (pieces : List Piece) : List Lexeme :=
  pieces.mapIdx fun i p => ⟨p.token, o + (write lead (pieces.take i)).utf8ByteSize⟩

def text (l : Layout) : String := write l.lead l.pieces

/-- The lexemes that are laid out, each at the offset of its first byte. -/
def lexemes (l : Layout) : List Lexeme := place 0 l.lead l.pieces

theorem toList_write_cons :
    (write lead (p :: rest)).toList =
      lead.toList ++ (p.token.spelling.toList ++ (write p.gap rest).toList) := by
  rw [write, String.toList_append, String.toList_append]

theorem place_cons :
    place o lead (p :: rest) =
      ⟨p.token, o + lead.utf8ByteSize⟩ ::
        place (o + lead.utf8ByteSize + p.token.spelling.utf8ByteSize) p.gap rest := by
  simp only [place, List.mapIdx_cons, List.take_zero, List.take_succ_cons, write,
    String.utf8ByteSize_append, Nat.add_assoc]

/-- A longer gap in front moves everything behind it. -/
theorem write_append : write (s ++ lead) pieces = s ++ write lead pieces := by
  cases pieces with
  | nil => rfl
  | cons p rest => rw [write, write, String.append_assoc]

theorem place_append :
    place o (s ++ lead) pieces = place (o + s.utf8ByteSize) lead pieces := by
  simp only [place, write_append, String.utf8ByteSize_append, Nat.add_assoc]

end Layout

/-! ## Gaps -/

theorem isGap_append {t : String} : IsGap (s ++ t) ↔ IsGap s ∧ IsGap t := by
  rw [IsGap, String.toList_append]
  exact List.forall_mem_append

theorem isBlank_of_isWordPart (h : isWordPart c = true) : isBlank c = false := by
  simp only [isWordPart, Char.isAlphanum, Bool.or_eq_true, beq_iff_eq] at h
  rcases h with ((halpha | hdigit) | rfl) | rfl
  · exact isBlank_of_isWordStart (by simp [isWordStart, halpha])
  · simp only [Char.isDigit, Bool.and_eq_true, decide_eq_true_eq, UInt32.le_iff_toNat_le] at hdigit
    have hrange : 48 ≤ c.toNat ∧ c.toNat ≤ 57 := hdigit
    simp only [isBlank, blankCodes, List.contains_cons, List.contains_nil, Bool.or_false,
      Bool.or_eq_false_iff, beq_eq_false_iff_ne]
    omega
  · rfl
  · rfl

/-- Blanks in front of a rendering move it. -/
theorem Lexeme.Renders.behind_gap (hgap : ∀ c ∈ gap, isBlank c = true)
    (h : Renders (o + (String.ofList gap).utf8ByteSize) cs ls) : Renders o (gap ++ cs) ls := by
  induction gap generalizing o with
  | nil => exact h
  | cons c gap ih =>
    refine .blank (hgap c List.mem_cons_self) (ih (fun x hx => hgap x (List.mem_cons_of_mem c hx)) ?_)
    rwa [String.ofList_cons, String.utf8ByteSize_append, String.utf8ByteSize_singleton,
      ← Nat.add_assoc] at h

/-! ## Layouts and renderings -/

theorem spaced_nil : Spaced "" [] where
  lead := nofun
  gaps := List.forall_mem_nil _
  tokens := List.forall_mem_nil _
  apart := .nil

theorem spaced_cons :
    Spaced lead (p :: rest) ↔
      IsGap lead ∧ p.token.WellFormed ∧ (∀ q ∈ rest.head?, p.Apart q) ∧ Spaced p.gap rest := by
  constructor
  · intro h
    obtain ⟨hnext, hrest⟩ := List.isChain_cons.1 h.apart
    exact ⟨h.lead, h.tokens p List.mem_cons_self, hnext, h.gaps p List.mem_cons_self,
      fun q hq => h.gaps q (List.mem_cons_of_mem p hq),
      fun q hq => h.tokens q (List.mem_cons_of_mem p hq), hrest⟩
  · rintro ⟨hlead, htoken, hnext, hrest⟩
    exact ⟨hlead, List.forall_mem_cons.2 ⟨hrest.lead, hrest.gaps⟩,
      List.forall_mem_cons.2 ⟨htoken, hrest.tokens⟩, List.isChain_cons.2 ⟨hnext, hrest.apart⟩⟩

/-- A mark can stand anywhere, and is no word. -/
theorem Token.wellFormed_of_mark (h : mark? c = some token) :
    token.WellFormed ∧ token.isWord = false := by
  unfold mark? at h
  split at h <;> cases h <;> exact ⟨trivial, rfl⟩

/-- What is spelled starts with a part of a word exactly if it is a word. -/
theorem ends_spelling (htoken : token.WellFormed) :
    Ends (token.spelling.toList ++ cs) ↔ token.isWord = false := by
  cases token with
  | word name =>
    obtain ⟨c, rest, hname, hc, -⟩ := isIdentifier_iff.1 htoken
    simp [Token.spelling, Token.isWord, hname, Ends, isWordPart_of_isWordStart hc]
  | arrow | bang | amp | pipe | leftParen | rightParen | leftBracket | rightBracket =>
    exact iff_of_true rfl rfl

/-- No word runs into a gap and the pieces behind it, unless the gap is empty and a word is next. -/
theorem ends_write (h : Spaced lead pieces) :
    Ends (Layout.write lead pieces).toList ↔
      ∀ q ∈ pieces.head?, q.token.isWord = true → lead ≠ "" := by
  rcases hlead : lead.toList with _ | ⟨c, cs⟩
  · obtain rfl : lead = "" := String.toList_eq_nil_iff.1 hlead
    cases pieces with
    | nil => simp [Layout.write, Ends]
    | cons q rest =>
      rw [Layout.toList_write_cons, hlead, List.nil_append, ends_spelling (spaced_cons.1 h).2.1]
      simp
  · have hne : lead ≠ "" := fun heq => by simp [heq] at hlead
    have hblank : isBlank c = true := h.lead c (hlead ▸ List.mem_cons_self)
    have hpart : isWordPart c = false := by
      rw [← Bool.not_eq_true]
      exact fun hpart => by simp [isBlank_of_isWordPart hpart] at hblank
    refine iff_of_true ?_ fun _ _ _ => hne
    cases pieces with
    | nil => rw [Layout.write, hlead]; exact hpart
    | cons q rest => rw [Layout.toList_write_cons, hlead]; exact hpart

/-- What is laid out is a rendering of the lexemes that are laid out. -/
theorem renders_write (h : Spaced lead pieces) :
    Renders o (Layout.write lead pieces).toList (Layout.place o lead pieces) := by
  induction pieces generalizing o lead with
  | nil =>
    rw [Layout.write, ← List.append_nil lead.toList]
    exact .behind_gap h.lead .done
  | cons p rest ih =>
    obtain ⟨hlead, htoken, hnext, hrest⟩ := spaced_cons.1 h
    rw [Layout.toList_write_cons, Layout.place_cons]
    refine .behind_gap hlead ?_
    rw [String.ofList_toList]
    exact .behind_token htoken (fun hword => (ends_write hrest).2 fun q hq => hnext q hq hword)
      (ih hrest)

/-- A token in front of what is laid out, if it does not run into it. -/
theorem exists_spaced_cons (htoken : token.WellFormed) (hpieces : Spaced lead pieces)
    (hends : token.isWord = true → Ends (Layout.write lead pieces).toList) :
    ∃ lead' pieces', Spaced lead' pieces' ∧
      token.spelling.toList ++ (Layout.write lead pieces).toList =
        (Layout.write lead' pieces').toList ∧
      ⟨token, o⟩ :: Layout.place (o + token.spelling.utf8ByteSize) lead pieces =
        Layout.place o lead' pieces' := by
  refine ⟨"", ⟨token, lead⟩ :: pieces, spaced_cons.2 ⟨nofun, htoken, ?_, hpieces⟩, ?_, ?_⟩
  · exact fun q hq hword => (ends_write hpieces).1 (hends hword) q hq
  · rw [Layout.toList_write_cons]
    rfl
  · rw [Layout.place_cons]
    rfl

/-- Every rendering is laid out in some way. -/
theorem exists_spaced_of_renders (h : Renders o cs ls) :
    ∃ lead pieces, Spaced lead pieces ∧ cs = (Layout.write lead pieces).toList ∧
      ls = Layout.place o lead pieces := by
  induction h with
  | done => exact ⟨"", [], spaced_nil, rfl, rfl⟩
  | @blank o c cs ls hc _ ih =>
    obtain ⟨lead, pieces, hspaced, rfl, rfl⟩ := ih
    refine ⟨String.singleton c ++ lead, pieces, ⟨?_, hspaced.gaps, hspaced.tokens, hspaced.apart⟩,
      ?_, ?_⟩
    · exact isGap_append.2 ⟨by simpa [IsGap] using hc, hspaced.lead⟩
    · rw [Layout.write_append, String.toList_append, String.toList_singleton, List.singleton_append]
    · rw [Layout.place_append, String.utf8ByteSize_singleton]
  | @word o c name cs ls hc hname hends _ ih =>
    obtain ⟨lead, pieces, hspaced, rfl, rfl⟩ := ih
    have hparts := forall_isWordPart hc hname
    have htoken : (Token.word (String.ofList (c :: name))).WellFormed :=
      isIdentifier_iff.2 ⟨c, name, String.toList_ofList, hc, hname⟩
    obtain ⟨lead', pieces', hspaced', htext, hlexemes⟩ :=
      exists_spaced_cons (o := o) htoken hspaced fun _ => hends
    rw [Token.spelling, String.toList_ofList] at htext
    rw [Token.spelling, utf8ByteSize_word hparts] at hlexemes
    exact ⟨lead', pieces', hspaced', htext, hlexemes⟩
  | arrow _ ih =>
    obtain ⟨lead, pieces, hspaced, rfl, rfl⟩ := ih
    have harrow : Token.arrow.WellFormed ∧ Token.arrow.isWord = false := ⟨trivial, rfl⟩
    exact exists_spaced_cons harrow.1 hspaced fun hword => by simp [harrow.2] at hword
  | @mark o c token cs ls hc _ ih =>
    obtain ⟨lead, pieces, hspaced, rfl, rfl⟩ := ih
    obtain ⟨htoken, hmark⟩ := Token.wellFormed_of_mark hc
    obtain ⟨lead', pieces', hspaced', htext, hlexemes⟩ :=
      exists_spaced_cons (o := o) htoken hspaced fun hword => by simp [hmark] at hword
    rw [Token.spelling_of_mark hc, String.toList_ofList] at htext
    rw [Token.spelling_of_mark hc, utf8ByteSize_char, utf8Size_of_mark hc] at hlexemes
    exact ⟨lead', pieces', hspaced', htext, hlexemes⟩

/-! ## Where cutting stops -/

namespace Lexeme

variable {front after rest : List Char} {found' : List Lexeme}

/-- The scan of the characters is refused for a stray one. It gets over those in front of it whether
they stand alone or the same character follows. -/
structure Refused (found : List Lexeme) (o : Nat) (cs : List Char) (e : SyntaxError)
    (front : List Char) (c : Char) (after : List Char) (now : List Lexeme) : Prop where
  text : cs = front ++ c :: after
  stray : Stray c after
  error : e = .unexpectedChar c (o + (String.ofList front).utf8ByteSize)
  reaches : ∀ tail : List Char, (∀ x ∈ tail.head?, x = c) →
    scan found o (front ++ tail) = scan now (o + (String.ofList front).utf8ByteSize) tail

/-- Characters in front that are taken off first. -/
theorem Refused.behind (first : List Char)
    (h : Refused found' (o + (String.ofList first).utf8ByteSize) rest e front c after now)
    (hfirst : ∀ tail : List Char, (∀ x ∈ tail.head?, x = c) →
      scan found o (first ++ (front ++ tail)) =
        scan found' (o + (String.ofList first).utf8ByteSize) (front ++ tail)) :
    Refused found o (first ++ rest) e (first ++ front) c after now where
  text := by rw [h.text, List.append_assoc]
  stray := h.stray
  error := by rw [h.error, String.ofList_append, String.utf8ByteSize_append, Nat.add_assoc]
  reaches tail htail := by
    rw [List.append_assoc, hfirst tail htail, h.reaches tail htail, String.ofList_append,
      String.utf8ByteSize_append, Nat.add_assoc]

/-- Whether a word ends here is seen from the next character. -/
theorem ends_append {tail : List Char} (h : Ends (front ++ c :: after))
    (htail : ∀ x ∈ tail.head?, x = c) : Ends (front ++ tail) := by
  cases front with
  | cons x front => exact h
  | nil =>
    cases tail with
    | nil => trivial
    | cons x tail =>
      obtain rfl : x = c := htail x rfl
      exact h

/-- A scan that fails is refused for a stray character. -/
theorem exists_refused (h : scan found o cs = .error e) :
    ∃ front c after now, Refused found o cs e front c after now := by
  -- As for renderings, a word takes more than one character off.
  induction hlength : cs.length using Nat.strongRecOn generalizing found o cs with
  | ind n ih =>
    subst hlength
    cases cs with
    | nil =>
      rw [scan] at h
      cases h
    | cons c rest =>
      obtain ⟨hc, hrest⟩ | ⟨hc, hrest⟩ | ⟨tail, rfl, rfl, hrest⟩ | ⟨token, hc, hrest⟩ | ⟨hc, herror⟩ :=
        scan_cases h
      · rw [← utf8ByteSize_char] at hrest
        obtain ⟨front, x, after, now, hrefused⟩ := ih _ (by simp) hrest rfl
        refine ⟨_, x, after, now, Refused.behind [c] hrefused fun tail _ => ?_⟩
        rw [utf8ByteSize_char]
        exact scan_blank hc
      · have hname : ∀ x ∈ rest.takeWhile isWordPart, isWordPart x = true :=
          List.all_eq_true.1 List.all_takeWhile
        have hparts := forall_isWordPart hc hname
        have hshorter := (List.dropWhile_sublist (l := rest) isWordPart).length_le
        rw [← utf8ByteSize_word hparts] at hrest
        obtain ⟨front, x, after, now, hrefused⟩ := ih _ (Nat.lt_succ_of_le hshorter) hrest rfl
        have hends : Ends (front ++ x :: after) := hrefused.text ▸ ends_dropWhile rest
        have hword := Refused.behind _ hrefused fun tail htail => by
          rw [utf8ByteSize_word hparts]
          exact scan_name hc hname (ends_append hends htail)
        rw [List.cons_append, List.takeWhile_append_dropWhile] at hword
        exact ⟨_, x, after, now, hword⟩
      · have hshorter : tail.length < tail.length + 1 + 1 := by omega
        obtain ⟨front, x, after, now, hrefused⟩ := ih _ hshorter hrest rfl
        exact ⟨_, x, after, now, Refused.behind ['-', '>'] hrefused fun tail _ => scan_arrow⟩
      · rw [← utf8Size_of_mark hc, ← utf8ByteSize_char] at hrest
        obtain ⟨front, x, after, now, hrefused⟩ := ih _ (by simp) hrest rfl
        refine ⟨_, x, after, now, Refused.behind [c] hrefused fun tail _ => ?_⟩
        rw [utf8ByteSize_char, utf8Size_of_mark hc]
        exact scan_mark hc
      · cases herror
        exact ⟨[], c, rest, found, rfl, hc, rfl, fun tail _ => rfl⟩

/-- What stands in front of the character can be cut, and no text with this beginning can: only the
other half of an arrow, which is missing, would go on. -/
structure Stuck (before : String) (c : Char) (after : String) : Prop where
  cut : ∃ ls, ofText before = .ok ls
  dead : ∀ more ls, ofText (before ++ String.singleton c ++ more) = .ok ls →
    c = '-' ∧ ∃ tail, more = ">" ++ tail
  arrow : c = '-' → (∃ ls, ofText (before ++ "->") = .ok ls) ∧ ∀ tail, after ≠ ">" ++ tail

theorem Refused.stuck (h : Refused [] 0 cs e front c after now) :
    Stuck (String.ofList front) c (String.ofList after) where
  cut := by
    have hcut := h.reaches [] nofun
    rw [List.append_nil, scan] at hcut
    exact ⟨_, by rw [ofText, String.toList_ofList, hcut]⟩
  dead more ls hok := by
    have htext : (String.ofList front ++ String.singleton c ++ more).toList =
        front ++ c :: more.toList := by
      simp
    rw [ofText, htext, h.reaches _ (by simp)] at hok
    obtain ⟨hc, -⟩ | ⟨hc, -⟩ | ⟨tail, hdash, hmore, -⟩ | ⟨token, hc, -⟩ | ⟨-, hfails⟩ := scan_cases hok
    · simp [h.stray.blank] at hc
    · simp [h.stray.word] at hc
    · refine ⟨hdash, String.ofList tail, String.toList_inj.1 ?_⟩
      simp [hmore]
    · simp [h.stray.mark] at hc
    · cases hfails
  arrow hdash := by
    subst hdash
    have htext : (String.ofList front ++ "->").toList = front ++ ['-', '>'] := by simp
    refine ⟨⟨_, by rw [ofText, htext, h.reaches _ (by simp), scan_arrow, scan]⟩, fun tail heq => ?_⟩
    refine h.stray.arrow rfl tail.toList ?_
    rw [← String.toList_ofList (l := after), heq, String.toList_append]
    rfl

/-- A text is cut into lexemes exactly if it is a layout of them. Otherwise it is refused for a
character at the offset where that stands, and stuck there. -/
theorem ofText_laidOut (text : String) :
    (∀ ls, ofText text = .ok ls ↔ ∃ l : Layout, l.text = text ∧ l.lexemes = ls) ∧
    ∀ e, ofText text = .error e →
      ∃ before c after, text = before ++ String.singleton c ++ after ∧
        e = .unexpectedChar c before.utf8ByteSize ∧ Stuck before c after := by
  refine ⟨fun ls => ?_, fun e h => ?_⟩
  · rw [ofText_eq_ok]
    constructor
    · intro h
      obtain ⟨lead, pieces, hspaced, htext, rfl⟩ := exists_spaced_of_renders h
      exact ⟨⟨lead, pieces, hspaced⟩, (String.toList_inj.1 htext).symm, rfl⟩
    · rintro ⟨l, rfl, rfl⟩
      exact renders_write l.spaced
  · obtain ⟨front, c, after, now, hrefused⟩ := exists_refused h
    refine ⟨String.ofList front, c, String.ofList after, String.toList_inj.1 ?_, ?_, hrefused.stuck⟩
    · rw [hrefused.text]
      simp
    · rw [hrefused.error, Nat.zero_add]

/-- A blank of three bytes in front, and no gap in front of the arrow. -/
example :
    Layout.write "\u3000" [⟨.word "p", ""⟩, ⟨.arrow, " "⟩, ⟨.word "q", ""⟩] = "\u3000p-> q" ∧
      Layout.place 0 "\u3000" [⟨.word "p", ""⟩, ⟨.arrow, " "⟩, ⟨.word "q", ""⟩] =
        [⟨.word "p", 3⟩, ⟨.arrow, 4⟩, ⟨.word "q", 7⟩] := by
  decide

end Lexeme

end ActorLogic
