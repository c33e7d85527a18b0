import ActorLogic.Json.Printer
import ActorLogic.Json.Reader
import Std.Data.String.ToInt
import Mathlib.Data.List.TakeWhile
/-!
# What compact text tells

The compact text of a value says where it ends: if a text begins with the texts of two values, and
no digit follows either, then the values are the same. A number ends before what is no digit, a
string at the first quote that is not escaped, and lists and objects at their brackets. Reals are
left out, since different ones may be written alike.
-/

namespace ActorLogic.Json

/-! ## Characters -/

mutual
/-- The characters of a value without blanks. -/
def chars : Json → List Char
  | .list [] => ['[', ']']
  | .list (item :: items) => '[' :: (chars item ++ itemsChars items)
  | .object [] => ['\x7b', '\x7d']
  | .object ((name, value) :: fields) =>
    '\x7b' :: ((quote name).toList ++ ':' :: (chars value ++ fieldsChars fields))
  | j => (leaf j).toList
/-- The characters of the items after the first, and of the closing bracket. -/
def itemsChars : List Json → List Char
  | [] => [']']
  | item :: items => ',' :: (chars item ++ itemsChars items)
/-- The characters of the fields after the first, and of the closing brace. -/
def fieldsChars : List (String × Json) → List Char
  | [] => ['\x7d']
  | (name, value) :: fields =>
    ',' :: ((quote name).toList ++ ':' :: (chars value ++ fieldsChars fields))
end

mutual
theorem toList_putValue (out : String) :
    ∀ j : Json, (putValue out j).toList = out.toList ++ chars j
  | .list [] => by simp [putValue, chars]
  | .list (item :: items) => by
    simp [putValue, chars, toList_putItems _ items, toList_putValue _ item]
  | .object [] => by simp [putValue, chars]
  | .object ((name, value) :: fields) => by
    simp [putValue, chars, toList_putFields _ fields, toList_putValue _ value]
  | .null | .bool _ | .int _ | .real _ | .text _ | .unreadable => by simp [putValue, chars]
theorem toList_putItems (out : String) :
    ∀ items : List Json, (putItems out items).toList = out.toList ++ itemsChars items
  | [] => by simp [putItems, itemsChars]
  | item :: items => by
    simp [putItems, itemsChars, toList_putItems _ items, toList_putValue _ item]
theorem toList_putFields (out : String) :
    ∀ fields : List (String × Json), (putFields out fields).toList = out.toList ++ fieldsChars fields
  | [] => by simp [putFields, fieldsChars]
  | (name, value) :: fields => by
    simp [putFields, fieldsChars, toList_putFields _ fields, toList_putValue _ value]
end

theorem toList_compact (j : Json) : j.compact.toList = chars j := toList_putValue "" j

/-! ## Strings -/

/-- The character that the front of a string's inside stands for, and what follows. The closing
quote stands for none. -/
def unescape? : List Char → Option (Char × List Char)
  | '"' :: _ => none
  | '\\' :: 'u' :: a :: b :: c :: d :: rest => (hexUnit? a b c d).map fun n => (Char.ofNat n, rest)
  | '\\' :: c :: rest => (escapedChar? c).map fun c => (c, rest)
  | c :: rest => some (c, rest)
  | [] => none

theorem hexUnit?_control : ∀ n < 0x20,
    hexUnit? '0' '0' (hexDigit (n / 16)) (hexDigit (n % 16)) = some n := by
  decide

/-- A character is known from its escape, whatever follows. -/
theorem unescape?_escape (c : Char) (rest : List Char) :
    unescape? (escape c ++ rest) = some (c, rest) := by
  unfold escape
  split_ifs with hquote hback
  -- The characters that have a letter for an escape.
  iterate 7
    · subst_vars
      rfl
  · next hcontrol =>
    simp only [List.cons_append, List.nil_append, unescape?, hexUnit?_control _ hcontrol,
      Option.map_some, Char.ofNat_toNat]
  · rw [List.singleton_append, unescape?.eq_def]
    split <;> simp_all

/-- The first quote that is not escaped is the closing one. -/
theorem escaped_unique {cs ds r s : List Char}
    (h : cs.flatMap escape ++ '"' :: r = ds.flatMap escape ++ '"' :: s) : cs = ds ∧ r = s := by
  induction cs generalizing ds with
  | nil =>
    cases ds with
    | nil => exact ⟨rfl, (List.cons.inj h).2⟩
    | cons d ds =>
      have hread := congrArg unescape? h
      rw [List.flatMap_cons, List.append_assoc, unescape?_escape] at hread
      cases hread
  | cons c cs ih =>
    rw [List.flatMap_cons, List.append_assoc] at h
    have hread := congrArg unescape? h
    rw [unescape?_escape] at hread
    cases ds with
    | nil => cases hread
    | cons d ds =>
      rw [List.flatMap_cons, List.append_assoc, unescape?_escape] at hread
      obtain ⟨rfl, hrest⟩ := Prod.mk.inj (Option.some.inj hread)
      obtain ⟨rfl, hend⟩ := ih hrest
      exact ⟨rfl, hend⟩

theorem quote_unique {a b : String} {r s : List Char}
    (h : (quote a).toList ++ r = (quote b).toList ++ s) : a = b ∧ r = s := by
  simp only [quote, String.toList_ofList, List.cons_append, List.append_assoc, List.nil_append,
    List.cons.injEq, true_and] at h
  obtain ⟨hchars, hrest⟩ := escaped_unique h
  exact ⟨String.toList_injective hchars, hrest⟩

/-! ## Numbers -/

/-- A character of a whole number. -/
def isNumeral (c : Char) : Bool := c.isDigit || c == '-'

/-- What a number cannot go on with. -/
def Stops (r : List Char) : Prop := ∀ c ∈ r.head?, isNumeral c = false

theorem toList_int (n : Int) :
    (toString n).toList ≠ [] ∧ ∀ c ∈ (toString n).toList, isNumeral c = true := by
  have hdigits : ∀ m : Nat, ∀ c ∈ m.repr.toList, isNumeral c = true := by
    intro m c hc
    rw [Nat.repr, String.toList_ofList] at hc
    rw [isNumeral, Nat.isDigit_of_mem_toDigits (by decide) (by decide) hc, Bool.true_or]
  cases n with
  | ofNat m =>
    refine ⟨?_, hdigits m⟩
    rw [show toString (Int.ofNat m) = m.repr from rfl, Nat.repr, String.toList_ofList]
    exact Nat.toDigits_ne_nil
  | negSucc m =>
    rw [show toString (Int.negSucc m) = "-" ++ (m + 1).repr from rfl, String.toList_append]
    exact ⟨by simp, List.forall_mem_append.2 ⟨by simp [isNumeral], hdigits (m + 1)⟩⟩

theorem takeWhile_int (n : Int) {r : List Char} (hr : Stops r) :
    ((toString n).toList ++ r).takeWhile isNumeral = (toString n).toList := by
  rw [List.takeWhile_append_of_pos (toList_int n).2]
  cases r with
  | nil => simp
  | cons c rest => simp [hr c rfl]

theorem int_unique {m n : Int} {r s : List Char} (hr : Stops r) (hs : Stops s)
    (h : (toString m).toList ++ r = (toString n).toList ++ s) : m = n ∧ r = s := by
  have hnumerals := congrArg (List.takeWhile isNumeral) h
  rw [takeWhile_int m hr, takeWhile_int n hs] at hnumerals
  obtain rfl : m = n := Int.repr_injective (String.toList_injective hnumerals)
  exact ⟨rfl, List.append_cancel_left h⟩

/-! ## Values -/

/-- No number in the value is a real, and all of it can be read. -/
inductive Plain : Json → Prop where
  | null : Plain .null
  | bool (b : Bool) : Plain (.bool b)
  | int (n : Int) : Plain (.int n)
  | text (s : String) : Plain (.text s)
  | list {items : List Json} : (∀ item ∈ items, Plain item) → Plain (.list items)
  | object {fields : List (String × Json)} :
      (∀ field ∈ fields, Plain field.2) → Plain (.object fields)

/-- Values of different kinds begin with different characters. -/
def kind : Json → Nat
  | .int _ => 0
  | .null => 1
  | .bool _ => 2
  | .text _ => 3
  | .list _ => 4
  | .object _ => 5
  | .real _ | .unreadable => 6

/-- The kind of the values that begin with a character. -/
def kindOf (c : Char) : Nat :=
  if isNumeral c then 0
  else if c = 'n' then 1
  else if c = 't' ∨ c = 'f' then 2
  else if c = '"' then 3
  else if c = '[' then 4
  else if c = '\x7b' then 5
  else 6

variable {j k : Json} {r s : List Char}

theorem Plain.head (h : j.Plain) : ∃ c rest, chars j = c :: rest ∧ kindOf c = kind j := by
  cases h with
  | null => exact ⟨_, _, rfl, rfl⟩
  | bool b => cases b <;> exact ⟨_, _, rfl, rfl⟩
  | int n =>
    obtain ⟨hne, hnumerals⟩ := toList_int n
    obtain ⟨c, rest, hchars⟩ := List.exists_cons_of_ne_nil hne
    exact ⟨c, rest, hchars, if_pos (hnumerals c (hchars ▸ List.mem_cons_self))⟩
  | text s => exact ⟨'"', s.toList.flatMap escape ++ ['"'], by simp [chars, leaf, quote], rfl⟩
  | @list items _ => cases items <;> exact ⟨'[', _, rfl, rfl⟩
  | @object fields _ => cases fields <;> exact ⟨'\x7b', _, rfl, rfl⟩

theorem Plain.kind_eq (hj : j.Plain) (hk : k.Plain) (h : chars j ++ r = chars k ++ s) :
    kind j = kind k := by
  obtain ⟨c, rest, hc, hj⟩ := hj.head
  obtain ⟨d, more, hd, hk⟩ := hk.head
  rw [hc, hd, List.cons_append, List.cons_append] at h
  rw [← hj, ← hk, (List.cons.inj h).1]

/-- No value begins with a closing bracket. -/
theorem Plain.ne_closing (h : j.Plain) {c : Char} (hc : kindOf c = 6) :
    c :: r ≠ chars j ++ s := by
  obtain ⟨d, rest, hd, hkind⟩ := h.head
  intro heq
  rw [hd, List.cons_append] at heq
  rw [← (List.cons.inj heq).1, hc] at hkind
  cases h <;> cases hkind

/-- The value is known from any text that it begins. -/
def Known (j : Json) : Prop :=
  ∀ {k : Json} {r s : List Char}, k.Plain → Stops r → Stops s →
    chars j ++ r = chars k ++ s → j = k ∧ r = s

theorem stops_items (items : List Json) : Stops (itemsChars items ++ r) := by
  cases items <;> simp [itemsChars, Stops, isNumeral]

theorem stops_fields (fields : List (String × Json)) : Stops (fieldsChars fields ++ r) := by
  cases fields <;> simp [fieldsChars, Stops, isNumeral]

theorem items_unique {items others : List Json} (hitems : ∀ item ∈ items, Known item)
    (hothers : ∀ item ∈ others, item.Plain)
    (h : itemsChars items ++ r = itemsChars others ++ s) : items = others ∧ r = s := by
  induction items generalizing others with
  | nil =>
    cases others with
    | nil => exact ⟨rfl, (List.cons.inj h).2⟩
    | cons other others => simp [itemsChars] at h
  | cons item items ih =>
    cases others with
    | nil => simp [itemsChars] at h
    | cons other others =>
      simp only [itemsChars, List.cons_append, List.append_assoc, List.cons.injEq, true_and] at h
      obtain ⟨rfl, hrest⟩ := hitems item List.mem_cons_self (hothers other List.mem_cons_self)
        (stops_items items) (stops_items others) h
      obtain ⟨rfl, hend⟩ := ih (fun i hi => hitems i (List.mem_cons_of_mem _ hi))
        (fun i hi => hothers i (List.mem_cons_of_mem _ hi)) hrest
      exact ⟨rfl, hend⟩

theorem fields_unique {fields others : List (String × Json)}
    (hfields : ∀ field ∈ fields, Known field.2) (hothers : ∀ field ∈ others, field.2.Plain)
    (h : fieldsChars fields ++ r = fieldsChars others ++ s) : fields = others ∧ r = s := by
  induction fields generalizing others with
  | nil =>
    cases others with
    | nil => exact ⟨rfl, (List.cons.inj h).2⟩
    | cons other others => simp [fieldsChars] at h
  | cons field fields ih =>
    obtain ⟨name, value⟩ := field
    cases others with
    | nil => simp [fieldsChars] at h
    | cons other others =>
      obtain ⟨name', value'⟩ := other
      simp only [fieldsChars, List.cons_append, List.append_assoc, List.cons.injEq, true_and] at h
      obtain ⟨rfl, hvalue⟩ := quote_unique h
      obtain ⟨rfl, hrest⟩ := hfields (name, value) List.mem_cons_self
        (hothers (name, value') List.mem_cons_self) (stops_fields fields) (stops_fields others)
        (List.cons.inj hvalue).2
      obtain ⟨rfl, hend⟩ := ih (fun f hf => hfields f (List.mem_cons_of_mem _ hf))
        (fun f hf => hothers f (List.mem_cons_of_mem _ hf)) hrest
      exact ⟨rfl, hend⟩

theorem list_unique {items others : List Json} (hplain : ∀ item ∈ items, item.Plain)
    (hitems : ∀ item ∈ items, Known item) (hothers : ∀ item ∈ others, item.Plain)
    (h : chars (.list items) ++ r = chars (.list others) ++ s) : items = others ∧ r = s := by
  cases items with
  | nil =>
    cases others with
    | nil => exact ⟨rfl, List.append_cancel_left h⟩
    | cons other others =>
      simp only [chars, List.cons_append, List.nil_append, List.append_assoc, List.cons.injEq,
        true_and] at h
      exact absurd h ((hothers other List.mem_cons_self).ne_closing rfl)
  | cons item items =>
    cases others with
    | nil =>
      simp only [chars, List.cons_append, List.nil_append, List.append_assoc, List.cons.injEq,
        true_and] at h
      exact absurd h.symm ((hplain item List.mem_cons_self).ne_closing rfl)
    | cons other others =>
      exact items_unique hitems hothers (congrArg (',' :: ·) (List.cons.inj h).2)

theorem object_unique {fields others : List (String × Json)}
    (hfields : ∀ field ∈ fields, Known field.2) (hothers : ∀ field ∈ others, field.2.Plain)
    (h : chars (.object fields) ++ r = chars (.object others) ++ s) :
    fields = others ∧ r = s := by
  cases fields with
  | nil =>
    cases others with
    | nil => exact ⟨rfl, List.append_cancel_left h⟩
    | cons other others => simp [chars, quote] at h
  | cons field fields =>
    cases others with
    | nil => simp [chars, quote] at h
    | cons other others =>
      exact fields_unique hfields hothers (congrArg (',' :: ·) (List.cons.inj h).2)

/-- A text begins with one plain value at most. -/
theorem Plain.known (h : j.Plain) : j.Known := by
  induction h with
  | null =>
    intro k r s hk _ _ heq
    have hkind := Plain.null.kind_eq hk heq
    cases hk with
    | null => exact ⟨rfl, List.append_cancel_left heq⟩
    | _ => simp [kind] at hkind
  | bool b =>
    intro k r s hk _ _ heq
    have hkind := (Plain.bool b).kind_eq hk heq
    cases hk with
    | bool b' => cases b <;> cases b' <;> simp_all [chars, leaf]
    | _ => simp [kind] at hkind
  | int n =>
    intro k r s hk hr hs heq
    have hkind := (Plain.int n).kind_eq hk heq
    cases hk with
    | int m =>
      obtain ⟨rfl, hrest⟩ := int_unique hr hs heq
      exact ⟨rfl, hrest⟩
    | _ => simp [kind] at hkind
  | text t =>
    intro k r s hk _ _ heq
    have hkind := (Plain.text t).kind_eq hk heq
    cases hk with
    | text t' =>
      obtain ⟨rfl, hrest⟩ := quote_unique heq
      exact ⟨rfl, hrest⟩
    | _ => simp [kind] at hkind
  | @list items hitems ih =>
    intro k r s hk _ _ heq
    have hkind := (Plain.list hitems).kind_eq hk heq
    cases hk with
    | list hothers =>
      obtain ⟨rfl, hrest⟩ := list_unique hitems ih hothers heq
      exact ⟨rfl, hrest⟩
    | _ => simp [kind] at hkind
  | @object fields hfields ih =>
    intro k r s hk _ _ heq
    have hkind := (Plain.object hfields).kind_eq hk heq
    cases hk with
    | object hothers =>
      obtain ⟨rfl, hrest⟩ := object_unique ih hothers heq
      exact ⟨rfl, hrest⟩
    | _ => simp [kind] at hkind

end ActorLogic.Json
