import Mathlib.Data.List.Forall2
/-!
# Results that may be faults

How a chain of steps that may stop comes to a result: each of its steps does.
-/

namespace ActorLogic.Result

variable {α β ε : Type}

@[simp] theorem ok_bind (a : α) (f : α → Except ε β) : (Except.ok a >>= f) = f a := rfl

@[simp] theorem ok_map (f : α → β) (a : α) : (Except.ok a : Except ε α).map f = .ok (f a) := rfl

theorem bind_eq_ok {x : Except ε α} {f : α → Except ε β} {b : β} :
    x >>= f = .ok b ↔ ∃ a, x = .ok a ∧ f a = .ok b := by
  cases x with
  | error e => simp [bind, Except.bind]
  | ok a => simp

theorem bind_eq_error {x : Except ε α} {f : α → Except ε β} {e : ε} :
    x >>= f = .error e ↔ x = .error e ∨ ∃ a, x = .ok a ∧ f a = .error e := by
  cases x with
  | error e' => simp [bind, Except.bind]
  | ok a => simp

theorem map_eq_ok {x : Except ε α} {f : α → β} {b : β} :
    x.map f = .ok b ↔ ∃ a, x = .ok a ∧ f a = b := by
  cases x with
  | error e => simp [Except.map]
  | ok a => simp

/-- What each step of a sequence keeps, the sequence keeps. -/
theorem foldlM_keeps {P : β → Prop} {step : β → α → Except ε β}
    (hstep : ∀ b a next, P b → step b a = .ok next → P next) {steps : List α} {b next : β}
    (h : P b) (hok : steps.foldlM step b = .ok next) : P next := by
  induction steps generalizing b with
  | nil =>
    cases hok
    exact h
  | cons a rest ih =>
    rw [List.foldlM_cons] at hok
    obtain ⟨mid, hmid, hrest⟩ := bind_eq_ok.1 hok
    exact ih (hstep b a mid h hmid) hrest

theorem filterAuxM_ok {test : α → Except ε Bool} {p : α → Bool} {l kept : List α}
    (h : ∀ a ∈ l, test a = .ok (p a)) :
    l.filterAuxM test kept = .ok ((l.filter p).reverse ++ kept) := by
  induction l generalizing kept with
  | nil => rfl
  | cons a rest ih =>
    rw [List.filterAuxM, h a List.mem_cons_self, ok_bind,
      ih fun b hb => h b (List.mem_cons_of_mem a hb)]
    cases hp : p a <;> simp [hp]

/-- Where no test stops, the list is filtered as by a test that cannot stop. -/
theorem filterM_ok {test : α → Except ε Bool} {p : α → Bool} {l : List α}
    (h : ∀ a ∈ l, test a = .ok (p a)) : l.filterM test = .ok (l.filter p) := by
  rw [List.filterM, filterAuxM_ok h, ok_bind, List.append_nil, List.reverse_reverse]
  rfl

/-- Where no step stops, the list is mapped as by a step that cannot stop. -/
theorem mapM_ok {step : α → Except ε β} {f : α → β} {l : List α}
    (h : ∀ a ∈ l, step a = .ok (f a)) : l.mapM step = .ok (l.map f) := by
  induction l with
  | nil => rfl
  | cons a rest ih =>
    have hrest := ih fun b hb => h b (List.mem_cons_of_mem a hb)
    rw [List.mapM_cons, h a List.mem_cons_self, hrest]
    rfl

/-- A list is mapped to what its elements are mapped to, if all of them are. -/
theorem mapM_eq_ok_iff {step : α → Except ε β} {l : List α} {bs : List β} :
    l.mapM step = .ok bs ↔ List.Forall₂ (fun a b => step a = .ok b) l bs := by
  induction l generalizing bs with
  | nil =>
    change Except.ok [] = Except.ok bs ↔ _
    rw [Except.ok.injEq, List.forall₂_nil_left_iff]
    exact eq_comm
  | cons a rest ih =>
    rw [List.mapM_cons, List.forall₂_cons_left_iff]
    constructor
    · intro h
      obtain ⟨b, hb, hrest⟩ := bind_eq_ok.1 h
      obtain ⟨more, hmore, hend⟩ := bind_eq_ok.1 hrest
      cases hend
      exact ⟨b, more, hb, ih.1 hmore, rfl⟩
    · rintro ⟨b, more, hb, hmore, rfl⟩
      rw [hb, ih.2 hmore]
      rfl

/-- The first element that is not mapped stops the mapping of a list. -/
theorem mapM_eq_error_iff {step : α → Except ε β} {l : List α} {e : ε} :
    l.mapM step = .error e ↔ ∃ before a after, l = before ++ a :: after ∧
      (∀ b ∈ before, ∃ c, step b = .ok c) ∧ step a = .error e := by
  induction l with
  | nil => simp [pure, Except.pure]
  | cons a rest ih =>
    rw [List.mapM_cons, bind_eq_error]
    constructor
    · rintro (ha | ⟨b, hb, hrest⟩)
      · exact ⟨[], a, rest, rfl, by simp, ha⟩
      · obtain hrest | ⟨more, -, hend⟩ := bind_eq_error.1 hrest
        · obtain ⟨before, a', after, rfl, hbefore, ha'⟩ := ih.1 hrest
          exact ⟨a :: before, a', after, rfl, List.forall_mem_cons.2 ⟨⟨b, hb⟩, hbefore⟩, ha'⟩
        · cases hend
    · rintro ⟨before, a', after, hl, hbefore, ha'⟩
      cases before with
      | nil =>
        cases hl
        exact .inl ha'
      | cons b before =>
        cases hl
        obtain ⟨⟨c, hc⟩, hlater⟩ := List.forall_mem_cons.1 hbefore
        exact .inr ⟨c, hc, by rw [ih.2 ⟨before, a', after, rfl, hlater, ha'⟩]; rfl⟩

theorem getElem?_of_mapM {step : α → Except ε β} {l : List α} {bs : List β} {a : α} {i : Nat}
    (h : l.mapM step = .ok bs) (ha : l[i]? = some a) : ∃ b, bs[i]? = some b ∧ step a = .ok b := by
  have hall := mapM_eq_ok_iff.1 h
  clear h
  induction hall generalizing i with
  | nil => simp at ha
  | cons hb _ ih =>
    cases i with
    | zero =>
      cases ha
      exact ⟨_, rfl, hb⟩
    | succ i => exact ih ha

theorem mem_of_mapM {step : α → Except ε β} {l : List α} {bs : List β} {a : α}
    (h : l.mapM step = .ok bs) (ha : a ∈ l) : ∃ b ∈ bs, step a = .ok b := by
  obtain ⟨i, hi⟩ := List.getElem?_of_mem ha
  obtain ⟨b, hb, hstep⟩ := getElem?_of_mapM h hi
  exact ⟨b, List.mem_of_getElem? hb, hstep⟩

theorem mem_iff_of_mapM {step : α → Except ε β} {l : List α} {bs : List β} {b : β}
    (h : l.mapM step = .ok bs) : b ∈ bs ↔ ∃ a ∈ l, step a = .ok b := by
  have hall := mapM_eq_ok_iff.1 h
  clear h
  induction hall with
  | nil => simp
  | cons hb _ ih => simp [ih, hb, eq_comm]

theorem length_of_mapM {step : α → Except ε β} {l : List α} {bs : List β}
    (h : l.mapM step = .ok bs) : bs.length = l.length := (mapM_eq_ok_iff.1 h).length_eq.symm

/-- To map the places of a list along is to map first and to put the places to it later. -/
theorem mapM_zipIdx {γ : Type} {f : α → Except ε β} (put : α → Nat → β → γ)
    (l : List α) (k : Nat) :
    ((l.zipIdx k).mapM fun (a, i) => (f a).map (put a i)) =
      (l.mapM f).map fun bs => ((l.zip bs).zipIdx k).map fun ((a, b), i) => put a i b := by
  induction l generalizing k with
  | nil => rfl
  | cons a rest ih =>
    rw [List.zipIdx_cons, List.mapM_cons, List.mapM_cons, ih]
    dsimp only
    cases f a with
    | error e => rfl
    | ok b => cases rest.mapM f <;> rfl

end ActorLogic.Result
