import ActorLogic.Proofs.Ctl.Bisimulation
import ActorLogic.Proofs.Graph.Facts
/-!
# What a verdict depends on

Bisimilar states get the same verdict. Two graphs that tell the same of a name and of all that can
be reached from it are bisimilar there, so that neither the numbers of the states, nor the order in
which the graph was built, nor what cannot be reached, nor labels that the formula does not mention
play any part.
-/

namespace ActorLogic

namespace Graph

open Result

variable {g h : Graph} {props : List String} {name : String} {s t : Nat} {f : Formula}

/-! ## Told by names -/

/-- Edges lead from the state of a name to that of another, in any number of steps. -/
def NameReaches (g : Graph) : String → String → Prop :=
  Relation.ReflTransGen fun source target => g.Tells (.edge source target)

/-- The graphs tell the same of a name and of all names that can be reached from it, as far as
labels among the propositions go. -/
structure AlikeFrom (g h : Graph) (props : List String) (name : String) : Prop where
  state : g.Tells (.state name) ↔ h.Tells (.state name)
  label : ∀ other, g.NameReaches name other → ∀ a ∈ props,
    g.Tells (.label other a) ↔ h.Tells (.label other a)
  edge : ∀ other, g.NameReaches name other → ∀ next,
    g.Tells (.edge other next) ↔ h.Tells (.edge other next)

/-- The states have one name, which can be reached from the given one. -/
def SameName (g h : Graph) (name : String) (s t : Nat) : Prop :=
  ∃ other, g.NameReaches name other ∧ g.stateId? other = some s ∧ h.stateId? other = some t

theorem tells_label (hs : g.stateId? name = some s) {a : String} :
    g.Tells (.label name a) ↔ a ∈ g.labels.getD s [] := by
  simp [Tells, hs]

theorem tells_edge (hs : g.stateId? name = some s) {other : String}
    (ht : g.stateId? other = some t) : g.Tells (.edge name other) ↔ g.Edge s t := by
  simp [Tells, hs, ht]

theorem AlikeFrom.bisimulation (halike : AlikeFrom g h props name) (hg : g.Consistent)
    (hh : h.Consistent) : Bisimulation g h props (SameName g h name) where
  left_lt := by
    rintro s t ⟨other, -, hs, -⟩
    exact hg.lt_of_index hs
  right_lt := by
    rintro s t ⟨other, -, -, ht⟩
    exact hh.lt_of_index ht
  labels := by
    rintro s t ⟨other, hreach, hs, ht⟩ a ha
    rw [← tells_label hs, ← tells_label ht]
    exact halike.label other hreach a ha
  forth := by
    rintro s t ⟨other, hreach, hs, ht⟩ s' hedge
    have hs' := hg.stateId?_getD (hg.target_lt s s' hedge)
    have htold := (tells_edge hs hs').2 hedge
    obtain ⟨t₀, t', ht₀, ht', hedge'⟩ := (halike.edge other hreach _).1 htold
    obtain rfl : t₀ = t := Option.some.inj (ht₀.symm.trans ht)
    exact ⟨t', hedge', _, hreach.tail htold, hs', ht'⟩
  back := by
    rintro s t ⟨other, hreach, hs, ht⟩ t' hedge
    have ht' := hh.stateId?_getD (hh.target_lt t t' hedge)
    have htold := (halike.edge other hreach _).2 ((tells_edge ht ht').2 hedge)
    obtain ⟨s₀, s', hs₀, hs', hedge'⟩ := htold
    obtain rfl : s₀ = s := Option.some.inj (hs₀.symm.trans hs)
    exact ⟨s', hedge', _, hreach.tail ⟨s₀, s', hs₀, hs', hedge'⟩, hs', ht'⟩

/-! ## Verdicts -/

theorem sat_ok (hg : g.Consistent) (f : Formula) : ∃ set, f.sat g = .ok set ∧ g.Denotes f set := by
  obtain ⟨set, traces, hok, hden⟩ := evaluate_ok hg f
  exact ⟨set, by rw [Formula.sat, hok]; rfl, hden⟩

theorem Bisimulation.sat_iff {R : Nat → Nat → Prop} (hR : Bisimulation g h f.atoms R)
    (hg : g.Consistent) (hh : h.Consistent) :
    ∃ a b, f.sat g = .ok a ∧ f.sat h = .ok b ∧
      ∀ s t, R s t → (a.contains s = true ↔ b.contains t = true) := by
  obtain ⟨a, ha, hfg⟩ := sat_ok hg f
  obtain ⟨b, hb, hfh⟩ := sat_ok hh f
  refine ⟨a, b, ha, hb, fun s t hst => ?_⟩
  have hleft := hfg.mem_iff s
  have hright := hfh.mem_iff t
  rw [StateSet.contains_iff, StateSet.contains_iff, hleft, hright,
    and_iff_right (hR.left_lt s t hst), and_iff_right (hR.right_lt s t hst)]
  exact hR.satisfies_iff (fun _ ha => ha) hst

variable {a b : StateSet}

theorem holdsAt_of_sat (ha : f.sat g = .ok a) (name : String) :
    f.holdsAt g name = .ok ((g.stateId? name).map a.contains) := by
  unfold Formula.holdsAt
  rw [ha]
  cases g.stateId? name <;> rfl

theorem holdsInitially_of_sat (ha : f.sat g = .ok a) :
    f.holdsInitially g = .ok (g.initial.all a.contains) := by
  rw [Formula.holdsInitially, ha]
  rfl

theorem AlikeFrom.contains_iff (halike : AlikeFrom g h f.atoms name) (hg : g.Consistent)
    (hh : h.Consistent) (ha : f.sat g = .ok a) (hb : f.sat h = .ok b)
    (hs : g.stateId? name = some s) (ht : h.stateId? name = some t) :
    a.contains s = true ↔ b.contains t = true := by
  obtain ⟨a', b', ha', hb', hiff⟩ := (halike.bisimulation hg hh).sat_iff hg hh
  cases ha.symm.trans ha'
  cases hb.symm.trans hb'
  exact hiff s t ⟨name, .refl, hs, ht⟩

/-- Where the graphs tell the same, the formula has the same answer. -/
theorem AlikeFrom.holdsAt_eq (halike : AlikeFrom g h f.atoms name) (hg : g.Consistent)
    (hh : h.Consistent) :
    ∃ answer, f.holdsAt g name = .ok answer ∧ f.holdsAt h name = .ok answer := by
  obtain ⟨a, ha, -⟩ := sat_ok hg f
  obtain ⟨b, hb, -⟩ := sat_ok hh f
  cases hs : g.stateId? name with
  | none =>
    have ht : h.stateId? name = none := by
      rw [Option.eq_none_iff_forall_ne_some]
      intro t ht
      obtain ⟨s, hs'⟩ := halike.state.2 ⟨t, ht⟩
      simp [hs] at hs'
    exact ⟨none, by rw [holdsAt_of_sat ha, hs]; rfl, by rw [holdsAt_of_sat hb, ht]; rfl⟩
  | some s =>
    obtain ⟨t, ht⟩ := halike.state.1 ⟨s, hs⟩
    have heq : a.contains s = b.contains t :=
      Bool.eq_iff_iff.2 (halike.contains_iff hg hh ha hb hs ht)
    refine ⟨some (a.contains s), by rw [holdsAt_of_sat ha, hs]; rfl, ?_⟩
    rw [holdsAt_of_sat hb, ht, heq]
    rfl

theorem alikeFrom_of_tells (htells : ∀ fact, g.Tells fact ↔ h.Tells fact) :
    AlikeFrom g h props name :=
  ⟨htells _, fun _ _ _ _ => htells _, fun _ _ _ => htells _⟩

theorem all_initial_of_tells (htells : ∀ fact, g.Tells fact ↔ h.Tells fact) (hg : g.WellFormed)
    (hh : h.WellFormed) (ha : f.sat g = .ok a) (hb : f.sat h = .ok b)
    (hall : ∀ s ∈ g.initial, a.contains s = true) : ∀ t ∈ h.initial, b.contains t = true := by
  intro t ht
  -- The state is found in the other graph by its name.
  have hid := hh.toConsistent.stateId?_getD (hh.initial_lt t ht)
  obtain ⟨s, hs, hin⟩ := (htells (.initial _)).2 ⟨t, hid, ht⟩
  have halike : AlikeFrom g h f.atoms (h.names.getD t "") := alikeFrom_of_tells htells
  exact (halike.contains_iff hg.toConsistent hh.toConsistent ha hb hs hid).1 (hall s hin)

/-- Graphs that tell the same have the same verdict on their initial states. -/
theorem holdsInitially_eq (htells : ∀ fact, g.Tells fact ↔ h.Tells fact) (hg : g.WellFormed)
    (hh : h.WellFormed) (f : Formula) :
    ∃ verdict, f.holdsInitially g = .ok verdict ∧ f.holdsInitially h = .ok verdict := by
  obtain ⟨a, ha, -⟩ := sat_ok hg.toConsistent f
  obtain ⟨b, hb, -⟩ := sat_ok hh.toConsistent f
  have heq : g.initial.all a.contains = h.initial.all b.contains := by
    rw [Bool.eq_iff_iff, List.all_eq_true, List.all_eq_true]
    exact ⟨all_initial_of_tells htells hg hh ha hb,
      all_initial_of_tells (fun fact => (htells fact).symm) hh hg hb ha⟩
  exact ⟨_, holdsInitially_of_sat ha, heq ▸ holdsInitially_of_sat hb⟩

end Graph

open ActorLogic.Graph

/-- Bisimilar states of graphs that can be built satisfy the same formulas. So a formula has the
same answer at a name wherever the graphs tell the same of all that can be reached from it, labels
that the formula does not mention aside; and it has the same answers and the same verdict on all
graphs whose calls stated the same, in whatever order. -/
theorem Formula.sat_bisimilar (f : Formula) :
    (∀ (g h : Graph) (R : Nat → Nat → Prop), g.Built → h.Built → Bisimulation g h f.atoms R →
      ∃ a b, f.sat g = .ok a ∧ f.sat h = .ok b ∧
        ∀ s t, R s t → (a.contains s = true ↔ b.contains t = true)) ∧
    (∀ (g h : Graph) (name : String), g.Built → h.Built → AlikeFrom g h f.atoms name →
      ∃ answer, f.holdsAt g name = .ok answer ∧ f.holdsAt h name = .ok answer) ∧
    ∀ edits edits' : List Edit, (∀ fact, fact ∈ factsOf edits ↔ fact ∈ factsOf edits') →
      (∀ name, ∃ answer, f.holdsAt (ofEdits edits) name = .ok answer ∧
        f.holdsAt (ofEdits edits') name = .ok answer) ∧
      ∃ verdict, f.holdsInitially (ofEdits edits) = .ok verdict ∧
        f.holdsInitially (ofEdits edits') = .ok verdict := by
  refine ⟨fun g h R hg hh hR => hR.sat_iff hg.consistent hh.consistent,
    fun g h name hg hh halike => halike.holdsAt_eq hg.consistent hh.consistent, ?_⟩
  intro edits edits' hfacts
  have htells : ∀ fact, (ofEdits edits).Tells fact ↔ (ofEdits edits').Tells fact := by
    intro fact
    rw [tells_ofEdits, tells_ofEdits, hfacts]
  have hg := (consistent_ofEdits edits).wellFormed (tidy_ofEdits edits)
  have hh := (consistent_ofEdits edits').wellFormed (tidy_ofEdits edits')
  exact ⟨fun name => (alikeFrom_of_tells htells).holdsAt_eq hg.toConsistent hh.toConsistent,
    holdsInitially_eq htells hg hh f⟩

/-- A state that stays: beside two that take turns, beside one that leads to it and a label that is
not asked for, and the two that take turns added in another order. -/
theorem Formula.sat_bisimilar_turns :
    let still : List Edit := [.addState "a" ["p"], .addEdge 0 0]
    let beside : List Edit := [.addState "z" ["p"], .addState "a" ["p", "q"], .addEdge 1 1,
      .addEdgeByName "z" "a"]
    let turns : List Edit := [.addState "z" ["q"], .addState "x" ["p", "q"], .addState "a" ["p"],
      .addEdge 2 1, .addEdge 1 2, .addEdge 0 1, .markInitial 2]
    let turned : List Edit := [.addState "a" ["p"], .addState "x" ["q", "p"], .addState "z" ["q"],
      .addEdge 2 1, .markInitial 0, .addEdge 1 0, .addEdge 0 1]
    let f : Formula := .eg (.atom "p")
    (∃ a b, f.sat (ofEdits still) = .ok a ∧ f.sat (ofEdits turns) = .ok b ∧
      (a.contains 0 = true ↔ b.contains 1 = true)) ∧
    (∃ answer, f.holdsAt (ofEdits still) "a" = .ok answer ∧
      f.holdsAt (ofEdits beside) "a" = .ok answer) ∧
    ∃ verdict, f.holdsInitially (ofEdits turns) = .ok verdict ∧
      f.holdsInitially (ofEdits turned) = .ok verdict := by
  intro still beside turns turned f
  have hatoms : f.atoms = ["p"] := by cbv
  have hsucc : (ofEdits still).succ = #[[0]] ∧ (ofEdits still).labels = #[["p"]] := by cbv
  have hturns : (ofEdits turns).succ = #[[1], [2], [1]] ∧
      (ofEdits turns).labels = #[["q"], ["p", "q"], ["p"]] := by cbv
  have hR : Bisimulation (ofEdits still) (ofEdits turns) f.atoms
      fun s t => s = 0 ∧ (t = 1 ∨ t = 2) :=
    { left_lt := by
        rintro s t ⟨rfl, -⟩
        cbv
      right_lt := by
        rintro s t ⟨-, rfl | rfl⟩ <;> cbv
      labels := by
        rintro s t ⟨rfl, rfl | rfl⟩ a ha <;> simp_all
      forth := by
        rintro s t ⟨rfl, rfl | rfl⟩ s' hedge <;> simp_all [Edge]
      back := by
        rintro s t ⟨rfl, rfl | rfl⟩ t' hedge <;> simp_all [Edge] }
  obtain ⟨a, b, ha, hb, hiff⟩ :=
    (Formula.sat_bisimilar f).1 _ _ _ (.inl ⟨still, rfl⟩) (.inl ⟨turns, rfl⟩) hR
  have hstill : factsOf still = [.state "a", .label "a" "p", .edge "a" "a"] := by cbv
  have hbeside : factsOf beside = [.state "z", .label "z" "p", .state "a", .label "a" "p",
    .label "a" "q", .edge "a" "a", .edge "z" "a"] := by cbv
  have hreach : ∀ other, (ofEdits still).NameReaches "a" other → other = "a" := by
    intro other h
    induction h with
    | refl => rfl
    | @tail b c _ hedge _ =>
      have hboth : b = "a" ∧ c = "a" := by simpa [tells_ofEdits, hstill] using hedge
      exact hboth.2
  have halike : AlikeFrom (ofEdits still) (ofEdits beside) f.atoms "a" :=
    { state := by simp [tells_ofEdits, hstill, hbeside]
      label := by
        intro other h a ha
        obtain rfl := hreach other h
        obtain rfl : a = "p" := by simpa [hatoms] using ha
        simp [tells_ofEdits, hstill, hbeside]
      edge := by
        intro other h next
        obtain rfl := hreach other h
        simp [tells_ofEdits, hstill, hbeside] }
  have hperm : (factsOf turns).Perm (factsOf turned) := by
    have hone : factsOf turns = [.state "z", .label "z" "q", .state "x", .label "x" "p",
      .label "x" "q", .state "a", .label "a" "p", .edge "a" "x", .edge "x" "a", .edge "z" "x",
      .initial "a"] := by cbv
    have hother : factsOf turned = [.state "a", .label "a" "p", .state "x", .label "x" "q",
      .label "x" "p", .state "z", .label "z" "q", .edge "z" "x", .initial "a", .edge "x" "a",
      .edge "a" "x"] := by cbv
    rw [hone, hother]
    decide
  exact ⟨⟨a, b, ha, hb, hiff 0 1 ⟨rfl, .inl rfl⟩⟩,
    (Formula.sat_bisimilar f).2.1 _ _ "a" (.inl ⟨still, rfl⟩) (.inl ⟨beside, rfl⟩) halike,
    ((Formula.sat_bisimilar f).2.2 turns turned fun _ => hperm.mem_iff).2⟩

end ActorLogic
