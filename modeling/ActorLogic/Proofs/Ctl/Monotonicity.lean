import ActorLogic.Proofs.Ctl.Answers
import ActorLogic.Proofs.StateSet.Refinement
/-!
# More labels, more verdicts

A formula without negation asks for labels and never for their absence. So where two graphs have the
same states and edges and the second has all labels of the first, whatever satisfies the formula in
the first graph satisfies it in the second. States are compared by the steps that match each other,
so that the numbers play no part.
-/

namespace ActorLogic

/-- No part of the formula is a negation. -/
def Formula.negationFree : Formula → Bool
  | .top | .bot | .atom _ => true
  | .not _ => false
  | .and f h | .or f h | .eu f h | .au f h => f.negationFree && h.negationFree
  | .ex f | .ax f | .ef f | .af f | .eg f | .ag f => f.negationFree

namespace Graph

variable {g h : Graph} {props : List String} {R : Nat → Nat → Prop} {s t : Nat} {P Q : Nat → Prop}
  {f : Formula} {name : String}

/-! ## Operators for every path -/

namespace Bisimulation

/-- What every infinite path meets in the one graph, every infinite path meets in the other. -/
theorem meets_imp (hR : Bisimulation g h props R) (hP : ∀ s t, R s t → P s → Q t) (hst : R s t)
    (hmeets : ∀ path, g.InfinitePath s path → ∃ i, P (path i)) :
    ∀ path, h.InfinitePath t path → ∃ i, Q (path i) := by
  intro path hpath
  obtain ⟨path', hpath', hrelated⟩ := hR.symm.exists_infinitePath hst hpath
  obtain ⟨i, hi⟩ := hmeets path' hpath'
  exact ⟨i, hP _ _ (hrelated i) hi⟩

/-! ## Formulas -/

/-- A related state that has all labels satisfies what is satisfied without negation. -/
theorem satisfies_of_negationFree (hR : Bisimulation g h props R)
    (hlabels : ∀ s t, R s t → ∀ a ∈ g.labels.getD s [], a ∈ h.labels.getD t [])
    (hf : f.negationFree = true) (hst : R s t) : g.Satisfies f s → h.Satisfies f t := by
  induction f generalizing s t with
  | top | bot => exact id
  | atom name => exact hlabels s t hst name
  | not f => cases hf
  | and f k ihf ihk =>
    obtain ⟨hf, hk⟩ := Bool.and_eq_true_iff.1 hf
    exact And.imp (ihf hf hst) (ihk hk hst)
  | or f k ihf ihk =>
    obtain ⟨hf, hk⟩ := Bool.and_eq_true_iff.1 hf
    exact Or.imp (ihf hf hst) (ihk hk hst)
  | ex f ih =>
    rintro ⟨s', hedge, hs'⟩
    obtain ⟨t', hedge', hnext⟩ := hR.forth s t hst s' hedge
    exact ⟨t', hedge', ih hf hnext hs'⟩
  -- A step, a path or a state that can be reached in the second graph is matched in the first.
  | ax f ih =>
    intro hall t' hedge
    obtain ⟨s', hedge', hnext⟩ := hR.back s t hst t' hedge
    exact ih hf hnext (hall s' hedge')
  | ef f ih =>
    rintro ⟨n, path, hpath, hend⟩
    obtain ⟨path', hpath', hrelated⟩ := hR.exists_finitePath hst hpath
    exact ⟨n, path', hpath', ih hf (hrelated n (Nat.le_refl n)) hend⟩
  | af f ih => exact hR.meets_imp (fun _ _ => ih hf) hst
  | eg f ih => exact hR.always_imp (fun _ _ => ih hf) hst
  | ag f ih =>
    intro hall t' hreach
    obtain ⟨s', hreach', hrelated⟩ := hR.symm.exists_reaches hst hreach
    exact ih hf hrelated (hall s' hreach')
  | eu f k ihf ihk =>
    obtain ⟨hf, hk⟩ := Bool.and_eq_true_iff.1 hf
    exact hR.until_imp (fun _ _ => ihk hk) (fun _ _ => ihf hf) hst
  | au f k ihf ihk =>
    obtain ⟨hf, hk⟩ := Bool.and_eq_true_iff.1 hf
    rintro ⟨hmeets, hstays⟩
    refine ⟨hR.meets_imp (fun _ _ => ihk hk) hst hmeets, fun n path hpath hnone i hi => ?_⟩
    obtain ⟨path', hpath', hrelated⟩ := hR.symm.exists_finitePath hst hpath
    -- The path in the first graph does not meet the target either.
    have hnone' : ∀ j ≤ n, ¬ g.Satisfies k (path' j) := fun j hj hmet =>
      hnone j hj (ihk hk (hrelated j hj) hmet)
    exact ihf hf (hrelated i hi) (hstays n path' hpath' hnone' i hi)

end Bisimulation

/-! ## Graphs told by names -/

/-- The second graph has the states and edges of the first, and all its labels. -/
structure EnrichedBy (g h : Graph) : Prop where
  state : ∀ name, g.Tells (.state name) ↔ h.Tells (.state name)
  edge : ∀ source target, g.Tells (.edge source target) ↔ h.Tells (.edge source target)
  label : ∀ name label, g.Tells (.label name label) → h.Tells (.label name label)

namespace EnrichedBy

/-- If labels are left aside, the graphs tell the same. -/
theorem alikeFrom (henriched : g.EnrichedBy h) (name : String) : AlikeFrom g h [] name where
  state := henriched.state name
  label _ _ _ ha := absurd ha List.not_mem_nil
  edge other _ next := henriched.edge other next

theorem satisfies_imp (henriched : g.EnrichedBy h) (hg : g.Consistent) (hh : h.Consistent)
    (hf : f.negationFree = true) (hs : g.stateId? name = some s) (ht : h.stateId? name = some t) :
    g.Satisfies f s → h.Satisfies f t := by
  have hR := (henriched.alikeFrom name).bisimulation hg hh
  refine hR.satisfies_of_negationFree ?_ hf ⟨name, .refl, hs, ht⟩
  rintro s t ⟨other, -, hs, ht⟩ a ha
  exact (tells_label ht).1 (henriched.label other a ((tells_label hs).2 ha))

variable {a b : StateSet}

theorem mem_imp (henriched : g.EnrichedBy h) (hg : g.Consistent) (hh : h.Consistent)
    (hf : f.negationFree = true) (ha : g.Denotes f a) (hb : h.Denotes f b)
    (hs : g.stateId? name = some s) (ht : h.stateId? name = some t) (hin : s ∈ a) : t ∈ b :=
  (hb.mem_iff t).2 ⟨hh.lt_of_index ht,
    henriched.satisfies_imp hg hh hf hs ht ((ha.mem_iff s).1 hin).2⟩

/-- The names of what satisfies the formula are kept. -/
theorem lists_subset (henriched : g.EnrichedBy h) (hg : g.Consistent) (hh : h.Consistent)
    (hf : f.negationFree = true) (ha : g.Denotes f a) (hb : h.Denotes f b)
    {names names' : List String} (hnames : g.Lists a names) (hnames' : h.Lists b names') :
    names ⊆ names' := by
  intro name hname
  obtain ⟨s, hs, hin⟩ := (hnames.mem_iff name).1 hname
  have hid := hg.stateId?_iff.2 hs
  obtain ⟨t, ht⟩ := (henriched.state name).1 ⟨s, hid⟩
  exact (hnames'.mem_iff name).2 ⟨t, hh.stateId?_iff.1 ht,
    henriched.mem_imp hg hh hf ha hb hid ht hin⟩

/-- If the states have the same numbers, so are the numbers. -/
theorem isSubset_ok (henriched : g.EnrichedBy h) (hg : g.Consistent) (hh : h.Consistent)
    (hf : f.negationFree = true) (ha : g.Denotes f a) (hb : h.Denotes f b)
    (hnames : h.names = g.names) : a.isSubset b = .ok true := by
  refine (StateSet.isSubset_iff ha.packed hb.packed).2 ⟨?_, fun s hs => ?_⟩
  · rw [ha.size, hb.size, size, size, hnames]
  · have hid := hg.stateId?_getD ((ha.mem_iff s).1 hs).1
    exact henriched.mem_imp hg hh hf ha hb hid (stateId?_congr hg hh hnames _ ▸ hid) hs

end EnrichedBy

end Graph

open ActorLogic.Graph

/-- Where only labels are added, a formula without negation is satisfied by no fewer states: their
names stay among the names that are found, and if the states have the same numbers in both graphs,
the one set is part of the other. -/
theorem Formula.sat_mono {g h : Graph} {f : Formula} (hg : g.Built) (hh : h.Built)
    (henriched : g.EnrichedBy h) (hf : f.negationFree = true) :
    ∃ a b, f.sat g = .ok a ∧ f.sat h = .ok b ∧
      (∃ names names', g.namesOf a = .ok names ∧ h.namesOf b = .ok names' ∧ names ⊆ names') ∧
      (h.names = g.names → a.isSubset b = .ok true) := by
  obtain ⟨a, hsat, ha⟩ := Graph.sat_ok hg.consistent f
  obtain ⟨b, hsat', hb⟩ := Graph.sat_ok hh.consistent f
  obtain ⟨names, hnames⟩ := Graph.exists_lists hg.consistent ha.packed ha.size
  obtain ⟨names', hnames'⟩ := Graph.exists_lists hh.consistent hb.packed hb.size
  exact ⟨a, b, hsat, hsat',
    ⟨names, names', hnames.ok, hnames'.ok,
      henriched.lists_subset hg.consistent hh.consistent hf ha hb hnames hnames'⟩,
    henriched.isSubset_ok hg.consistent hh.consistent hf ha hb⟩

/-- A label more, where an edge leads to. -/
theorem Formula.sat_mono_labelled :
    let few : List Edit := [.addState "wait" ["p"], .addState "stop" [], .addEdge 0 1]
    let more : List Edit :=
      [.addState "wait" ["p"], .addState "stop" ["p"], .addEdgeByName "wait" "stop"]
    let f : Formula := .ag (.atom "p")
    (ofEdits few).EnrichedBy (ofEdits more) ∧ f.negationFree = true ∧
      ∃ a b, f.sat (ofEdits few) = .ok a ∧ f.sat (ofEdits more) = .ok b ∧
        (∃ names names', (ofEdits few).namesOf a = .ok names ∧
          (ofEdits more).namesOf b = .ok names' ∧ names ⊆ names') ∧
        a.isSubset b = .ok true := by
  intro few more f
  have hfew : factsOf few = [.state "wait", .label "wait" "p", .state "stop", .edge "wait" "stop"] := by
    cbv
  have hmore : factsOf more =
      [.state "wait", .label "wait" "p", .state "stop", .label "stop" "p", .edge "wait" "stop"] := by
    cbv
  have henriched : (ofEdits few).EnrichedBy (ofEdits more) :=
    { state := fun name => by simp [tells_ofEdits, hfew, hmore]
      edge := fun source target => by simp [tells_ofEdits, hfew, hmore]
      label := fun name label => by simp +contextual [tells_ofEdits, hfew, hmore] }
  have hnames : (ofEdits more).names = (ofEdits few).names := by cbv
  obtain ⟨a, b, ha, hb, hkept, hsubset⟩ :=
    Formula.sat_mono (.inl ⟨few, rfl⟩) (.inl ⟨more, rfl⟩) henriched (f := f) rfl
  exact ⟨henriched, rfl, a, b, ha, hb, hkept, hsubset hnames⟩

end ActorLogic
