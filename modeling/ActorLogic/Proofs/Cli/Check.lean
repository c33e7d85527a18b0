import ActorLogic.Cli.Run
import ActorLogic.Proofs.Ctl.Answers
import ActorLogic.Proofs.Model.BufferProperties
/-!
# How the check of formulas ends

The command that checks formulas selects them first and loads the graph then, and each of the two can
fail. So the error that it reports is the first one in this order. Without an error all formulas are
judged, each on its own, and the exit status tells whether the initial states satisfy them. The model
can be too large for its states to be listed at all: then the command stops on a fault, whatever it
was to judge.
-/

namespace ActorLogic.Cli

open Result

/-! ## Selecting formulas -/

/-- The first of the texts that is no formula, and why it is none. -/
def FirstRefused (texts : List String) (text : String) (e : SyntaxError) : Prop :=
  ∃ before after, texts = before ++ text :: after ∧
    (∀ earlier ∈ before, ∃ f, Formula.parse earlier = .ok f) ∧ Formula.parse text = .error e

theorem readProperty_eq_ok {text : String} {p : Property} :
    readProperty text = .ok p ↔ p.1 = text ∧ Formula.parse text = .ok p.2 := by
  obtain ⟨name, f⟩ := p
  unfold readProperty
  cases Formula.parse text with
  | ok f' => simp [eq_comm]
  | error e => simp

theorem readProperty_eq_error {text : String} {err : CliError} :
    readProperty text = .error err ↔
      ∃ e, Formula.parse text = .error e ∧ err = .badFormula text e := by
  unfold readProperty
  cases Formula.parse text with
  | ok f => simp
  | error e => simp [eq_comm]

theorem mapM_readProperty_eq_error {texts : List String} {err : CliError} :
    texts.mapM readProperty = .error err ↔
      ∃ text e, FirstRefused texts text e ∧ err = .badFormula text e := by
  have hread : ∀ text, (∃ p, readProperty text = .ok p) ↔ ∃ f, Formula.parse text = .ok f :=
    fun text => ⟨fun ⟨p, hp⟩ => ⟨p.2, (readProperty_eq_ok.1 hp).2⟩,
      fun ⟨f, hf⟩ => ⟨(text, f), readProperty_eq_ok.2 ⟨rfl, hf⟩⟩⟩
  rw [mapM_eq_error_iff]
  simp only [hread, readProperty_eq_error, FirstRefused]
  constructor
  · rintro ⟨before, text, after, hl, hbefore, e, he, rfl⟩
    exact ⟨text, e, ⟨before, after, hl, hbefore, he⟩, rfl⟩
  · rintro ⟨text, e, ⟨before, after, hl, hbefore, he⟩, rfl⟩
    exact ⟨before, text, after, hl, hbefore, e, he, rfl⟩

namespace CheckOptions

variable {o : CheckOptions} {files : Files} {properties : List Property} {g : Graph} {err : CliError}

/-- The formulas that are judged: those that are given, called by their texts, or else the model's
own. -/
inductive Selects (o : CheckOptions) : List Property → Prop where
  | own : o.formulas = [] → o.graph = none → o.Selects BoundedBuffer.properties
  | given {properties : List Property} : o.formulas ≠ [] →
      List.Forall₂ (fun text p => p.1 = text ∧ Formula.parse text = .ok p.2) o.formulas properties →
      o.Selects properties

/-- Why no formulas can be selected. Files have no part in it. -/
inductive SelectFails (o : CheckOptions) : CliError → Prop where
  | missingFormula {path : String} : o.formulas = [] → o.graph = some path →
      o.SelectFails .missingFormula
  | badFormula {text : String} {e : SyntaxError} : FirstRefused o.formulas text e →
      o.SelectFails (.badFormula text e)

theorem properties_of_own (h : o.formulas = []) :
    o.properties = match o.graph with
      | some _ => .error .missingFormula
      | none => .ok BoundedBuffer.properties := by
  unfold CheckOptions.properties
  rw [h]
  cases o.graph <;> rfl

theorem properties_of_given (h : o.formulas ≠ []) : o.properties = o.formulas.mapM readProperty := by
  unfold CheckOptions.properties
  split <;> first | contradiction | rfl

theorem properties_eq_ok : o.properties = .ok properties ↔ o.Selects properties := by
  constructor
  · intro h
    by_cases hown : o.formulas = []
    · rw [properties_of_own hown] at h
      split at h <;> cases h
      next hgraph => exact .own hown hgraph
    · rw [properties_of_given hown, mapM_eq_ok_iff] at h
      exact .given hown (h.imp fun _ _ => readProperty_eq_ok.1)
  · intro h
    cases h with
    | own hown hgraph => rw [properties_of_own hown, hgraph]
    | given hgiven hread =>
      rw [properties_of_given hgiven, mapM_eq_ok_iff]
      exact hread.imp fun _ _ => readProperty_eq_ok.2

theorem properties_eq_error : o.properties = .error err ↔ o.SelectFails err := by
  constructor
  · intro h
    by_cases hown : o.formulas = []
    · rw [properties_of_own hown] at h
      split at h <;> cases h
      next hgraph => exact .missingFormula hown hgraph
    · rw [properties_of_given hown, mapM_readProperty_eq_error] at h
      obtain ⟨text, e, hfirst, rfl⟩ := h
      exact .badFormula hfirst
  · intro h
    cases h with
    | missingFormula hown hgraph => rw [properties_of_own hown, hgraph]
    | badFormula hfirst =>
      have hgiven : o.formulas ≠ [] := by
        obtain ⟨before, after, hl, -⟩ := hfirst
        simp [hl]
      rw [properties_of_given hgiven, mapM_readProperty_eq_error]
      exact ⟨_, _, hfirst, rfl⟩

end CheckOptions

/-! ## Loading the graph -/

/-- The whole text is the description of a graph. -/
def Describes (text : String) (g : Graph) : Prop :=
  ∃ j d, Json.read? text = some j ∧ GraphDescription.ofJson? j = some d ∧ d.toGraph = .ok g

/-- The text begins with a description that does not hang together. -/
def Misdescribes (text : String) (e : GraphError) : Prop :=
  ∃ j rest d, Json.readValue? text = some (j, rest) ∧ GraphDescription.ofJson? j = some d ∧
    d.toGraph = .error e

section Texts

variable {path text : String} {g : Graph} {e : GraphError} {err : CliError}

theorem Describes.unique {g' : Graph} (h : Describes text g) (h' : Describes text g') : g = g' := by
  obtain ⟨j, d, hj, hd, hg⟩ := h
  obtain ⟨j', d', hj', hd', hg'⟩ := h'
  cases hj.symm.trans hj'
  cases hd.symm.trans hd'
  exact Except.ok.inj (hg.symm.trans hg')

/-- What a text comes to: a graph, a description that does not hang together, or neither. -/
theorem readGraph_cases (path text : String) :
    (∃ g, readGraph path text = .ok g ∧ Describes text g ∧ ∀ e, ¬ Misdescribes text e) ∨
      (∃ e, readGraph path text = .error (.badGraph path e) ∧ Misdescribes text e ∧
        ∀ g, ¬ Describes text g) ∨
      readGraph path text = .error (.malformed path) ∧ (∀ e, ¬ Misdescribes text e) ∧
        ∀ g, ¬ Describes text g := by
  unfold readGraph Describes Misdescribes Json.read?
  cases hvalue : Json.readValue? text with
  | none => simp
  | some value =>
    obtain ⟨j, rest⟩ := value
    cases hdescription : GraphDescription.ofJson? j with
    | none =>
      by_cases hend : Json.atEnd rest <;> simp [hdescription, hend]
    | some d =>
      cases hgraph : d.toGraph with
      | error e =>
        by_cases hend : Json.atEnd rest <;> simp [hdescription, hgraph, hend]
      | ok g =>
        by_cases hend : Json.atEnd rest <;> simp [hdescription, hgraph, hend]

theorem readGraph_eq_ok : readGraph path text = .ok g ↔ Describes text g := by
  obtain ⟨g', hread, hg', -⟩ | ⟨e, hread, -, hnone⟩ | ⟨hread, -, hnone⟩ := readGraph_cases path text
  · rw [hread, Except.ok.injEq]
    exact ⟨fun heq => heq ▸ hg', hg'.unique⟩
  · simp [hread, hnone g]
  · simp [hread, hnone g]

theorem readGraph_of_misdescribes (h : Misdescribes text e) :
    readGraph path text = .error (.badGraph path e) := by
  obtain ⟨j, rest, d, hvalue, hdescription, hgraph⟩ := h
  simp only [readGraph, hvalue, hdescription, hgraph]

theorem readGraph_of_neither (hno : ∀ e, ¬ Misdescribes text e) (hnone : ∀ g, ¬ Describes text g) :
    readGraph path text = .error (.malformed path) := by
  obtain ⟨g, -, hg, -⟩ | ⟨e, -, he, -⟩ | ⟨hread, -, -⟩ := readGraph_cases path text
  · exact absurd hg (hnone g)
  · exact absurd he (hno e)
  · exact hread

end Texts

namespace CheckOptions

variable {o : CheckOptions} {files : Files} {properties : List Property} {g : Graph} {err : CliError}

/-- The graph by which formulas are judged: the one that a file describes, or else the model. -/
inductive Loads (o : CheckOptions) (files : Files) : Graph → Prop where
  | file {path text : String} {g : Graph} : o.graph = some path → files path = .ok text →
      Describes text g → o.Loads files g
  | model : o.graph = none → 0 < o.capacity → o.capacity + 1 < 1 <<< 60 →
      o.Loads files (BoundedBuffer.graph o.capacity)

/-- Why no graph can be loaded. -/
inductive LoadFails (o : CheckOptions) (files : Files) : CliError → Prop where
  | unreadable {path : String} {e : FileError} : o.graph = some path → files path = .error e →
      o.LoadFails files (.unreadable path e)
  | badGraph {path text : String} {e : GraphError} : o.graph = some path → files path = .ok text →
      Misdescribes text e → o.LoadFails files (.badGraph path e)
  | malformed {path text : String} : o.graph = some path → files path = .ok text →
      (∀ e, ¬ Misdescribes text e) → (∀ g, ¬ Describes text g) →
      o.LoadFails files (.malformed path)
  | zeroCapacity : o.graph = none → o.capacity = 0 → o.LoadFails files .zeroCapacity
  /-- There is no room for the states of the model. -/
  | noRoom : o.graph = none → 1 <<< 60 ≤ o.capacity + 1 →
      o.LoadFails files (.memoryFault .capacityOverflow)

theorem capacity_ne_zero (h : 1 <<< 60 ≤ o.capacity + 1) : o.capacity ≠ 0 := by
  intro hzero
  rw [hzero] at h
  exact absurd h (by decide)

theorem loadGraph_of_model (h : o.graph = none) : o.loadGraph files =
    if o.capacity = 0 then .error .zeroCapacity
    else (BoundedBuffer.allocate o.capacity).mapError .memoryFault := by
  rw [loadGraph, h]

theorem loadGraph_of_text {path text : String} (h : o.graph = some path)
    (htext : files path = .ok text) : o.loadGraph files = readGraph path text := by
  rw [loadGraph, h]
  simp [readFile, htext, Except.mapError]

theorem loadGraph_of_unreadable {path : String} {e : FileError} (h : o.graph = some path)
    (he : files path = .error e) : o.loadGraph files = .error (.unreadable path e) := by
  rw [loadGraph, h]
  simp [readFile, he, Except.mapError, bind, Except.bind]

/-- Either a graph is loaded or there is an error. -/
theorem loadGraph_cases (o : CheckOptions) (files : Files) :
    (∃ g, o.loadGraph files = .ok g ∧ o.Loads files g) ∨
      ∃ err, o.loadGraph files = .error err ∧ o.LoadFails files err := by
  cases hgraph : o.graph with
  | none =>
    rw [loadGraph_of_model hgraph]
    split
    · next hzero => exact .inr ⟨_, rfl, .zeroCapacity hgraph hzero⟩
    · next hpos =>
      cases hmade : BoundedBuffer.allocate o.capacity with
      | ok g =>
        obtain ⟨hroom, rfl⟩ := BoundedBuffer.allocate_eq_ok.1 hmade
        exact .inl ⟨_, rfl, .model hgraph (Nat.pos_of_ne_zero hpos) hroom⟩
      | error f =>
        obtain ⟨hlarge, rfl⟩ := BoundedBuffer.allocate_eq_error.1 hmade
        exact .inr ⟨_, rfl, .noRoom hgraph hlarge⟩
  | some path =>
    cases htext : files path with
    | error e => exact .inr ⟨_, loadGraph_of_unreadable hgraph htext, .unreadable hgraph htext⟩
    | ok text =>
      rw [loadGraph_of_text hgraph htext]
      obtain ⟨g, hread, hg, -⟩ | ⟨e, hread, he, -⟩ | ⟨hread, hno, hnone⟩ := readGraph_cases path text
      · exact .inl ⟨g, hread, .file hgraph htext hg⟩
      · exact .inr ⟨_, hread, .badGraph hgraph htext he⟩
      · exact .inr ⟨_, hread, .malformed hgraph htext hno hnone⟩

theorem loadGraph_eq_ok : o.loadGraph files = .ok g ↔ o.Loads files g := by
  constructor
  · intro h
    obtain ⟨g', hok, hg'⟩ | ⟨err, herr, -⟩ := o.loadGraph_cases files
    · exact Except.ok.inj (hok.symm.trans h) ▸ hg'
    · cases herr.symm.trans h
  · intro h
    cases h with
    | file hgraph htext hg => rw [loadGraph_of_text hgraph htext, readGraph_eq_ok.2 hg]
    | model hgraph hpos hroom =>
      rw [loadGraph_of_model hgraph, if_neg (Nat.ne_of_gt hpos),
        BoundedBuffer.allocate_eq_ok.2 ⟨hroom, rfl⟩]
      rfl

theorem loadGraph_eq_error : o.loadGraph files = .error err ↔ o.LoadFails files err := by
  constructor
  · intro h
    obtain ⟨g, hok, -⟩ | ⟨err', herr, hfails⟩ := o.loadGraph_cases files
    · cases hok.symm.trans h
    · exact Except.error.inj (herr.symm.trans h) ▸ hfails
  · intro h
    cases h with
    | unreadable hgraph he => exact loadGraph_of_unreadable hgraph he
    | badGraph hgraph htext he =>
      rw [loadGraph_of_text hgraph htext, readGraph_of_misdescribes he]
    | malformed hgraph htext hno hnone =>
      rw [loadGraph_of_text hgraph htext, readGraph_of_neither hno hnone]
    | zeroCapacity hgraph hzero => rw [loadGraph_of_model hgraph, if_pos hzero]
    | noRoom hgraph hlarge =>
      rw [loadGraph_of_model hgraph, if_neg (capacity_ne_zero hlarge),
        BoundedBuffer.allocate_eq_error.2 ⟨hlarge, rfl⟩]
      rfl

/-- What is loaded is kept consistent by the calls that built it, and has its initial states. -/
theorem Loads.consistent (h : o.Loads files g) : g.Consistent ∧ ∀ s ∈ g.initial, s < g.size := by
  cases h with
  | file _ _ hg =>
    obtain ⟨-, d, -, -, hgraph⟩ := hg
    have hbuilt : g.Built := .inr ⟨d, hgraph⟩
    exact ⟨hbuilt.consistent, hbuilt.wellFormed.initial_lt⟩
  | model =>
    refine ⟨BoundedBuffer.consistent_graph _, ?_⟩
    simp [BoundedBuffer.initial_graph, BoundedBuffer.size_graph]

end CheckOptions

/-! ## Reports -/

/-- The report tells what the graph makes of a formula. -/
structure FormulaReport.Tells (g : Graph) (p : Property) (r : FormulaReport) : Prop where
  formula : r.formula = p.1
  /-- It repeats the verdict on the formula, with states called by their names. -/
  verdict : ∃ v, Verdict.judge g p.2 = .ok v ∧ r.holds = v.holds ∧
    g.namesOf v.satisfying = .ok r.satisfying ∧ v.violating.mapM g.nameOf = .ok r.violating ∧
    r.rounds = totalRounds v.traces
  holds : r.holds = true ↔ ∀ s ∈ g.initial, g.Satisfies p.2 s
  satisfying : ∀ name, name ∈ r.satisfying ↔ ∃ s : Nat, g.nameOf s = .ok name ∧ g.Satisfies p.2 s
  violating : ∀ name, name ∈ r.violating ↔
    ∃ s ∈ g.initial, g.nameOf s = .ok name ∧ ¬ g.Satisfies p.2 s

namespace FormulaReport

variable {g : Graph} {p : Property} {r : FormulaReport}

/-- Every formula is judged, and the report on it tells what holds. -/
theorem judge_tells (hg : g.Consistent) (hinitial : ∀ s ∈ g.initial, s < g.size) (p : Property) :
    ∃ r, judge g p = .ok r ∧ r.Tells g p := by
  obtain ⟨v, hjudge, -, hdenotes, hviolating⟩ := Graph.judge_ok hg p.2
  obtain ⟨names, hnames⟩ := Graph.exists_lists hg hdenotes.packed hdenotes.size
  have hviolates : ∀ s, s ∈ v.violating ↔ s ∈ g.initial ∧ ¬ g.Satisfies p.2 s := by
    intro s
    rw [hviolating, List.mem_filter, decide_eq_true_iff]
    refine and_congr_right fun hs => not_congr ?_
    rw [hdenotes.mem_iff, and_iff_right (hinitial s hs)]
  have hviolated := Graph.mapM_nameOf fun s hs => hinitial s ((hviolates s).1 hs).1
  let r : FormulaReport :=
    { formula := p.1
      holds := v.holds
      satisfying := names
      violating := v.violating.map fun s => g.names.getD s ""
      rounds := totalRounds v.traces }
  have hreport : judge g p = .ok r := by
    rw [judge, hjudge, ok_bind, hnames.ok, ok_bind, hviolated, ok_bind]
    rfl
  refine ⟨r, hreport, rfl, ⟨v, hjudge, rfl, hnames.ok, hviolated, rfl⟩, ?_, fun name => ?_,
    fun name => ?_⟩
  · change v.holds = true ↔ _
    rw [Verdict.holds, List.isEmpty_iff, List.eq_nil_iff_forall_not_mem]
    exact forall_congr' fun s => by rw [hviolates, not_and, not_not]
  · refine (hnames.mem_iff name).trans (exists_congr fun s => and_congr_right fun hname => ?_)
    rw [hdenotes.mem_iff, and_iff_right (hg.lt_of_index (hg.stateId?_iff.2 hname))]
  · rw [mem_iff_of_mapM hviolated]
    exact exists_congr fun s => by rw [hviolates, and_assoc, and_comm (b := g.nameOf s = _)]

/-- All formulas are judged, each as if there were no other. -/
theorem mapM_judge (hg : g.Consistent) (hinitial : ∀ s ∈ g.initial, s < g.size)
    (properties : List Property) :
    ∃ reports, properties.mapM (judge g) = .ok reports ∧
      List.Forall₂ (fun p r => r.Tells g p) properties reports := by
  have htells := judge_tells hg hinitial
  cases hreports : properties.mapM (judge g) with
  | error f =>
    obtain ⟨-, p, -, -, -, hp⟩ := mapM_eq_error_iff.1 hreports
    obtain ⟨r, hr, -⟩ := htells p
    cases hp.symm.trans hr
  | ok reports =>
    refine ⟨reports, rfl, (mapM_eq_ok_iff.1 hreports).imp fun p r hr => ?_⟩
    obtain ⟨r', hr', htold⟩ := htells p
    cases hr.symm.trans hr'
    exact htold

end FormulaReport

/-- All formulas hold if and only if all initial states satisfy all of them. -/
theorem all_holds_iff {g : Graph} {properties : List Property} {reports : List FormulaReport}
    (h : List.Forall₂ (fun p r => r.Tells g p) properties reports) :
    reports.all (·.holds) = true ↔ ∀ p ∈ properties, ∀ s ∈ g.initial, g.Satisfies p.2 s := by
  induction h with
  | nil => simp
  | cons htells _ ih =>
    rw [List.all_cons, Bool.and_eq_true, htells.holds, ih, List.forall_mem_cons]

/-! ## The command -/

namespace CheckOptions

variable {o : CheckOptions} {files : Files} {properties : List Property} {g : Graph} {err : CliError}
  {reports : List FormulaReport}

/-- The error that is reported: that of the selection, or else that of the graph. -/
inductive Refuses (o : CheckOptions) (files : Files) : CliError → Prop where
  | selecting {err : CliError} : o.SelectFails err → o.Refuses files err
  | loading {err : CliError} {properties : List Property} : o.Selects properties →
      o.LoadFails files err → o.Refuses files err

/-- The formulas are selected, but there is no room for the states of the model. -/
structure Overflows (o : CheckOptions) : Prop where
  selected : ∃ properties, o.Selects properties
  model : o.graph = none
  states : 1 <<< 60 ≤ o.capacity + 1

theorem refuses_capacityOverflow :
    o.Refuses files (.memoryFault .capacityOverflow) ↔ o.Overflows := by
  constructor
  · intro h
    cases h with
    | selecting h => cases h
    | loading hselects h =>
      cases h with
      | noRoom hgraph hlarge => exact ⟨⟨_, hselects⟩, hgraph, hlarge⟩
  · rintro ⟨⟨properties, hselects⟩, hgraph, hlarge⟩
    exact .loading hselects (.noRoom hgraph hlarge)

/-- The user can mend every error of the command, but for the fault. -/
theorem Refuses.status (h : o.Refuses files err) :
    err.status = if err = .memoryFault .capacityOverflow then 101 else 2 := by
  cases h with
  | selecting h => cases h <;> rfl
  | loading _ h => cases h <;> rfl

/-- Once formulas are selected and the graph is loaded, nothing fails. -/
theorem check_of_selects (hselects : o.Selects properties) (hloads : o.Loads files g) :
    ∃ reports, o.check files = .ok reports ∧
      List.Forall₂ (fun p r => r.Tells g p) properties reports := by
  obtain ⟨hg, hinitial⟩ := hloads.consistent
  obtain ⟨reports, hreports, htells⟩ := FormulaReport.mapM_judge hg hinitial properties
  refine ⟨reports, ?_, htells⟩
  rw [check, properties_eq_ok.2 hselects, ok_bind, loadGraph_eq_ok.2 hloads, ok_bind, hreports]
  rfl

theorem check_eq_error : o.check files = .error err ↔ o.Refuses files err := by
  constructor
  · intro h
    obtain hselect | ⟨properties, hselects, hrest⟩ := bind_eq_error.1 h
    · exact .selecting (properties_eq_error.1 hselect)
    obtain hload | ⟨g, hloads, -⟩ := bind_eq_error.1 hrest
    · exact .loading (properties_eq_ok.1 hselects) (loadGraph_eq_error.1 hload)
    · obtain ⟨reports, hreports, -⟩ :=
        check_of_selects (properties_eq_ok.1 hselects) (loadGraph_eq_ok.1 hloads)
      cases h.symm.trans hreports
  · intro h
    cases h with
    | selecting hselect => exact bind_eq_error.2 (.inl (properties_eq_error.2 hselect))
    | loading hselects hload =>
      refine bind_eq_error.2 (.inr ⟨_, properties_eq_ok.2 hselects, ?_⟩)
      exact bind_eq_error.2 (.inl (loadGraph_eq_error.2 hload))

theorem Refuses.unique {err' : CliError} (h : o.Refuses files err) (h' : o.Refuses files err') :
    err = err' :=
  Except.error.inj ((check_eq_error.2 h).symm.trans (check_eq_error.2 h'))

/-- The reports are on the selected formulas, in their order. -/
theorem check_eq_ok (h : o.check files = .ok reports) :
    ∃ properties g, o.Selects properties ∧ o.Loads files g ∧
      properties.mapM (FormulaReport.judge g) = .ok reports := by
  obtain ⟨properties, hselects, hrest⟩ := bind_eq_ok.1 h
  obtain ⟨g, hloads, hjudged⟩ := bind_eq_ok.1 hrest
  refine ⟨properties, g, properties_eq_ok.1 hselects, loadGraph_eq_ok.1 hloads, ?_⟩
  cases hreports : properties.mapM (FormulaReport.judge g) with
  | error f => simp [hreports, Except.mapError] at hjudged
  | ok found =>
    rw [hreports] at hjudged
    cases hjudged
    rfl

/-- What a command selects and loads is settled by its options. -/
theorem Selects.unique {properties' : List Property} (h : o.Selects properties)
    (h' : o.Selects properties') : properties = properties' :=
  Except.ok.inj ((properties_eq_ok.2 h).symm.trans (properties_eq_ok.2 h'))

theorem Loads.unique {g' : Graph} (h : o.Loads files g) (h' : o.Loads files g') : g = g' :=
  Except.ok.inj ((loadGraph_eq_ok.2 h).symm.trans (loadGraph_eq_ok.2 h'))

theorem exists_selected_iff {C : List Property → Graph → Prop} (hselects : o.Selects properties)
    (hloads : o.Loads files g) :
    (∃ properties g, o.Selects properties ∧ o.Loads files g ∧ C properties g) ↔ C properties g := by
  constructor
  · rintro ⟨properties', g', hselects', hloads', h⟩
    cases hselects.unique hselects'
    cases hloads.unique hloads'
    exact h
  · exact fun h => ⟨properties, g, hselects, hloads, h⟩

/-- How a command ends. -/
structure Ends (o : CheckOptions) (files : Files) (outcome : Outcome) : Prop where
  refused : outcome.status = 2 ↔
    ∃ err, outcome.error = some err ∧ err ≠ .memoryFault .capacityOverflow
  /-- The fault stops the command with a status of its own. -/
  stopped : outcome.status = 101 ↔ o.Overflows
  /-- One error is reported, and it is the first one. -/
  error : ∀ err, outcome.error = some err ↔ o.Refuses files err
  /-- Without an error, formulas are selected and a graph is loaded, -/
  selected : outcome.error = none → ∃ properties g, o.Selects properties ∧ o.Loads files g
  /-- and there is a report on each of these formulas, in order. -/
  reported : ∀ properties g, o.Selects properties → o.Loads files g →
    ∃ reports, outcome = .ofReports o.json reports ∧
      List.Forall₂ (fun p r => r.Tells g p) properties reports
  satisfied : outcome.status = 0 ↔ ∃ properties g, o.Selects properties ∧ o.Loads files g ∧
    ∀ p ∈ properties, ∀ s ∈ g.initial, g.Satisfies p.2 s
  violated : outcome.status = 1 ↔ ∃ properties g, o.Selects properties ∧ o.Loads files g ∧
    ∃ p ∈ properties, ∃ s ∈ g.initial, ¬ g.Satisfies p.2 s
  /-- Whichever other formulas are given and in whichever order, the report on a formula of the same
  graph is the same. -/
  independent : ∀ (other : CheckOptions) (reports reports' : List FormulaReport),
    other.graph = o.graph → other.capacity = o.capacity →
    o.check files = .ok reports → other.check files = .ok reports' →
    ∀ (i j : Nat) (text : String), o.formulas[i]? = some text → other.formulas[j]? = some text →
      ∃ r, reports[i]? = some r ∧ reports'[j]? = some r
  /-- The model has its own properties, as long as there is room in the buffer and room for its
  states. -/
  own : o.formulas = [] → o.graph = none → outcome.status =
    if o.capacity = 0 then 2 else if o.capacity + 1 < 1 <<< 60 then 0 else 101

theorem not_refuses (hselects : o.Selects properties) (hloads : o.Loads files g) :
    ¬ o.Refuses files err := by
  intro h
  obtain ⟨reports, hreports, -⟩ := check_of_selects hselects hloads
  cases (check_eq_error.2 h).symm.trans hreports

/-- The report on a given formula is that on the graph and on this formula alone. -/
theorem exists_report {i : Nat} {text : String} (h : o.check files = .ok reports)
    (hloads : o.Loads files g) (htext : o.formulas[i]? = some text) :
    ∃ p r, readProperty text = .ok p ∧ FormulaReport.judge g p = .ok r ∧ reports[i]? = some r := by
  obtain ⟨properties, g', hselects, hloads', hjudged⟩ := check_eq_ok h
  cases hloads.unique hloads'
  have hgiven : o.formulas ≠ [] := List.ne_nil_of_mem (List.mem_of_getElem? htext)
  have hread := properties_eq_ok.2 hselects
  rw [properties_of_given hgiven] at hread
  obtain ⟨p, hp, hparse⟩ := getElem?_of_mapM hread htext
  obtain ⟨r, hr, hjudge⟩ := getElem?_of_mapM hjudged hp
  exact ⟨p, r, hparse, hjudge, hr⟩

theorem independent_reports {other : CheckOptions} {reports' : List FormulaReport} {i j : Nat}
    {text : String} (hgraph : other.graph = o.graph) (hcapacity : other.capacity = o.capacity)
    (h : o.check files = .ok reports) (h' : other.check files = .ok reports')
    (htext : o.formulas[i]? = some text) (htext' : other.formulas[j]? = some text) :
    ∃ r, reports[i]? = some r ∧ reports'[j]? = some r := by
  obtain ⟨-, g, -, hloads, -⟩ := check_eq_ok h
  have hsame : other.loadGraph files = o.loadGraph files := by
    rw [loadGraph, loadGraph, hgraph, hcapacity]
  have hloads' : other.Loads files g := loadGraph_eq_ok.1 (hsame.trans (loadGraph_eq_ok.2 hloads))
  obtain ⟨p, r, hp, hr, hat⟩ := exists_report h hloads htext
  obtain ⟨p', r', hp', hr', hat'⟩ := exists_report h' hloads' htext'
  cases hp.symm.trans hp'
  cases hr.symm.trans hr'
  exact ⟨r, hat, hat'⟩

/-- A buffer without room is refused, one whose states have no room is a fault, and any other has its
own properties. -/
theorem own_cases (files : Files) (hown : o.formulas = []) (hgraph : o.graph = none) :
    (o.capacity = 0 ∧ o.Refuses files .zeroCapacity) ∨
      (1 <<< 60 ≤ o.capacity + 1 ∧ o.Refuses files (.memoryFault .capacityOverflow)) ∨
      0 < o.capacity ∧ o.capacity + 1 < 1 <<< 60 ∧ o.Selects BoundedBuffer.properties ∧
        o.Loads files (BoundedBuffer.graph o.capacity) ∧
        ∀ p ∈ BoundedBuffer.properties, ∀ s ∈ (BoundedBuffer.graph o.capacity).initial,
          (BoundedBuffer.graph o.capacity).Satisfies p.2 s := by
  have hselects : o.Selects BoundedBuffer.properties := .own hown hgraph
  rcases Nat.eq_zero_or_pos o.capacity with hzero | hpos
  · exact .inl ⟨hzero, .loading hselects (.zeroCapacity hgraph hzero)⟩
  rcases Nat.lt_or_ge (o.capacity + 1) (1 <<< 60) with hroom | hlarge
  · have hloads : o.Loads files (BoundedBuffer.graph o.capacity) := .model hgraph hpos hroom
    exact .inr (.inr ⟨hpos, hroom, hselects, hloads, fun p hp s hs =>
      BoundedBuffer.satisfies_of_mem_properties hpos hp (hloads.consistent.2 s hs)⟩)
  · exact .inr (.inl ⟨hlarge, .loading hselects (.noRoom hgraph hlarge)⟩)

/-- The statuses 0 and 1 are for reports. -/
theorem Refuses.one_lt_status (h : o.Refuses files err) : 1 < err.status := by
  rw [h.status]
  split <;> decide

theorem Refuses.not_exists_selected {C : List Property → Graph → Prop} (h : o.Refuses files err) :
    ¬ ∃ properties g, o.Selects properties ∧ o.Loads files g ∧ C properties g :=
  fun ⟨_, _, hselects, hloads, _⟩ => not_refuses hselects hloads h

/-- The status of a fault is its own. -/
theorem Refuses.stops_iff (h : o.Refuses files err) : err.status = 101 ↔ o.Overflows := by
  rw [h.status]
  split
  · next hfault => exact iff_of_true rfl (refuses_capacityOverflow.1 (hfault ▸ h))
  · next herror =>
    exact iff_of_false nofun fun hover => herror (h.unique (refuses_capacityOverflow.2 hover))

theorem ends_of_refuses (h : o.Refuses files err) : o.Ends files (.failure err) where
  refused := by
    change err.status = 2 ↔ ∃ err', some err = some err' ∧ err' ≠ _
    rw [h.status]
    split
    · next hfault => simp [hfault]
    · next herror => exact iff_of_true rfl ⟨err, rfl, herror⟩
  stopped := h.stops_iff
  error err' := ⟨fun heq => Option.some.inj heq ▸ h, fun h' => congrArg some (h.unique h')⟩
  selected := nofun
  reported _ _ hselects hloads := absurd h (not_refuses hselects hloads)
  satisfied := iff_of_false (Nat.ne_of_gt (Nat.zero_lt_of_lt h.one_lt_status)) h.not_exists_selected
  violated := iff_of_false (Nat.ne_of_gt h.one_lt_status) h.not_exists_selected
  independent _ _ _ hgraph hcapacity hok hok' _ _ _ :=
    independent_reports hgraph hcapacity hok hok'
  own hown hgraph := by
    obtain ⟨hzero, hrefuses⟩ | ⟨hlarge, hrefuses⟩ | ⟨-, -, hselects, hloads, -⟩ :=
      own_cases files hown hgraph
    · obtain rfl := h.unique hrefuses
      rw [if_pos hzero]
      rfl
    · obtain rfl := h.unique hrefuses
      rw [if_neg (capacity_ne_zero hlarge), if_neg (Nat.not_lt.2 hlarge)]
      rfl
    · exact absurd h (not_refuses hselects hloads)

theorem ends_of_reports (hselects : o.Selects properties) (hloads : o.Loads files g)
    (htells : List.Forall₂ (fun p r => r.Tells g p) properties reports) :
    o.Ends files (.ofReports o.json reports) := by
  have hall := all_holds_iff htells
  have hstatus : (Outcome.ofReports o.json reports).status =
      if reports.all (·.holds) = true then 0 else 1 := rfl
  have hjudged : (Outcome.ofReports o.json reports).status = 0 ∨
      (Outcome.ofReports o.json reports).status = 1 := by
    rw [hstatus]
    split <;> simp
  have hsatisfied : (Outcome.ofReports o.json reports).status = 0 ↔
      ∀ p ∈ properties, ∀ s ∈ g.initial, g.Satisfies p.2 s := by
    rw [hstatus, ← hall]
    split <;> simp [*]
  have hviolated : (Outcome.ofReports o.json reports).status = 1 ↔
      ∃ p ∈ properties, ∃ s ∈ g.initial, ¬ g.Satisfies p.2 s := by
    have hnot : (Outcome.ofReports o.json reports).status = 1 ↔
        ¬ ∀ p ∈ properties, ∀ s ∈ g.initial, g.Satisfies p.2 s := by
      rw [hstatus, ← hall]
      split <;> simp [*]
    simpa only [not_forall, exists_prop] using hnot
  refine
    { refused := ?_
      stopped := ?_
      error := fun err => ⟨nofun, fun h => absurd h (not_refuses hselects hloads)⟩
      selected := fun _ => ⟨_, g, hselects, hloads⟩
      reported := ?_
      satisfied := by rw [exists_selected_iff hselects hloads, hsatisfied]
      violated := by rw [exists_selected_iff hselects hloads, hviolated]
      independent := fun _ _ _ hgraph hcapacity hok hok' _ _ _ =>
        independent_reports hgraph hcapacity hok hok'
      own := ?_ }
  · exact iff_of_false (fun htwo => by simp [htwo] at hjudged) nofun
  · exact iff_of_false (fun hfault => by simp [hfault] at hjudged) fun hover =>
      not_refuses hselects hloads (refuses_capacityOverflow.2 hover)
  · intro properties' g' hselects' hloads'
    cases hselects.unique hselects'
    cases hloads.unique hloads'
    exact ⟨reports, rfl, htells⟩
  · intro hown hgraph
    obtain ⟨-, hrefuses⟩ | ⟨-, hrefuses⟩ | ⟨hpos, hroom, hselects', hloads', h⟩ :=
      own_cases files hown hgraph
    · exact absurd hrefuses (not_refuses hselects hloads)
    · exact absurd hrefuses (not_refuses hselects hloads)
    · cases hselects.unique hselects'
      cases hloads.unique hloads'
      rw [if_neg (Nat.ne_of_gt hpos), if_pos hroom]
      exact hsatisfied.2 h

theorem run_ends (o : CheckOptions) (files : Files) (fresh : UInt64) :
    o.Ends files ((Command.check o).run files fresh) := by
  cases hcheck : o.check files with
  | error err =>
    rw [Command.run, hcheck]
    exact ends_of_refuses (check_eq_error.1 hcheck)
  | ok reports =>
    obtain ⟨properties, g, hselects, hloads, -⟩ := check_eq_ok hcheck
    obtain ⟨reports', hreports, htells⟩ := check_of_selects hselects hloads
    cases hcheck.symm.trans hreports
    rw [Command.run, hcheck]
    exact ends_of_reports hselects hloads htells

end CheckOptions

/-- Every command line that asks for formulas to be checked ends with the error that comes first, or
else with the reports on all formulas and a status that tells whether they hold. -/
theorem runArgs_ends {args : List String} {o : CheckOptions}
    (h : Command.ofArgs? args = some (.check o)) (files : Files) (fresh : UInt64) :
    o.Ends files (runArgs args files fresh) := by
  rw [runArgs, h]
  exact o.run_ends files fresh

/-- A file that cannot be read, but a formula that cannot be read either. -/
theorem runArgs_ends_formula :
    let o : CheckOptions := { graph := some "g.json", formulas := ["EF done", "AG ("] }
    let files : Files := fun _ => .error .notFound
    Command.ofArgs? ["check", "-g", "g.json", "-f", "EF done", "--formula=AG ("] = some (.check o) ∧
      o.Ends files (runArgs ["check", "-g", "g.json", "-f", "EF done", "--formula=AG ("] files 1) := by
  intro o files
  have hargs : Command.ofArgs? ["check", "-g", "g.json", "-f", "EF done", "--formula=AG ("] =
      some (.check o) := by decide
  exact ⟨hargs, runArgs_ends hargs files 1⟩

/-- A model that has all of its properties, but no room for its states. -/
theorem runArgs_stops :
    ∃ o : CheckOptions,
      Command.ofArgs? ["check", "--capacity", "18446744073709551615"] = some (.check o) ∧
      o.formulas = [] ∧ o.graph = none ∧ 1 ≤ o.capacity ∧
      (∀ p ∈ BoundedBuffer.properties, ∀ s ∈ (BoundedBuffer.graph o.capacity).initial,
        (BoundedBuffer.graph o.capacity).Satisfies p.2 s) ∧
      ∀ files fresh,
        (runArgs ["check", "--capacity", "18446744073709551615"] files fresh).status = 101 := by
  let o : CheckOptions := { capacity := 18446744073709551615 }
  have hargs : Command.ofArgs? ["check", "--capacity", "18446744073709551615"] =
      some (.check o) := by decide
  have hpos : 0 < o.capacity := by decide
  refine ⟨o, hargs, rfl, rfl, hpos, fun p hp s hs => ?_, fun files fresh => ?_⟩
  · rw [BoundedBuffer.initial_graph, List.mem_singleton] at hs
    refine BoundedBuffer.satisfies_of_mem_properties hpos hp ?_
    rw [hs, BoundedBuffer.size_graph]
    exact Nat.succ_pos _
  · rw [runArgs, hargs]
    exact (o.run_ends files fresh).own rfl rfl

/-- Without a formula, a file is not even looked for. -/
example : (runArgs ["check", "-g", "g.json"] (fun _ => .error .notFound) 1).error =
    some .missingFormula := by decide

end ActorLogic.Cli
