import ActorLogic.Proofs.Graph.Description
/-!
# What a description describes

A description names its states, and its edges and initial states refer to these names. Reading it
stops at the first name that is declared twice, then at the first name that is used and not declared;
a description with neither fault gives the graph in which each state has the labels, the successors
and the predecessors that the description lists for its name.
-/

namespace ActorLogic

open Result

/-! ## Pairs -/

section Pairs

variable {α β : Type} [DecidableEq α] [DecidableEq β]

/-- The second parts of the pairs that begin with an element, each where it occurs first. -/
def secondsOf (pairs : List (α × α)) (a : α) : List α :=
  ((pairs.filter fun p => p.1 = a).map (·.2)).eraseDups

/-- Among pairs that begin alike, the second part tells the pair. -/
theorem secondsOf_eq (pairs : List (α × α)) (a : α) :
    secondsOf pairs a = (pairs.eraseDups.filter fun p => p.1 = a).map (·.2) := by
  rw [secondsOf, eraseDups_map, eraseDups_filter]
  intro p hp q hq hsnd
  have hfst : p.1 = q.1 := by
    rw [of_decide_eq_true (List.mem_filter.1 hp).2, of_decide_eq_true (List.mem_filter.1 hq).2]
  exact Prod.ext hfst hsnd

theorem secondsOf_swap (pairs : List (α × α)) (a : α) :
    secondsOf (pairs.map Prod.swap) a = (pairs.eraseDups.filter fun p => p.2 = a).map (·.1) := by
  rw [secondsOf_eq, eraseDups_map fun p _ q _ => fun h => Prod.swap_injective h, List.filter_map,
    List.map_map]
  rfl

/-- To rename the elements apart renames the second parts. -/
theorem secondsOf_map {f : α → β} {pairs : List (α × α)} {ok : α → Prop} {a : α}
    (hf : ∀ a b, ok a → ok b → f a = f b → a = b) (hpairs : ∀ p ∈ pairs, ok p.1 ∧ ok p.2)
    (ha : ok a) : secondsOf (pairs.map (Prod.map f f)) (f a) = (secondsOf pairs a).map f := by
  have hfilter : (pairs.filter fun p => f p.1 = f a) = pairs.filter fun p => p.1 = a := by
    refine List.filter_congr fun p hp => decide_eq_decide.2 ⟨hf _ _ (hpairs p hp).1 ha, ?_⟩
    exact congrArg f
  have hseconds : ∀ b ∈ (pairs.filter fun p => p.1 = a).map (·.2), ok b := by
    intro b hb
    obtain ⟨p, hp, rfl⟩ := List.mem_map.1 hb
    exact (hpairs p (List.mem_of_mem_filter hp)).2
  rw [secondsOf, secondsOf, ← eraseDups_map fun b hb c hc => hf b c (hseconds b hb) (hseconds c hc),
    List.filter_map, List.map_map, List.map_map]
  exact congrArg (fun l => (l.map (f ∘ Prod.snd)).eraseDups) hfilter

end Pairs

namespace GraphDescription

/-! ## Names -/

def stateNames (d : GraphDescription) : List String := d.states.map (·.name)

/-- The names that have to be declared, in the order in which they are looked up: those of the two
ends of each edge, the source first, then those of the initial states. -/
def usedNames (d : GraphDescription) : List String :=
  (d.edges.flatMap fun e => [e.1, e.2]) ++ d.initial

/-- The first name that is used and not declared. -/
def unknown? (d : GraphDescription) : Option String :=
  d.usedNames.find? fun name => name ∉ d.stateNames

def targetsOf (d : GraphDescription) (name : String) : List String := secondsOf d.edges name

def sourcesOf (d : GraphDescription) (name : String) : List String :=
  secondsOf (d.edges.map Prod.swap) name

/-- The graph is what the description says, name by name. -/
structure Depicts (d : GraphDescription) (g : Graph) : Prop where
  names : g.names.toList = d.stateNames
  stateId? : ∀ (name : String) (s : Nat), g.stateId? name = some s ↔ d.stateNames[s]? = some name
  labels : ∀ (s : Nat) (state : StateDescription), d.states[s]? = some state →
    ∃ labels, g.labelsOf s = .ok labels ∧ labels.Pairwise (· < ·) ∧
      ∀ label, label ∈ labels ↔ label ∈ state.labels
  successors : ∀ (s : Nat) (name : String), d.stateNames[s]? = some name →
    ∃ targets, g.successors s = .ok targets ∧ targets.mapM g.nameOf = .ok (d.targetsOf name)
  predecessors : ∀ (s : Nat) (name : String), d.stateNames[s]? = some name →
    ∃ sources, g.predecessors s = .ok sources ∧ sources.mapM g.nameOf = .ok (d.sourcesOf name)
  initial : g.initial.mapM g.nameOf = .ok d.initial.eraseDups
  edgeCount : g.edgeCount = d.edges.eraseDups.length

/-- What reading a description comes to. Of several faults it reports a name that is declared twice
first, and then the first that is unknown. -/
structure Reads (d : GraphDescription) : Prop where
  duplicateState : ∀ name,
    d.toGraph = .error (.duplicateState name) ↔ FirstRepetition d.stateNames name
  unknownState : ∀ name,
    d.toGraph = .error (.unknownState name) ↔ d.stateNames.Nodup ∧ d.unknown? = some name
  graph : (∃ g, d.toGraph = .ok g) ↔ d.stateNames.Nodup ∧ d.unknown? = none
  depicts : ∀ g, d.toGraph = .ok g → d.Depicts g
  /-- The description of the graph is a normal form: reading it and describing again keeps it. -/
  normal : ∀ g, d.toGraph = .ok g → ∃ h, g.describe.toGraph = .ok h ∧ h.describe = g.describe

/-! ## Names that are declared twice -/

variable {d : GraphDescription} {g : Graph} {name : String}

theorem addStates_append (g : Graph) (before after : List StateDescription) :
    addStates g (before ++ after) = addStates g before >>= (addStates · after) := by
  induction before generalizing g with
  | nil => rfl
  | cons s rest ih =>
    rw [List.cons_append, addStates, addStates]
    cases g.stateId? s.name with
    | some taken => rfl
    | none => exact ih _

/-- The states in front of the first repetition are added, so that the repeated name is taken. -/
theorem addStates_of_repetition (h : FirstRepetition d.stateNames name) :
    addStates .empty d.states = .error (.duplicateState name) := by
  obtain ⟨before, after, hsplit, hnodup, hmem⟩ := h
  obtain ⟨states, rest, hstates, rfl, hrest⟩ := List.map_eq_append_iff.1 hsplit
  obtain ⟨s, later, rfl, rfl, -⟩ := List.map_eq_cons_iff.1 hrest
  have hnew := Graph.newNames_empty hnodup
  have htaken : (Graph.empty.addAll states).stateId? s.name ≠ none := by
    rw [ne_eq, (Graph.consistent_addAll Graph.consistent_empty states).stateId?_eq_none_iff,
      (Graph.appends_addAll hnew).names, not_not]
    exact List.mem_append_right _ hmem
  rw [hstates, addStates_append, Graph.addStates_ok hnew, ok_bind, addStates]
  cases hid : (Graph.empty.addAll states).stateId? s.name with
  | some taken => rfl
  | none => exact absurd hid htaken

theorem toGraph_of_repetition (h : FirstRepetition d.stateNames name) :
    d.toGraph = .error (.duplicateState name) := by
  rw [toGraph, addStates_of_repetition h]
  rfl

/-! ## Names that are not declared -/

/-- The ends of an edge are looked up one after the other, and drawing it declares no name. -/
theorem foldlM_addEdgeByName_error {edges : List (String × String)}
    (h : (edges.flatMap fun e => [e.1, e.2]).find? (fun name => g.stateId? name = none) =
      some name) :
    edges.foldlM (fun g e => g.addEdgeByName e.1 e.2) g = .error (.unknownState name) := by
  induction edges generalizing g with
  | nil => cases h
  | cons e rest ih =>
    rw [List.foldlM_cons, Graph.addEdgeByName, Graph.lookup, Graph.lookup]
    rw [List.flatMap_cons, List.cons_append, List.cons_append, List.nil_append] at h
    cases hs : g.stateId? e.1 with
    | none =>
      rw [List.find?_cons_of_pos (by simp [hs])] at h
      cases h
      rfl
    | some s =>
      rw [List.find?_cons_of_neg (by simp [hs])] at h
      cases ht : g.stateId? e.2 with
      | none =>
        rw [List.find?_cons_of_pos (by simp [ht])] at h
        cases h
        rfl
      | some t =>
        rw [List.find?_cons_of_neg (by simp [ht])] at h
        exact ih (g := g.link s t) (by simpa only [Graph.stateId?_link] using h)

theorem foldlM_setInitial_error {initial : List String}
    (h : initial.find? (fun name => g.stateId? name = none) = some name) :
    initial.foldlM (fun g name => (g.setInitial name).map (·.1)) g =
      .error (.unknownState name) := by
  induction initial generalizing g with
  | nil => cases h
  | cons first rest ih =>
    rw [List.foldlM_cons, Graph.setInitial, Graph.lookup]
    cases hs : g.stateId? first with
    | none =>
      rw [List.find?_cons_of_pos (by simp [hs])] at h
      cases h
      rfl
    | some s =>
      rw [List.find?_cons_of_neg (by simp [hs])] at h
      exact ih (g := g.mark s) (by simpa only [Graph.stateId?_mark] using h)

/-! ## Numbers for names -/

/-- The states of the description, and nothing else yet. -/
def declared (d : GraphDescription) : Graph := Graph.empty.addAll d.states

def nameAt (d : GraphDescription) (s : StateId) : String := d.declared.names.getD s ""

/-- The number of a name that is declared. -/
def idOf (d : GraphDescription) (name : String) : StateId := (d.declared.stateId? name).getD 0

def edgeIds (d : GraphDescription) : List (StateId × StateId) := d.edges.map (Prod.map d.idOf d.idOf)

def initialIds (d : GraphDescription) : List StateId := d.initial.map d.idOf

theorem consistent_declared (d : GraphDescription) : d.declared.Consistent :=
  Graph.consistent_addAll Graph.consistent_empty d.states

theorem nameAt_inj {s t : Nat} (hs : s < d.declared.size) (ht : t < d.declared.size)
    (h : d.nameAt s = d.nameAt t) : s = t :=
  d.consistent_declared.getD_names_inj hs ht h

section Declared

variable (hnodup : d.stateNames.Nodup)
include hnodup

theorem appends_declared : Graph.empty.Appends d.states d.declared :=
  Graph.appends_addAll (Graph.newNames_empty hnodup)

theorem addStates_declared : addStates .empty d.states = .ok d.declared :=
  Graph.addStates_ok (Graph.newNames_empty hnodup)

theorem names_declared : d.declared.names.toList = d.stateNames :=
  (appends_declared hnodup).names

theorem stateId?_declared_eq_none : d.declared.stateId? name = none ↔ name ∉ d.stateNames := by
  rw [d.consistent_declared.stateId?_eq_none_iff, names_declared hnodup]

theorem stateId?_declared (h : name ∈ d.stateNames) :
    d.declared.stateId? name = some (d.idOf name) := by
  cases hid : d.declared.stateId? name with
  | none => exact absurd h ((stateId?_declared_eq_none hnodup).1 hid)
  | some s => rw [idOf, hid, Option.getD_some]

theorem idOf_lt (h : name ∈ d.stateNames) : d.idOf name < d.declared.size :=
  d.consistent_declared.lt_of_index (stateId?_declared hnodup h)

theorem nameAt_idOf (h : name ∈ d.stateNames) : d.nameAt (d.idOf name) = name := by
  rw [nameAt, Array.getD_eq_getD_getElem?,
    (d.consistent_declared.index_iff _ _).1 (stateId?_declared hnodup h), Option.getD_some]

section Edges

variable (hedges : ∀ e ∈ d.edges, e.1 ∈ d.stateNames ∧ e.2 ∈ d.stateNames)
include hedges

theorem edgeIds_lt : ∀ e ∈ d.edgeIds, e.1 < d.declared.size ∧ e.2 < d.declared.size := by
  intro e he
  obtain ⟨names, hnames, rfl⟩ := List.mem_map.1 he
  obtain ⟨hsource, htarget⟩ := hedges names hnames
  exact ⟨idOf_lt hnodup hsource, idOf_lt hnodup htarget⟩

theorem map_edgeIds : d.edgeIds.map (Prod.map d.nameAt d.nameAt) = d.edges := by
  rw [edgeIds, List.map_map]
  refine (List.map_congr_left fun e he => ?_).trans (List.map_id _)
  obtain ⟨hsource, htarget⟩ := hedges e he
  exact Prod.ext (nameAt_idOf hnodup hsource) (nameAt_idOf hnodup htarget)

theorem foldlM_edges : d.edges.foldlM (fun g e => g.addEdgeByName e.1 e.2) d.declared =
    .ok (d.declared.linkAll d.edgeIds) := by
  rw [← Graph.foldlM_addEdgeByName d.consistent_declared (edgeIds_lt hnodup hedges)]
  exact congrArg (List.foldlM _ _) (map_edgeIds hnodup hedges).symm

end Edges

/-- A name that is unknown is found at an edge, or after all edges are drawn. -/
theorem toGraph_of_unknown (h : d.unknown? = some name) :
    d.toGraph = .error (.unknownState name) := by
  rw [unknown?, usedNames, List.find?_append, Option.or_eq_some_iff] at h
  rw [toGraph, addStates_declared hnodup, ok_bind]
  rcases h with hedge | ⟨hknown, hinitial⟩
  · rw [foldlM_addEdgeByName_error (by simpa only [stateId?_declared_eq_none hnodup] using hedge)]
    rfl
  · have hedges : ∀ e ∈ d.edges, e.1 ∈ d.stateNames ∧ e.2 ∈ d.stateNames := by simpa using hknown
    rw [foldlM_edges hnodup hedges, ok_bind]
    apply foldlM_setInitial_error
    simpa only [Graph.stateId?_linkAll, stateId?_declared_eq_none hnodup] using hinitial

end Declared

/-! ## The graph that is read -/

/-- No name is declared twice, and every name that is used is declared. -/
structure Faultless (d : GraphDescription) : Prop where
  nodup : d.stateNames.Nodup
  edges : ∀ e ∈ d.edges, e.1 ∈ d.stateNames ∧ e.2 ∈ d.stateNames
  initial : ∀ name ∈ d.initial, name ∈ d.stateNames

theorem faultless_iff : d.Faultless ↔ d.stateNames.Nodup ∧ d.unknown? = none := by
  have hknown : d.unknown? = none ↔
      (∀ e ∈ d.edges, e.1 ∈ d.stateNames ∧ e.2 ∈ d.stateNames) ∧
        ∀ name ∈ d.initial, name ∈ d.stateNames := by
    simp [unknown?, usedNames]
  rw [hknown]
  exact ⟨fun h => ⟨h.nodup, h.edges, h.initial⟩, fun h => ⟨h.1, h.2.1, h.2.2⟩⟩

/-- The edges and the initial states are drawn between the declared states. -/
def drawing (d : GraphDescription) : Graph := (d.declared.linkAll d.edgeIds).markAll d.initialIds

namespace Faultless

variable (h : d.Faultless)
include h

theorem initialIds_lt : ∀ s ∈ d.initialIds, s < d.declared.size := by
  intro s hs
  obtain ⟨name, hname, rfl⟩ := List.mem_map.1 hs
  exact idOf_lt h.nodup (h.initial name hname)

theorem map_initialIds : d.initialIds.map d.nameAt = d.initial := by
  rw [initialIds, List.map_map]
  exact (List.map_congr_left fun name hname =>
    nameAt_idOf h.nodup (h.initial name hname)).trans (List.map_id _)

theorem toGraph_ok : d.toGraph = .ok d.drawing := by
  have hlinked := Graph.consistent_linkAll d.consistent_declared (edgeIds_lt h.nodup h.edges)
  have hlt : ∀ s ∈ d.initialIds, s < (d.declared.linkAll d.edgeIds).size := by
    rw [Graph.size_linkAll]
    exact h.initialIds_lt
  have hmarked := Graph.foldlM_setInitial hlinked hlt
  rw [Graph.names_linkAll] at hmarked
  rw [toGraph, addStates_declared h.nodup, ok_bind, foldlM_edges h.nodup h.edges, ok_bind, drawing,
    ← hmarked]
  exact congrArg (List.foldlM _ _) h.map_initialIds.symm

theorem built : d.drawing.Built := .inr ⟨d, h.toGraph_ok⟩

theorem draws_edgeIds : d.declared.Draws d.edgeIds.eraseDups (d.declared.linkAll d.edgeIds) := by
  have hlt := edgeIds_lt h.nodup h.edges
  rw [← Graph.linkAll_eraseDups d.consistent_declared hlt]
  exact Graph.draws_linkAll d.consistent_declared
    { inside := fun e he => hlt e (List.mem_eraseDups.1 he)
      fresh := fun _ _ => (appends_declared h.nodup).not_edge
      nodup := nodup_eraseDups _ }

theorem drawing_eq : d.drawing =
    { d.declared.linkAll d.edgeIds with initial := d.initialIds.eraseDups } := by
  have hnone : (d.declared.linkAll d.edgeIds).initial = [] :=
    h.draws_edgeIds.initial.trans (appends_declared h.nodup).initial
  rw [drawing, ← Graph.markAll_eraseDups, Graph.markAll_of_fresh (by simp [hnone])
    (nodup_eraseDups _), hnone, List.nil_append]

theorem names_drawing : d.drawing.names = d.declared.names := by
  rw [h.drawing_eq]
  exact Graph.names_linkAll _ _

theorem succ_drawing (s : Nat) : d.drawing.succ.getD s [] = secondsOf d.edgeIds s := by
  rw [h.drawing_eq, h.draws_edgeIds.succ, (appends_declared h.nodup).succ_eq_nil, secondsOf_eq,
    List.nil_append]

theorem pred_drawing (t : Nat) :
    d.drawing.pred.getD t [] = secondsOf (d.edgeIds.map Prod.swap) t := by
  rw [h.drawing_eq, h.draws_edgeIds.pred, (appends_declared h.nodup).pred_eq_nil, secondsOf_swap,
    List.nil_append]

theorem labels_drawing :
    d.drawing.labels.toList = d.states.map fun state => sortedTexts state.labels := by
  rw [h.drawing_eq, h.draws_edgeIds.labels, (appends_declared h.nodup).labels]
  rfl

theorem initial_drawing : d.drawing.initial = d.initialIds.eraseDups := by rw [h.drawing_eq]

theorem edgeCount_drawing : d.drawing.edgeCount = d.edgeIds.eraseDups.length := by
  rw [h.drawing_eq, h.draws_edgeIds.edgeCount, (appends_declared h.nodup).edgeCount]
  exact Nat.zero_add _

theorem size_drawing : d.drawing.size = d.declared.size := by
  rw [Graph.size, h.names_drawing, Graph.size]

/-- The names of numbers are those that the description gives them. -/
theorem mapM_nameOf {states : List StateId} (hstates : ∀ s ∈ states, s < d.declared.size) :
    states.mapM d.drawing.nameOf = .ok (states.map d.nameAt) := by
  rw [Graph.mapM_nameOf fun s hs => h.size_drawing ▸ hstates s hs, h.names_drawing]
  rfl

theorem stateId?_drawing {s : Nat} :
    d.drawing.stateId? name = some s ↔ d.stateNames[s]? = some name := by
  rw [h.built.consistent.index_iff, h.names_drawing, ← names_declared h.nodup,
    Array.getElem?_toList]

/-- A name that the description gives a number belongs to the state of that number. -/
theorem nameAt_eq {s : Nat} (hs : d.stateNames[s]? = some name) :
    s < d.declared.size ∧ d.nameAt s = name := by
  rw [← names_declared h.nodup, Array.getElem?_toList] at hs
  refine ⟨(Array.getElem?_eq_some_iff.1 hs).1, ?_⟩
  rw [nameAt, Array.getD_eq_getD_getElem?, hs, Option.getD_some]

/-- What stands across from a state in the list of pairs of numbers, told by names. -/
theorem mapM_secondsOf {pairs : List (StateId × StateId)} {s : Nat}
    (hpairs : ∀ p ∈ pairs, p.1 < d.declared.size ∧ p.2 < d.declared.size)
    (hs : s < d.declared.size) :
    (secondsOf pairs s).mapM d.drawing.nameOf =
      .ok (secondsOf (pairs.map (Prod.map d.nameAt d.nameAt)) (d.nameAt s)) := by
  rw [secondsOf_map (fun a b => nameAt_inj) hpairs hs]
  refine h.mapM_nameOf fun t ht => ?_
  obtain ⟨p, hp, rfl⟩ := List.mem_map.1 (List.mem_eraseDups.1 ht)
  exact (hpairs p (List.mem_of_mem_filter hp)).2

theorem swap_edgeIds_lt :
    ∀ e ∈ d.edgeIds.map Prod.swap, e.1 < d.declared.size ∧ e.2 < d.declared.size := by
  intro e he
  obtain ⟨e', he', rfl⟩ := List.mem_map.1 he
  exact (edgeIds_lt h.nodup h.edges e' he').symm

theorem map_swap_edgeIds : (d.edgeIds.map Prod.swap).map (Prod.map d.nameAt d.nameAt) =
    d.edges.map Prod.swap := by
  rw [← map_edgeIds h.nodup h.edges, List.map_map, List.map_map]
  rfl

theorem edgeIds_inj : ∀ e ∈ d.edgeIds, ∀ e' ∈ d.edgeIds,
    Prod.map d.nameAt d.nameAt e = Prod.map d.nameAt d.nameAt e' → e = e' := by
  intro e he e' he' heq
  have hlt := edgeIds_lt h.nodup h.edges
  exact Prod.ext (nameAt_inj (hlt e he).1 (hlt e' he').1 (congrArg Prod.fst heq))
    (nameAt_inj (hlt e he).2 (hlt e' he').2 (congrArg Prod.snd heq))

theorem depicts : d.Depicts d.drawing where
  names := by rw [h.names_drawing, names_declared h.nodup]
  stateId? _ _ := h.stateId?_drawing
  labels s state hstate := by
    refine ⟨sortedTexts state.labels, ?_, pairwise_sortedTexts _, fun label => mem_sortedTexts⟩
    rw [Graph.labelsOf, Graph.entry, ← Array.getElem?_toList, h.labels_drawing, List.getElem?_map,
      hstate]
    rfl
  successors s name hs := by
    obtain ⟨hlt, hname⟩ := h.nameAt_eq hs
    refine ⟨_, Graph.successors_ok h.built.consistent (h.size_drawing ▸ hlt), ?_⟩
    rw [h.succ_drawing, h.mapM_secondsOf (edgeIds_lt h.nodup h.edges) hlt, hname,
      map_edgeIds h.nodup h.edges, targetsOf]
  predecessors s name hs := by
    obtain ⟨hlt, hname⟩ := h.nameAt_eq hs
    refine ⟨_, Graph.predecessors_ok h.built.consistent (h.size_drawing ▸ hlt), ?_⟩
    rw [h.pred_drawing, h.mapM_secondsOf h.swap_edgeIds_lt hlt, hname, h.map_swap_edgeIds,
      sourcesOf]
  initial := by
    rw [h.initial_drawing, h.mapM_nameOf fun s hs => h.initialIds_lt s (List.mem_eraseDups.1 hs),
      ← h.map_initialIds, eraseDups_map]
    exact fun s hs t ht => nameAt_inj (h.initialIds_lt s hs) (h.initialIds_lt t ht)
  edgeCount := by
    rw [h.edgeCount_drawing, ← map_edgeIds h.nodup h.edges, eraseDups_map h.edgeIds_inj,
      List.length_map]

end Faultless

/-! ## All descriptions -/

/-- What reading a description comes to, case by case. -/
inductive Outcome (d : GraphDescription) : Except GraphError Graph → Prop where
  | duplicateState {name : String} :
    FirstRepetition d.stateNames name → d.Outcome (.error (.duplicateState name))
  | unknownState {name : String} :
    d.stateNames.Nodup → d.unknown? = some name → d.Outcome (.error (.unknownState name))
  | graph : d.Faultless → d.Outcome (.ok d.drawing)

theorem outcome (d : GraphDescription) : d.Outcome d.toGraph := by
  by_cases hnodup : d.stateNames.Nodup
  · cases hunknown : d.unknown? with
    | some name =>
      rw [toGraph_of_unknown hnodup hunknown]
      exact .unknownState hnodup hunknown
    | none =>
      have hfaultless := faultless_iff.2 ⟨hnodup, hunknown⟩
      rw [hfaultless.toGraph_ok]
      exact .graph hfaultless
  · obtain ⟨name, hname⟩ := exists_firstRepetition hnodup
    rw [toGraph_of_repetition hname]
    exact .duplicateState hname

/-- A description is read as its names tell: the first that is declared twice, else the first that is
unknown, else the graph that it depicts, which is described in a normal form. -/
theorem reads (d : GraphDescription) : d.Reads where
  duplicateState name := by
    refine ⟨fun herror => ?_, toGraph_of_repetition⟩
    cases herror ▸ d.outcome with
    | duplicateState hname => exact hname
  unknownState name := by
    refine ⟨fun herror => ?_, fun ⟨hnodup, hname⟩ => toGraph_of_unknown hnodup hname⟩
    cases herror ▸ d.outcome with
    | unknownState hnodup hname => exact ⟨hnodup, hname⟩
  graph := by
    refine ⟨fun ⟨g, hok⟩ => ?_, fun h => ⟨_, (faultless_iff.2 h).toGraph_ok⟩⟩
    cases hok ▸ d.outcome with
    | graph hfaultless => exact faultless_iff.1 hfaultless
  depicts g hok := by
    cases hok ▸ d.outcome with
    | graph hfaultless => exact hfaultless.depicts
  normal g hok := by
    have hbuilt : g.Built := .inr ⟨d, hok⟩
    obtain ⟨h, hagain, -, hrestores⟩ := hbuilt.exists_restores
    exact ⟨h, hagain, hrestores.describe_eq⟩

end GraphDescription

end ActorLogic
