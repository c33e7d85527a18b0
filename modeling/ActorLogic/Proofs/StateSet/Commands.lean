import ActorLogic.Graph.Fault
import Mathlib.Logic.Function.Basic
/-!
# Commands on sets of some kind

Sets are kept in numbered places, and a sequence of commands works on them: some change the set in a
place, some put a new set into a place, some only ask. What kind of sets these are is left open. If
the operations on two kinds answer alike on related sets, so does every sequence of commands.
-/

namespace ActorLogic

/-- A way to join two sets. -/
inductive SetJoin where
  | union
  | intersection
  | difference
  deriving DecidableEq, Repr

/-- What can be done with sets of one kind. The operations in place also tell whether the set
changed. -/
structure SetOperations (α : Type) where
  empty : Nat → α
  full : Nat → α
  insert : α → StateId → Except GraphFault (α × Bool)
  remove : α → StateId → Except GraphFault (α × Bool)
  extend : α → List StateId → α × Option GraphFault
  joinWith : SetJoin → α → α → Except GraphFault (α × Bool)
  join : SetJoin → α → α → Except GraphFault α
  complement : α → α
  contains : α → StateId → Bool
  isEmpty : α → Bool
  isSubset : α → α → Except GraphFault Bool
  equal : α → α → Bool

/-- A command on sets in numbered places. A new set is put into the place `out`. -/
inductive SetCommand where
  | empty (n out : Nat)
  | full (n out : Nat)
  | insert (place : Nat) (s : StateId)
  | remove (place : Nat) (s : StateId)
  | extend (place : Nat) (states : List StateId)
  | joinWith (how : SetJoin) (place other : Nat)
  | join (how : SetJoin) (place other out : Nat)
  | complement (place out : Nat)
  | contains (place : Nat) (s : StateId)
  | isEmpty (place : Nat)
  | isSubset (place other : Nat)
  | equal (place other : Nat)
  deriving DecidableEq, Repr

/-- What a command answers. -/
inductive SetAnswer where
  | done
  | told (b : Bool)
  | stopped (f : GraphFault)
  deriving DecidableEq, Repr

namespace SetOperations

variable {α β : Type}

/-- Change the set in a place, and tell what was told. A fault changes nothing. -/
def change (sets : Nat → α) (place : Nat) : Except GraphFault (α × Bool) → SetAnswer × (Nat → α)
  | .ok (set, b) => (.told b, Function.update sets place set)
  | .error f => (.stopped f, sets)

/-- Put a new set into a place. A fault changes nothing. -/
def put (sets : Nat → α) (out : Nat) : Except GraphFault α → SetAnswer × (Nat → α)
  | .ok set => (.done, Function.update sets out set)
  | .error f => (.stopped f, sets)

/-- The answer to a question. -/
def tell : Except GraphFault Bool → SetAnswer
  | .ok b => .told b
  | .error f => .stopped f

/-- The answer where a fault may have come in between. -/
def finish : Option GraphFault → SetAnswer
  | none => .done
  | some f => .stopped f

/-- Carry out a command. -/
def perform (ops : SetOperations α) (sets : Nat → α) : SetCommand → SetAnswer × (Nat → α)
  | .empty n out => put sets out (.ok (ops.empty n))
  | .full n out => put sets out (.ok (ops.full n))
  | .insert place s => change sets place (ops.insert (sets place) s)
  | .remove place s => change sets place (ops.remove (sets place) s)
  | .extend place states =>
    let (set, fault) := ops.extend (sets place) states
    (finish fault, Function.update sets place set)
  | .joinWith how place other => change sets place (ops.joinWith how (sets place) (sets other))
  | .join how place other out => put sets out (ops.join how (sets place) (sets other))
  | .complement place out => put sets out (.ok (ops.complement (sets place)))
  | .contains place s => (.told (ops.contains (sets place) s), sets)
  | .isEmpty place => (.told (ops.isEmpty (sets place)), sets)
  | .isSubset place other => (tell (ops.isSubset (sets place) (sets other)), sets)
  | .equal place other => (.told (ops.equal (sets place) (sets other)), sets)

/-- Carry out commands one after the other. -/
def run (ops : SetOperations α) : (Nat → α) → List SetCommand → List SetAnswer × (Nat → α)
  | sets, [] => ([], sets)
  | sets, command :: rest =>
    let (answer, next) := ops.perform sets command
    let (answers, last) := ops.run next rest
    (answer :: answers, last)

/-- Carry out commands where every place holds the set without a universe. -/
def runAll (ops : SetOperations α) (commands : List SetCommand) : List SetAnswer × (Nat → α) :=
  ops.run (fun _ => ops.empty 0) commands

/-- Both results are the same fault, or both are good and related. -/
def Alike {γ δ : Type} (R : γ → δ → Prop) : Except GraphFault γ → Except GraphFault δ → Prop
  | .ok a, .ok b => R a b
  | .error f, .error f' => f = f'
  | _, _ => False

/-- Related sets with the same word on whether anything changed. -/
def AlikeChange (R : α → β → Prop) :
    Except GraphFault (α × Bool) → Except GraphFault (β × Bool) → Prop :=
  Alike fun a b => R a.1 b.1 ∧ a.2 = b.2

/-- On related sets, all operations give related sets and the same answers. -/
structure Refines (R : α → β → Prop) (a : SetOperations α) (b : SetOperations β) : Prop where
  empty : ∀ n, R (a.empty n) (b.empty n)
  full : ∀ n, R (a.full n) (b.full n)
  insert : ∀ x y s, R x y → AlikeChange R (a.insert x s) (b.insert y s)
  remove : ∀ x y s, R x y → AlikeChange R (a.remove x s) (b.remove y s)
  extend : ∀ x y states, R x y → R (a.extend x states).1 (b.extend y states).1 ∧
    (a.extend x states).2 = (b.extend y states).2
  joinWith : ∀ how x y x' y', R x y → R x' y' →
    AlikeChange R (a.joinWith how x x') (b.joinWith how y y')
  join : ∀ how x y x' y', R x y → R x' y' → Alike R (a.join how x x') (b.join how y y')
  complement : ∀ x y, R x y → R (a.complement x) (b.complement y)
  contains : ∀ x y s, R x y → a.contains x s = b.contains y s
  isEmpty : ∀ x y, R x y → a.isEmpty x = b.isEmpty y
  isSubset : ∀ x y x' y', R x y → R x' y' → a.isSubset x x' = b.isSubset y y'
  equal : ∀ x y x' y', R x y → R x' y' → a.equal x x' = b.equal y y'

variable {R : α → β → Prop} {a : SetOperations α} {b : SetOperations β} {sets : Nat → α}
  {sets' : Nat → β}

/-- The answers are the same, and the sets in all places are related. -/
def Agree (R : α → β → Prop) {γ : Type} (p : γ × (Nat → α)) (q : γ × (Nat → β)) : Prop :=
  p.1 = q.1 ∧ ∀ k, R (p.2 k) (q.2 k)

theorem related_update (h : ∀ k, R (sets k) (sets' k)) {x : α} {y : β} (hxy : R x y) (place : Nat) :
    ∀ k, R (Function.update sets place x k) (Function.update sets' place y k) := by
  intro k
  by_cases heq : k = place
  · subst heq
    rwa [Function.update_self, Function.update_self]
  · rw [Function.update_of_ne heq, Function.update_of_ne heq]
    exact h k

theorem agree_change (h : ∀ k, R (sets k) (sets' k)) (place : Nat)
    {r : Except GraphFault (α × Bool)} {r' : Except GraphFault (β × Bool)}
    (hr : AlikeChange R r r') : Agree R (change sets place r) (change sets' place r') := by
  match r, r', hr with
  | .ok (x, p), .ok (y, q), ⟨hxy, hflag⟩ => exact ⟨congrArg _ hflag, related_update h hxy place⟩
  | .error f, .error f', hf => exact ⟨congrArg _ hf, h⟩

theorem agree_put (h : ∀ k, R (sets k) (sets' k)) (out : Nat)
    {r : Except GraphFault α} {r' : Except GraphFault β} (hr : Alike R r r') :
    Agree R (put sets out r) (put sets' out r') := by
  match r, r', hr with
  | .ok x, .ok y, hxy => exact ⟨rfl, related_update h hxy out⟩
  | .error f, .error f', hf => exact ⟨congrArg _ hf, h⟩

namespace Refines

theorem perform (href : Refines R a b) (h : ∀ k, R (sets k) (sets' k)) (command : SetCommand) :
    Agree R (a.perform sets command) (b.perform sets' command) := by
  cases command with
  | empty n out => exact agree_put h out (href.empty n)
  | full n out => exact agree_put h out (href.full n)
  | insert place s => exact agree_change h place (href.insert _ _ s (h place))
  | remove place s => exact agree_change h place (href.remove _ _ s (h place))
  | extend place states =>
    obtain ⟨hset, hfault⟩ := href.extend _ _ states (h place)
    exact ⟨congrArg finish hfault, related_update h hset place⟩
  | joinWith how place other =>
    exact agree_change h place (href.joinWith how _ _ _ _ (h place) (h other))
  | join how place other out => exact agree_put h out (href.join how _ _ _ _ (h place) (h other))
  | complement place out => exact agree_put h out (href.complement _ _ (h place))
  | contains place s => exact ⟨congrArg _ (href.contains _ _ s (h place)), h⟩
  | isEmpty place => exact ⟨congrArg _ (href.isEmpty _ _ (h place)), h⟩
  | isSubset place other => exact ⟨congrArg tell (href.isSubset _ _ _ _ (h place) (h other)), h⟩
  | equal place other => exact ⟨congrArg _ (href.equal _ _ _ _ (h place) (h other)), h⟩

theorem run (href : Refines R a b) (h : ∀ k, R (sets k) (sets' k)) (commands : List SetCommand) :
    Agree R (a.run sets commands) (b.run sets' commands) := by
  induction commands generalizing sets sets' with
  | nil => exact ⟨rfl, h⟩
  | cons command rest ih =>
    obtain ⟨hanswer, hnext⟩ := href.perform h command
    obtain ⟨hanswers, hlast⟩ := ih hnext
    exact ⟨congrArg₂ List.cons hanswer hanswers, hlast⟩

end Refines

/-- A command that is stopped leaves all sets as they are. Extensions are left out, since what they
add before the fault stays. -/
def Unharmed (ops : SetOperations α) (sets : Nat → α) : Prop :=
  ∀ (command : SetCommand) (f : GraphFault), (∀ place states, command ≠ .extend place states) →
    (ops.perform sets command).1 = .stopped f → (ops.perform sets command).2 = sets

theorem change_stopped {place : Nat} {r : Except GraphFault (α × Bool)} {f : GraphFault}
    (h : (change sets place r).1 = .stopped f) : (change sets place r).2 = sets := by
  cases r with
  | error f' => rfl
  | ok result => cases h

theorem put_stopped {out : Nat} {r : Except GraphFault α} {f : GraphFault}
    (h : (put sets out r).1 = .stopped f) : (put sets out r).2 = sets := by
  cases r with
  | error f' => rfl
  | ok set => cases h

theorem unharmed (ops : SetOperations α) (sets : Nat → α) : ops.Unharmed sets := by
  intro command f hextend h
  cases command with
  | extend place states => exact absurd rfl (hextend place states)
  | empty | full | join | complement => exact put_stopped h
  | insert | remove | joinWith => exact change_stopped h
  | contains | isEmpty | isSubset | equal => rfl

end SetOperations

end ActorLogic
