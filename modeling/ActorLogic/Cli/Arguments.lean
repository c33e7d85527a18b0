/-!
# Command lines

A command line is the name of a command followed by flags. A flag with a value is written
`--name v`, `--name=v`, `-n v`, `-nv` or `-n=v`; a value that is written apart does not begin with
a dash, a lone dash excepted. There are no other arguments. Only the flag for formulas may be given
more than once.
-/

namespace ActorLogic.Cli

/-! ## Flags -/

structure Flag where
  /-- The name behind two dashes. -/
  name : String
  /-- The letter behind one dash, if there is one. -/
  letter : Option Char := none
  takesValue : Bool := true
  deriving DecidableEq, Repr

/-- A flag as given, with its value; a flag that takes none has an empty one. -/
abbrev Given := Flag × String

/-- Whether an argument stands for a flag rather than for a value. -/
def looksLikeFlag : List Char → Bool
  | '-' :: _ :: _ => true
  | _ => false

/-- What is written behind the first equals sign. -/
def afterEquals? (cs : List Char) : Option (List Char) :=
  match cs.dropWhile (· ≠ '=') with
  | [] => none
  | _ :: value => some value

/-- The flag behind two dashes, and the value written with it. -/
def longFlag? (flags : List Flag) (cs : List Char) : Option (Flag × Option (List Char)) :=
  let name := String.ofList (cs.takeWhile (· ≠ '='))
  (flags.find? fun f => f.name = name).map (·, afterEquals? cs)

/-- The flag behind one dash, and the value written with it. -/
def shortFlag? (flags : List Flag) : List Char → Option (Flag × Option (List Char))
  | [] => none
  | letter :: rest =>
    (flags.find? fun f => f.letter = some letter).map fun f =>
      (f, match rest with
        | [] => none
        | '=' :: value => some value
        | value => some value)

/-- The flag that an argument gives, and the value written with it. -/
def flag? (flags : List Flag) : List Char → Option (Flag × Option (List Char))
  | '-' :: '-' :: cs => longFlag? flags cs
  | '-' :: cs => shortFlag? flags cs
  | _ => none

/-- The flags given by arguments, in order. -/
def given? (flags : List Flag) : List String → Option (List Given)
  | [] => some []
  | ["--"] => some []
  | arg :: rest =>
    match flag? flags arg.toList, rest with
    | none, _ => none
    | some (f, some value), rest =>
      if f.takesValue then (given? flags rest).map ((f, String.ofList value) :: ·) else none
    | some (f, none), [] => if f.takesValue then none else some [(f, "")]
    | some (f, none), value :: rest =>
      if !f.takesValue then (given? flags (value :: rest)).map ((f, "") :: ·)
      else if looksLikeFlag value.toList then none
      else (given? flags rest).map ((f, value) :: ·)

/-! ## Values -/

/-- All values of a flag. -/
def valuesOf (given : List Given) (name : String) : List String :=
  (given.filter fun g => g.1.name = name).map (·.2)

/-- The value of a flag that is given at most once, read by `read`. -/
def valueOf? {α : Type} (given : List Given) (name : String) (read : String → Option α) :
    Option (Option α) :=
  match valuesOf given name with
  | [] => some none
  | [value] => (read value).map some
  | _ => none

/-- Decimal digits, at least one, for a number up to `most`. -/
def digits? (most : Nat) (cs : List Char) : Option Nat :=
  let n := cs.foldl (fun n c => 10 * n + (c.toNat - '0'.toNat)) 0
  if cs ≠ [] ∧ cs.all Char.isDigit ∧ n ≤ most then some n else none

/-- A word of 64 bits, maybe with a plus sign. -/
def word? (s : String) : Option Nat :=
  match s.toList with
  | '+' :: cs => digits? (1 <<< 64 - 1) cs
  | cs => digits? (1 <<< 64 - 1) cs

/-- A word of 32 bits, maybe with a plus sign. Zero may have a minus sign. -/
def halfWord? (s : String) : Option Nat :=
  match s.toList with
  | '+' :: cs => digits? (1 <<< 32 - 1) cs
  | '-' :: cs => digits? 0 cs
  | cs => digits? (1 <<< 32 - 1) cs

/-- The name of a file is not empty. -/
def path? (s : String) : Option String := if s = "" then none else some s

/-! ## Commands -/

inductive SimulationModel where
  | producerConsumer
  | counter
  deriving DecidableEq, Repr

def SimulationModel.ofName? : String → Option SimulationModel
  | "producer-consumer" => some .producerConsumer
  | "counter" => some .counter
  | _ => none

/-- The graphs that come with the program. -/
inductive GraphModel where
  | boundedBuffer
  deriving DecidableEq, Repr

def GraphModel.ofName? : String → Option GraphModel
  | "bounded-buffer" => some .boundedBuffer
  | _ => none

structure SimulateOptions where
  model : SimulationModel := .producerConsumer
  seed : Option UInt64 := none
  steps : Option Nat := none
  /-- A file with a configuration. -/
  config : Option String := none
  messages : Nat := 3
  capacity : Nat := 1
  json : Bool := false
  deriving DecidableEq, Repr

structure CheckOptions where
  model : GraphModel := .boundedBuffer
  capacity : Nat := 2
  /-- A file with a graph, in place of the model. -/
  graph : Option String := none
  formulas : List String := []
  json : Bool := false
  deriving DecidableEq, Repr

inductive Command where
  | simulate (o : SimulateOptions)
  | check (o : CheckOptions)
  deriving DecidableEq, Repr

def SimulateOptions.flags : List Flag :=
  [⟨"model", some 'm', true⟩, ⟨"seed", some 's', true⟩, ⟨"steps", none, true⟩,
   ⟨"config", some 'c', true⟩, ⟨"messages", none, true⟩, ⟨"capacity", none, true⟩,
   ⟨"json", none, false⟩]

def SimulateOptions.ofGiven? (given : List Given) : Option SimulateOptions := do
  some
    { model := (← valueOf? given "model" SimulationModel.ofName?).getD .producerConsumer
      seed := (← valueOf? given "seed" word?).map UInt64.ofNat
      steps := ← valueOf? given "steps" word?
      config := ← valueOf? given "config" path?
      messages := (← valueOf? given "messages" halfWord?).getD 3
      capacity := (← valueOf? given "capacity" word?).getD 1
      json := (← valueOf? given "json" some).isSome }

def CheckOptions.flags : List Flag :=
  [⟨"model", some 'm', true⟩, ⟨"capacity", none, true⟩, ⟨"graph", some 'g', true⟩,
   ⟨"formula", some 'f', true⟩, ⟨"json", none, false⟩]

def CheckOptions.ofGiven? (given : List Given) : Option CheckOptions := do
  some
    { model := (← valueOf? given "model" GraphModel.ofName?).getD .boundedBuffer
      capacity := (← valueOf? given "capacity" word?).getD 2
      graph := ← valueOf? given "graph" path?
      formulas := valuesOf given "formula"
      json := (← valueOf? given "json" some).isSome }

/-- The command of a command line; there is none if the command line is malformed. -/
def Command.ofArgs? : List String → Option Command
  | "simulate" :: args => do
    some (.simulate (← SimulateOptions.ofGiven? (← given? SimulateOptions.flags args)))
  | "check" :: args => do
    some (.check (← CheckOptions.ofGiven? (← given? CheckOptions.flags args)))
  | _ => none

end ActorLogic.Cli
