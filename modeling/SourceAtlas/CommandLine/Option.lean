import SourceAtlas.Integer64
import SourceAtlas.Text.Basic
/-!
The reading of argument lists. A command has named options, with or without a value, and positional
arguments; a name may be written long, `--name value` or `--name=value`, or as one letter, `-n value`,
`-nvalue` or `-n=value`, and letters without a value may share a dash. Everything behind `--` is
positional. A value that does not suit its option is refused when the reading comes to it, so an
argument that ends the reading before has its way.
-/

namespace SourceAtlas.CommandLine

/-- What an option takes. -/
inductive Arity where
  /-- Nothing; the option is given at most once. -/
  | flag
  /-- One value; the option is given at most once. -/
  | single
  /-- One value each time it is given. -/
  | repeated
  /-- Nothing, and no argument behind it is read. -/
  | final
  deriving DecidableEq, Repr

/-- A number of at most 64 bits; a plus sign may stand before it. -/
def count? (text : String) : Option Nat :=
  let digits := match text.toList with
    | '+' :: ds => ds
    | ds => ds
  if digits.isEmpty || !digits.all Char.isDigit then none
  else
    let n := digits.foldl (fun n c => n * 10 + (c.toNat - 48)) 0
    if n < unsignedLimit then some n else none

/-- What the value of an option is. -/
inductive ValueKind where
  | text
  | path
  | count
  | word (choices : List String)
  deriving DecidableEq, Repr

/-- A value of this kind; a path is never empty. -/
def ValueKind.admits : ValueKind → String → Bool
  | text, _ => true
  | path, value => !value.isEmpty
  | count, value => (count? value).isSome
  | word choices, value => choices.contains value

/-- A named option. -/
structure OptionSpec where
  name : String
  letter : Option Char := none
  arity : Arity := .single
  kind : ValueKind := .text
  deriving DecidableEq, Repr

/-- The options and positional arguments that a command takes. -/
structure CommandSpec where
  options : List OptionSpec
  positionals : Nat := 0
  deriving DecidableEq, Repr

/-- What was given: the options with their values in their order, and the positional arguments. -/
structure Given where
  options : List (String × String) := []
  positionals : List String := []
  deriving DecidableEq, Repr

namespace Given

/-- The option was given. -/
def has (g : Given) (name : String) : Bool := g.options.any (·.1 == name)

/-- The values of an option, in their order. -/
def values (g : Given) (name : String) : List String :=
  (g.options.filter (·.1 == name)).map (·.2)

/-- The value of an option. -/
def value? (g : Given) (name : String) : Option String := g.options.lookup name

/-- What was given with one option more, unless its value does not suit it or it is there already and
may not be repeated. -/
def add? (g : Given) (spec : OptionSpec) (value : String) : Option Given :=
  if !spec.kind.admits value || (spec.arity != .repeated && g.has spec.name) then none
  else some { g with options := g.options ++ [(spec.name, value)] }

end Given

/-- What the last argument leaves open. -/
inductive Pending where
  | nothing
  /-- The value of the option is in the next argument. -/
  | value (spec : OptionSpec)
  /-- The option has its value, which is looked at with the next argument of this command. -/
  | check (spec : OptionSpec) (value : String)
  deriving DecidableEq, Repr

/-- A step of reading. -/
structure Reading where
  given : Given := {}
  pending : Pending := .nothing
  deriving DecidableEq, Repr

/-- What was given, with nothing left open. -/
def Reading.settle? (r : Reading) : Option Given :=
  match r.pending with
  | .nothing => some r.given
  | .value _ => none
  | .check spec value => r.given.add? spec value

/-- The option with a long name. -/
def CommandSpec.named? (c : CommandSpec) (name : String) : Option OptionSpec :=
  c.options.find? (·.name == name)

/-- The option with a letter. -/
def CommandSpec.lettered? (c : CommandSpec) (letter : Char) : Option OptionSpec :=
  c.options.find? (·.letter == some letter)

/-- The reading behind `--text`. -/
def readLong? (c : CommandSpec) (g : Given) (text : List Char) : Option Reading :=
  let name := text.takeWhile (· != '=')
  let value := match text.dropWhile (· != '=') with
    | _ :: v => some v
    | [] => none
  match c.named? (.ofList name) with
  | none => none
  | some spec =>
    match spec.arity, value with
    | .flag, none => (g.add? spec "").map fun g => { given := g }
    | .final, none => (g.add? spec "").map fun g => { given := g }
    | .flag, some _ => none
    | .final, some _ => none
    | _, some v => (g.add? spec (.ofList v)).map fun g => { given := g }
    | _, none => some ⟨g, .value spec⟩

/-- The reading behind the letters of one dash. -/
def readLetters? (c : CommandSpec) : (letters : List Char) → Given → Option Reading
  | [], g => some { given := g }
  | letter :: rest, g =>
    match c.lettered? letter with
    | none => none
    | some spec =>
      match spec.arity, rest with
      | .flag, _ => (g.add? spec "").bind (readLetters? c rest)
      | .final, _ => (g.add? spec "").map fun g => { given := g }
      | _, [] => some ⟨g, .value spec⟩
      | _, '=' :: v => (g.add? spec (.ofList v)).map fun g => { given := g }
      | _, v => (g.add? spec (.ofList v)).map fun g => { given := g }

/-- How an argument reads. -/
inductive Shape where
  | long (text : List Char)
  | letters (text : List Char)
  | terminator
  | plain
  deriving DecidableEq, Repr

/-- The shape of an argument; a single dash is a plain one. -/
def shapeOf (argument : String) : Shape :=
  match argument.toList with
  | ['-', '-'] => .terminator
  | '-' :: '-' :: text => .long text
  | '-' :: c :: text => .letters (c :: text)
  | _ => .plain

/-- An option was given behind which nothing is read. -/
def CommandSpec.isOver (c : CommandSpec) (g : Given) : Bool :=
  c.options.any fun spec => spec.arity == .final && g.has spec.name

/-- The positional arguments with more of them, as many as the command takes. -/
def Given.addPositionals? (g : Given) (c : CommandSpec) (arguments : List String) : Option Given :=
  let positionals := g.positionals ++ arguments
  if positionals.length ≤ c.positionals then some { g with positionals } else none

/-- The reading behind one argument that is no terminator. An option that waits takes only a plain
argument for its value. -/
def Reading.next? (r : Reading) (c : CommandSpec) (argument : String) : Option Reading :=
  match shapeOf argument, r.pending with
  | .plain, .value spec => some ⟨r.given, .check spec argument⟩
  | .plain, _ => do
    let g ← r.settle?
    let g ← g.addPositionals? c [argument]
    return { given := g }
  | .long text, _ => r.settle?.bind fun g => readLong? c g text
  | .letters text, _ => r.settle?.bind fun g => readLetters? c text g
  | .terminator, _ => none

/-- What a list of arguments gives, up to the first plain argument at which `leaves` says that
another reading begins; that argument and those behind it come with it. -/
def readArguments (c : CommandSpec) (leaves : String → Bool) :
    Reading → List String → Option (Reading × Option (String × List String))
  | r, [] => r.settle?.map fun g => ({ given := g }, none)
  | r, a :: rest =>
    if c.isOver r.given then some (r, none)
    else match shapeOf a, r.pending with
    | .terminator, _ => do
      let g ← r.settle?
      let g ← g.addPositionals? c rest
      return ({ given := g }, none)
    | .plain, .value _ => (r.next? c a).bind fun r => readArguments c leaves r rest
    | .plain, _ =>
      if leaves a then some (r, some (a, rest))
      else (r.next? c a).bind fun r => readArguments c leaves r rest
    | _, _ => (r.next? c a).bind fun r => readArguments c leaves r rest

end SourceAtlas.CommandLine
