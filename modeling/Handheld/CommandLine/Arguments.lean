import Handheld.Text.Decimal

namespace Handheld.CommandLine

inductive Stage where
  | tokens
  | tree
  | grammar
  | tables
  deriving DecidableEq, Repr

def Stage.all : List (String × Stage) :=
  [("tokens", .tokens), ("tree", .tree), ("grammar", .grammar), ("tables", .tables)]

structure Options where
  path : Option String
  width : Option Nat
  height : Option Nat
  fps : Option Nat
  seed : Option Nat
  config : Option String
  stage : Option Stage
  ticks : Option Nat
  deriving DecidableEq, Repr

def Options.empty : Options := ⟨none, none, none, none, none, none, none, none⟩

inductive Verb where
  | run
  | check
  | dump
  | frames
  deriving DecidableEq, Repr

namespace Verb

def all : List (String × Verb) :=
  [("run", run), ("check", check), ("dump", dump), ("frames", frames)]

def about : Verb → String
  | run => "Compile a game and play it in the terminal"
  | check => "Compile a game and report the first error"
  | dump => "Print an intermediate compiler stage"
  | frames => "Run a game headless and print the final display"

end Verb

structure Flag where
  long : String
  short : Option Char
  help : String
  -- nothing if the value is refused or the option has been given before
  set? : String → Options → Option Options

-- A width or a rate. A sign may stand before it, so that 0 may be written with a minus sign.
def size? (text : String) : Option Nat := do
  let n ← Text.signed? text.toList
  if 0 ≤ n ∧ n < UInt32.size then some n.toNat else none

-- A count or a seed. A plus sign may stand before it.
def count? (text : String) : Option Nat := (Text.unsigned? text.toList).filter (· < UInt64.size)

-- An option is given at most once.
def once (old : Option α) (new : Option α) : Option (Option α) :=
  match old with
  | some _ => none
  | none => new.map some

def sharedFlags : List Flag := [
  ⟨"width", none, "Display width in pixels", fun text o => do
    return { o with width := ← once o.width (size? text) }⟩,
  ⟨"height", none, "Display height in pixels", fun text o => do
    return { o with height := ← once o.height (size? text) }⟩,
  ⟨"fps", none, "Ticks per second", fun text o => do
    return { o with fps := ← once o.fps (size? text) }⟩,
  ⟨"seed", none, "Seed for random expressions", fun text o => do
    return { o with seed := ← once o.seed (count? text) }⟩,
  ⟨"config", some 'c', "Configuration file layered over the defaults", fun text o => do
    return { o with config := ← once o.config (some text) }⟩]

def stageFlag : Flag :=
  ⟨"stage", some 's', "Stage to print [default: tree] [possible values: " ++
    ", ".intercalate (Stage.all.map (·.1)) ++ "]", fun text o => do
    return { o with stage := ← once o.stage (Stage.all.lookup text) }⟩

def ticksFlag : Flag :=
  ⟨"ticks", some 'n', "Number of ticks to run [default: 1]", fun text o => do
    return { o with ticks := ← once o.ticks (count? text) }⟩

def Verb.flags : Verb → List Flag
  | run => sharedFlags
  | check => sharedFlags
  | dump => stageFlag :: sharedFlags
  | frames => ticksFlag :: sharedFlags

inductive Request where
  | command (verb : Verb) (path : String) (options : Options)
  | help (verb : Option Verb)
  | version
  -- a command line that cannot be understood
  | misuse

-- An argument that begins with a hyphen is an option, unless the hyphen is all of it.
def looksLikeOption (argument : List Char) : Bool :=
  match argument with
  | '-' :: _ :: _ => true
  | _ => false

-- An argument taken apart: the option it names, with the value attached to it if there is one.
inductive Part where
  | positional (text : String)
  | endOfOptions
  | help
  | flag (flag : Flag) (value : Option String)
  | unknown

def splitAtEquals (text : List Char) : List Char × Option String :=
  match text.dropWhile (· ≠ '=') with
  | [] => (text, none)
  | _ :: value => (text.takeWhile (· ≠ '='), some (String.ofList value))

def partOf (flags : List Flag) (argument : String) : Part :=
  match argument.toList with
  | ['-'] => .positional argument
  | ['-', '-'] => .endOfOptions
  | '-' :: '-' :: rest =>
    let (name, value) := splitAtEquals rest
    if String.ofList name = "help" ∧ value = none then .help
    else match flags.find? (·.long = String.ofList name) with
      | some flag => .flag flag value
      | none => .unknown
  | '-' :: letter :: rest =>
    match flags.find? (·.short = some letter) with
    | some flag =>
      match rest with
      | [] => .flag flag none
      | '=' :: value => .flag flag (some (String.ofList value))
      | value => .flag flag (some (String.ofList value))
    | none => if letter = 'h' then .help else .unknown
  | _ => .positional argument

def addPath (options : Options) (text : String) : Option Options := do
  return { options with path := ← once options.path (some text) }

-- Reads the arguments after a verb, in order; the first one that is wrong, or asks for help, decides. An
-- option without an attached value takes the next argument, which must not look like an option.
def readOptions (verb : Verb) (options : Options) : List String → Request
  | [] => match options.path with
    | some path => .command verb path options
    | none => .misuse
  | argument :: rest =>
    match partOf verb.flags argument with
    | .positional text => match addPath options text with
      | some options => readOptions verb options rest
      | none => .misuse
    | .endOfOptions => match rest.foldlM addPath options with
      | some options => match options.path with
        | some path => .command verb path options
        | none => .misuse
      | none => .misuse
    | .help => .help (some verb)
    | .unknown => .misuse
    | .flag flag (some value) => match flag.set? value options with
      | some options => readOptions verb options rest
      | none => .misuse
    | .flag flag none => match rest with
      | [] => .misuse
      | value :: rest =>
        if looksLikeOption value.toList then .misuse
        else match flag.set? value options with
          | some options => readOptions verb options rest
          | none => .misuse

def readHelp : List String → Request
  | [] => .help none
  | [name] => if name = "help" then .help none else match Verb.all.lookup name with
    | some verb => .help (some verb)
    | none => .misuse
  | _ => .misuse

def read : List String → Request
  | [] => .misuse
  | first :: rest =>
    match first with
    | "help" => readHelp rest
    | "--help" => .help none
    | "--version" => .version
    | name => match Verb.all.lookup name with
      | some verb => readOptions verb .empty rest
      | none => match name.toList with
        | '-' :: 'h' :: _ => .help none
        | '-' :: 'V' :: _ => .version
        | _ => .misuse

end Handheld.CommandLine
