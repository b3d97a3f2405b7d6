import Handheld.CommandLine.Help
import Handheld.Config.Basic
import Handheld.Console.Screen
import Handheld.Dump.Basic
import Handheld.Script.Compiler
import Handheld.Text.Utf8

namespace Handheld.CommandLine

inductive FileError where
  | notFound
  | notDirectory
  | isDirectory
  | nameTooLong
  | notText
  | other (reason : String)
  deriving DecidableEq, Repr

def FileError.message : FileError → String
  | notFound => "No such file or directory (os error 2)"
  | notDirectory => "Not a directory (os error 20)"
  | isDirectory => "Is a directory (os error 21)"
  | nameTooLong => "File name too long (os error 36)"
  | notText => "stream did not contain valid UTF-8"
  | other reason => reason

abbrev Files := String → Except FileError ByteArray

structure Ending where
  code : Nat
  stdout : String
  stderr : String
  deriving DecidableEq, Repr

namespace Ending

def printed (text : String) : Ending := ⟨0, text, ""⟩

def failed (message : String) : Ending := ⟨1, "", s!"Error: {message}\n"⟩

end Ending

inductive Response where
  | ended (ending : Ending)
  | play (path : String) (console : Console RandomStream)

namespace Response

def printed (text : String) : Response := ended (.printed text)

def ofExcept (result : Except String Response) : Response :=
  match result with
  | .ok response => response
  | .error message => ended (.failed message)

end Response

-- Slashes at the end do not belong to a name.
def withExtension (name : String) : String :=
  String.ofList (name.toList.reverse.dropWhile (· = '/')).reverse ++ ".toml"

-- A configuration file may be named without its extension.
def configLayer (files : Files) (name : String) : Except Config.Error Config.Layer :=
  match files name, files (withExtension name) with
  | .ok bytes, _ | .error _, .ok bytes => .ok (.file name (Text.decode bytes.toList))
  | .error _, .error _ => .error (.missing name)

def overrides (options : Options) : List Config.Layer :=
  let given (path : String) (n : Option Nat) : List Config.Layer :=
    (n.map fun n => .override path (.integer n)).toList
  given "display.width" options.width ++ given "display.height" options.height ++
    given "display.fps" options.fps ++ given "runtime.seed" options.seed

def readConfig (files : Files) (options : Options) : Except Config.Error Config := do
  let layer ← options.config.mapM (configLayer files)
  Config.ofLayers layer.toList (overrides options)

-- A seed must fit the integers of configurations.
def configFor (files : Files) (options : Options) : Except String Config := do
  if Int64.maxValue.toInt < options.seed.getD 0 then throw "seed must fit in 63 bits"
  (readConfig files options).mapError fun error => s!"failed to load configuration: {error.message}"

def scriptText (bytes : ByteArray) : Except FileError String :=
  match String.fromUTF8? bytes with
  | some text => .ok text
  | none => .error .notText

def readScript (files : Files) (path : String) : Except String String :=
  (files path >>= scriptText).mapError fun error => s!"failed to read {path}: {error.message}"

-- Without a seed of its own a configuration takes the one offered.
def settingsOf (config : Config) (spareSeed : UInt64) : Settings :=
  ⟨config.width, config.height, config.fps, (config.seed.map .ofNat).getD spareSeed⟩

def compilerFor (settings : Settings) : Except String Compiler :=
  (Compiler.ofSettings settings).mapError CompileError.message

def located (path : String) (error : CompileError) : String :=
  match error.position? with
  | some position => s!"{path}:{position.text}: {error.message}"
  | none => s!"{path}: {error.message}"

-- The file is read before the settings are looked at.
def programAt (files : Files) (path : String) (settings : Settings) : Except String Program := do
  let source ← readScript files path
  let compiler ← compilerFor settings
  let (program, _) ← (compiler.program source).mapError (located path)
  return program

def check (files : Files) (path : String) (settings : Settings) : Except String Response := do
  let program ← programAt files path settings
  let states := program.states.size
  let shapes := program.shapes.size
  return .printed s!"{path}: ok ({states} states, {shapes} shapes, starts in {program.initial})\n"

-- The grammar and the tables do not depend on a script.
def dump (files : Files) (path : String) (settings : Settings) (stage : Stage) :
    Except String Response := do
  match stage with
  | .grammar => return .printed Script.grammar.listing
  | .tables =>
    let compiler ← compilerFor settings
    return .printed ((Dump.tables compiler.tables).pretty ++ "\n")
  | .tokens =>
    let _ ← compilerFor settings
    let source ← readScript files path
    let tokens ← (Compiler.tokens source).mapError (located path)
    return .printed ((Dump.tokens tokens).pretty ++ "\n")
  | .tree =>
    let compiler ← compilerFor settings
    let source ← readScript files path
    let tree ← (compiler.parseTree source).mapError (located path)
    return .printed ((Dump.tree tree).pretty ++ "\n")

-- Ticks up to the first error, which comes with the number of its tick.
def runTicks (number : Nat) : (count : Nat) → Game RandomStream →
    Except (Nat × RuntimeError) (Game RandomStream)
  | 0, game => .ok game
  | count + 1, game =>
    match game.tick with
    | (.failed error, _) => .error (number, error)
    | (_, game) => runTicks (number + 1) count game

def frames (files : Files) (path : String) (settings : Settings) (ticks : Nat) :
    Except String Response := do
  let program ← programAt files path settings
  match runTicks 1 ticks (.seeded program settings) with
  | .error (number, error) => throw s!"{path}: tick {number}: {error.message}"
  | .ok game => return .printed (game.machine.display.text ++ "\n")

def play (files : Files) (path : String) (settings : Settings) (keys : Console.KeyNames) :
    Except String Response := do
  let program ← programAt files path settings
  let bindings ← (Console.Bindings.ofNames keys).mapError Console.BindingError.message
  return .play path (.start (.seeded program settings) bindings)

def runCommand (files : Files) (spareSeed : UInt64) (verb : Verb) (path : String)
    (options : Options) : Except String Response := do
  let config ← configFor files options
  let settings := settingsOf config spareSeed
  match verb with
  | .run => play files path settings config.keys
  | .check => check files path settings
  | .dump => dump files path settings (options.stage.getD .tree)
  | .frames => frames files path settings (options.ticks.getD 1)

-- A misused command line is told how to use it, and ends with code 2.
def respond (files : Files) (spareSeed : UInt64) (arguments : List String) : Response :=
  match read arguments with
  | .misuse => .ended ⟨2, "", help none⟩
  | .help verb => .printed (help verb)
  | .version => .printed (version ++ "\n")
  | .command verb path options => .ofExcept (runCommand files spareSeed verb path options)

def fileNames (arguments : List String) : List String :=
  match read arguments with
  | .command _ path options =>
    path :: (options.config.map fun name => [name, withExtension name]).getD []
  | _ => []

def farewell (path : String) (console : Console RandomStream) : Ending :=
  match console.error with
  | some error => .failed s!"{path}: {error.message}"
  | none => .printed ""

end Handheld.CommandLine
