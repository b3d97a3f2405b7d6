import Handheld.Config.Toml
import Handheld.Console.Bindings
import Handheld.Text.Decimal

namespace Handheld

-- Without a seed, the random numbers start anywhere.
structure Config where
  width : Nat
  height : Nat
  fps : Nat
  seed : Option Nat
  keys : Console.KeyNames

namespace Config

inductive Error where
  | missing (file : String)
  | malformed (file : String)
  | invalid (key : String)
  deriving DecidableEq, Repr

def Error.message : Error → String
  | missing file => s!"configuration file \"{file}\" not found"
  | malformed file => s!"configuration file \"{file}\" is not valid TOML"
  | invalid key => s!"invalid value for {key}"

-- Words and truth values also stand for 1 and 0.
def natOfText? (text : String) : Option Nat :=
  match text.toLower with
  | "true" | "on" | "yes" => some 1
  | "false" | "off" | "no" => some 0
  | _ => Text.unsigned? text.toList

def word? (value : Toml) : Option Nat :=
  let n := match value with
    | .integer n => if 0 ≤ n then some n.toNat else none
    | .text s => natOfText? s
    | .truth b => some b.toNat
    | _ => none
  n.filter (· < UInt64.size)

def text? : Toml → Option String
  | .integer n => some (toString n)
  | .text s => some s
  | .truth b => some (if b then "true" else "false")
  | _ => none

-- The keys of a section, in the order in which a list gives their values.
def sectionKeys (sectionName : String) : List String :=
  match sectionName with
  | "display" => ["width", "height", "fps"]
  | "runtime" => ["seed"]
  | "keys" => Console.Action.all.map (·.name)
  | _ => []

-- The entry of a section, which must be a table or a list.
def entry? (document : Toml) (sectionName key : String) : Except Error (Option Toml) :=
  match document.get? sectionName with
  | none => .ok none
  | some (.table _ entries) => .ok (Dict.lookupIn key entries)
  | some (.list items) => .ok items[(sectionKeys sectionName).idxOf key]?
  | some _ => .error (.invalid sectionName)

def read (document : Toml) (sectionName key : String) (convert : Toml → Option α) :
    Except Error (Option α) := do
  match ← entry? document sectionName key with
  | none | some .absent => return none
  | some value => match convert value with
    | some a => return some a
    | none => throw (.invalid (sectionName ++ "." ++ key))

def required (document : Toml) (sectionName key : String) (convert : Toml → Option α) :
    Except Error α := do
  match ← read document sectionName key convert with
  | some a => return a
  | none => throw (.invalid (sectionName ++ "." ++ key))

-- The name bound to each action, as a function of the action.
def keyNames (document : Toml) : Except Error Console.KeyNames := do
  let names ← Console.Action.all.mapM fun action => do
    return (action, ← required document "keys" action.name text?)
  return fun action => (names.lookup action).getD ""

-- Reads a configuration. Entries that have no meaning are passed over. The rate is a number of 32 bits, of
-- which a longer one gives the last.
def ofToml (document : Toml) : Except Error Config := do
  let width ← required document "display" "width" (word?)
  let height ← required document "display" "height" (word?)
  let fps ← required document "display" "fps" (word?)
  let seed ← read document "runtime" "seed" (word?)
  return { width, height, fps := fps % UInt32.size, seed, keys := ← keyNames document }

def defaults : Toml := .table .header [
  ("display", .table .header [("width", .integer 30), ("height", .integer 30), ("fps", .integer 30)]),
  ("runtime", .table .header []),
  ("keys", .table .header [("x", .text "a"), ("y", .text "s"), ("a", .text "z"), ("b", .text "x"),
    ("start", .text "enter"), ("power", .text "p"), ("reset", .text "r"), ("quit", .text "q")])]

-- Something laid over a configuration: the text of a file, or one value at a path such as `display.width`.
inductive Layer where
  | file (name source : String)
  | override (path : String) (value : Toml)

-- The outermost keys of a file may be paths themselves.
def lay (document : Toml) : Layer → Except Error Toml
  | .file name source => match Toml.read? (Toml.withoutMark source) with
    | none => .error (.malformed name)
    | some layer => .ok (layer.entries.foldl (fun document (key, value) =>
        Toml.put value ((Path.read? key).getD [.key key]) (some document)) document)
  | .override path value => match Path.read? path with
    | none => .error (.invalid path)
    | some path => .ok (Toml.put value path (some document))

-- Lays files, and then single values, over the defaults; the later one wins.
def ofLayers (files overrides : List Layer) : Except Error Config := do
  ofToml (← (files ++ overrides).foldlM lay defaults)

end Config

end Handheld
