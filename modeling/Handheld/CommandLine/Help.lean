import Handheld.CommandLine.Arguments
import Handheld.Text.Column

namespace Handheld.CommandLine

def version : String := "retro 0.1.0"

def columns (rows : List (String × String)) : List String :=
  let width := (rows.map (·.1.length)).foldl max 0
  rows.map fun (left, right) => "  " ++ Text.padRight width left ++ "  " ++ right

def helpRow : String × String := ("-h, --help", "Print help")

def flagRow (flag : Flag) : String × String :=
  let short := match flag.short with
    | some letter => String.ofList ['-', letter, ',', ' ']
    | none => "    "
  (short ++ "--" ++ flag.long ++ " <" ++ flag.long ++ ">", flag.help)

def generalHelp : List String :=
  ["Compile and play retro handheld games", "", "Usage: retro <COMMAND>", "", "Commands:"] ++
  columns (Verb.all.map (fun (name, verb) => (name, verb.about)) ++
    [("help", "Print this message or the help of the given subcommand(s)")]) ++
  ["", "Options:"] ++ columns [helpRow, ("-V, --version", "Print version")]

def verbHelp (verb : Verb) : List String :=
  let name := ((Verb.all.find? (·.2 = verb)).map (·.1)).getD ""
  [verb.about, "", s!"Usage: retro {name} [OPTIONS] <path>", "", "Arguments:"] ++
  columns [("<path>", "Path to the game program")] ++
  ["", "Options:"] ++ columns (verb.flags.map flagRow ++ [helpRow])

def help (verb : Option Verb) : String :=
  let lines := match verb with
    | some verb => verbHelp verb
    | none => generalHelp
  String.join (lines.map (· ++ "\n"))

end Handheld.CommandLine
