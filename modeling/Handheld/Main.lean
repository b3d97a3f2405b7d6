import Handheld.CommandLine.Basic

namespace Handheld.CommandLine

def fileError : IO.Error → FileError
  | .noFileOrDirectory .. => .notFound
  | .inappropriateType .. => .isDirectory
  | error => .other (toString error)

def readFile (name : String) : IO (Except FileError ByteArray) := do
  return (← (IO.FS.readBinFile name).toBaseIO).mapError fileError

def readFiles (names : List String) : IO Files := do
  let contents ← names.mapM fun name => return (name, ← readFile name)
  return fun name => (contents.lookup name).getD (.error .notFound)

-- The game goes on by lines of input: the characters of a line are keys, and its end is a frame.
partial def playLines (input output : IO.FS.Stream) (console : Console RandomStream) :
    IO (Console RandomStream) := do
  for line in console.screen 80 (console.game.machine.display.height + 3) do
    output.putStrLn line
  output.flush
  let line ← input.getLine
  let keys := line.toList.filter (· ≠ '\n')
  let press (console : Console RandomStream) (c : Char) : Console RandomStream :=
    (console.handleKey ⟨.char c, false, false, false⟩).2
  let console := keys.foldl press console
  if line.isEmpty || console.quitting then return console
  playLines input output console.tick

def finish (ending : Ending) : IO UInt32 := do
  (← IO.getStdout).putStr ending.stdout
  (← IO.getStderr).putStr ending.stderr
  return ending.code.toUInt32

def perform : Response → IO UInt32
  | .ended ending => finish ending
  | .play path console => do
    finish (farewell path (← playLines (← IO.getStdin) (← IO.getStdout) console))

end Handheld.CommandLine

def main (arguments : List String) : IO UInt32 := do
  let files ← Handheld.CommandLine.readFiles (Handheld.CommandLine.fileNames arguments)
  let spareSeed := UInt64.ofNat (← IO.rand 0 (UInt64.size - 1))
  Handheld.CommandLine.perform (Handheld.CommandLine.respond files spareSeed arguments)
