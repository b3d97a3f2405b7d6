import Handheld.Script.Program
import Handheld.Script.Source
import Handheld.Script.Vocabulary
import Handheld.ShiftReduce

namespace Handheld

open Text

inductive CompileError where
  | settings (fault : InvalidSettings)
  | grammar (error : TablesError)
  | lexical (error : LexicalError)
  | parse (error : ParseError)
  | tree (error : Script.TreeError)
  deriving DecidableEq, Repr

namespace CompileError

def position? : CompileError → Option Position
  | settings _ => none
  | grammar _ => none
  | lexical error => some error.position
  | parse error => error.position?
  | tree error => error.position?

def message : CompileError → String
  | settings fault => fault.message
  | grammar error => s!"Language grammar is broken: {error.message}"
  | lexical error => error.message
  | parse error => error.message
  | tree error => match error.position? with
    | some position => s!"{error.message} at {position.text}"
    | none => error.message

end CompileError

structure Compiler where
  settings : Settings
  tables : Tables

namespace Compiler

def ofSettings (settings : Settings) : Except CompileError Compiler :=
  match settings.fault? with
  | some fault => .error (.settings fault)
  | none => (Script.tables.mapError .grammar).map (⟨settings, ·⟩)

def tokens (source : String) : Except CompileError (List (Token String)) :=
  (Script.lexer.tokens (Script.clean source)).mapError .lexical

def ofParseError : ParseError → CompileError
  | .lexical error => .lexical error
  | error => .parse error

-- The tokens are read as the parser asks for them, so a place
-- that cannot be parsed hides a later one that cannot be read.
def parseTree (compiler : Compiler) (source : String) : Except CompileError ParseTree :=
  (compiler.tables.parse (Script.lexer.run (Script.clean source))).mapError ofParseError

def program (compiler : Compiler) (source : String) :
    Except CompileError (Program × List Script.Redefinition) := do
  let tree ← compiler.parseTree source
  (Program.ofTree tree).mapError .tree

end Compiler

end Handheld
