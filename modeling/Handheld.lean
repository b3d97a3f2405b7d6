import Handheld.Automaton.Actions
import Handheld.Automaton.Item
import Handheld.Automaton.Tables
import Handheld.CommandLine.Arguments
import Handheld.CommandLine.Basic
import Handheld.CommandLine.Help
import Handheld.Config.Basic
import Handheld.Config.Path
import Handheld.Config.Toml
import Handheld.Console.Basic
import Handheld.Console.Bindings
import Handheld.Console.Key
import Handheld.Console.Screen
import Handheld.Data.BreadthFirst
import Handheld.Data.Dict
import Handheld.Dump.Basic
import Handheld.Dump.Json
import Handheld.Expr.Basic
import Handheld.Expr.Operator
import Handheld.Expr.Reader
import Handheld.Expr.Value
import Handheld.Expression
import Handheld.Game.Basic
import Handheld.Game.Button
import Handheld.Game.Display
import Handheld.Game.Random
import Handheld.Game.Settings
import Handheld.Game.Shape
import Handheld.Game.Statement
import Handheld.Grammar.Basic
import Handheld.Grammar.Numbering
import Handheld.Grammar.Symbol
import Handheld.Lexer
import Handheld.Main
import Handheld.ParseTree
import Handheld.Pattern.Alternatives
import Handheld.Pattern.Basic
import Handheld.Pattern.CharClass
import Handheld.Pattern.Matching
import Handheld.Pattern.Reader
import Handheld.Proofs.Automaton.Actions
import Handheld.Proofs.Automaton.Canonical
import Handheld.Proofs.Automaton.Closure
import Handheld.Proofs.Automaton.Conflicts
import Handheld.Proofs.Automaton.Registration
import Handheld.Proofs.Automaton.States
import Handheld.Proofs.Automaton.Tables
import Handheld.Proofs.Data.BreadthFirst
import Handheld.Proofs.Data.Except
import Handheld.Proofs.Expr.Acceptance
import Handheld.Proofs.Expr.Faults
import Handheld.Proofs.Expr.Infix
import Handheld.Proofs.Game.Flow
import Handheld.Proofs.Game.Shape
import Handheld.Proofs.Grammar.Derivation
import Handheld.Proofs.Grammar.Numbering
import Handheld.Proofs.Grammar.Sentence
import Handheld.Proofs.Lexer
import Handheld.Proofs.Pattern.Matching
import Handheld.Proofs.Script.Compiler
import Handheld.Proofs.Script.Grammar
import Handheld.Proofs.Script.Program
import Handheld.Proofs.Script.Statement
import Handheld.Proofs.Script.Vocabulary
import Handheld.Proofs.ShiftReduce.Completeness
import Handheld.Proofs.ShiftReduce.EarliestError
import Handheld.Proofs.ShiftReduce.Language
import Handheld.Proofs.ShiftReduce.Settling
import Handheld.Proofs.ShiftReduce.StackPath
import Handheld.Proofs.ShiftReduce.Steps
import Handheld.Script.Compiler
import Handheld.Script.Grammar
import Handheld.Script.Program
import Handheld.Script.Source
import Handheld.Script.Vocabulary
import Handheld.ShiftReduce
import Handheld.Text.BlankChars
import Handheld.Text.CharSet
import Handheld.Text.Column
import Handheld.Text.CombiningChars
import Handheld.Text.Decimal
import Handheld.Text.DigitChars
import Handheld.Text.HiddenChars
import Handheld.Text.Position
import Handheld.Text.Quoted
import Handheld.Text.Utf8
import Handheld.Text.WideChars
import Handheld.Text.WordChars
import Handheld.Token
import Handheld.Proofs.Expr.Arithmetic
import Handheld.Proofs.Expr.Evaluation
import Handheld.Proofs.Game.Names
import Handheld.Proofs.ShiftReduce.Yield
import Handheld.Proofs.Lexer.Tiling
import Handheld.Proofs.Console.Run
import Handheld.Proofs.Game.Reset
import Handheld.Proofs.Lexer.Places
import Handheld.Proofs.ShiftReduce.OnDemand
import Handheld.Proofs.Script.Meaning
import Handheld.Proofs.Script.Reading
import Handheld.Proofs.Script.Lowering
import Handheld.Proofs.Script.Totality
import Handheld.Proofs.Script.Acceptance
import Handheld.Proofs.ShiftReduce.Stacks
import Handheld.Proofs.ShiftReduce.Looping
import Handheld.Proofs.ShiftReduce.Halting
import Handheld.Proofs.Script.Cleaning
import Handheld.Proofs.Script.Places
import Handheld.Proofs.Pattern.Doubling
import Handheld.Proofs.Lexer.Doubling
import Handheld.Proofs.Grammar.Alike
import Handheld.Proofs.Script.Alike
import Handheld.Proofs.Script.BlankLines
import Handheld.Proofs.Automaton.InPlace
import Handheld.Proofs.Automaton.Competing
import Handheld.Proofs.Lexer.Pulls
import Handheld.Proofs.Pattern.Words
import Handheld.Proofs.Lexer.Cutting
import Handheld.Proofs.Expr.Tokens
import Handheld.Proofs.Expr.Rendering
import Handheld.Proofs.Expr.Groups
import Handheld.Proofs.Game.Display
import Handheld.Proofs.Data.MentionOrder
import Handheld.Proofs.Automaton.Numbering
import Handheld.Proofs.Expr.Division
import Handheld.Proofs.Expr.Literals
import Handheld.Proofs.Script.Passes
import Handheld.Proofs.Script.LineWise
import Handheld.Proofs.Expr.Numerals
import Handheld.Proofs.Console.Bindings
import Handheld.Proofs.Game.ShapeText
