import Handheld.Grammar.Symbol
import Handheld.Lexer

namespace Handheld.Script

-- Letters, digits and underscores; all of them are characters of words.
def name : Pattern := .many (.oneOf [.named .word])

def buttonLabels : List String := ["X", "Y", "A", "B", "START"]

def expressionSigns : List Char := "-+*/%><=|&~$()!".toList

def rules : List (String × Pattern) := [
  ("goto", .text "goto"),
  ("clear-screen", .text "clear"),
  ("display-shape", .text "display"),
  ("if", .text "if"),
  ("not", .text "not"),
  ("rand", .text "r"),
  ("state-name", .seq (.text "~") name),
  ("shape-name", .seq (.text "#") name),
  ("handler-name", .seq (.text "@") (.choice (buttonLabels.map .text))),
  ("variable", .seq (.text "$") name),
  ("assignment-op", .text "="),
  ("coordinate-op", .text "@"),
  ("comma", .text ","),
  ("left-brace", .text "\x7b"),
  ("right-brace", .text "\x7d"),
  ("left-paren", .text "("),
  ("right-paren", .text ")"),
  ("shape", .seq (.one (.ofChars ['.', '#', '+'])) (.many (.one (.ofChars ['.', '#', '+', '\n'])))),
  ("single-expression",
    .seq (.text "[")
      (.seq (.many (.oneOf (expressionSigns.map .char ++ [.named .word, .char ' ']))) (.text "]"))),
  ("newline", .many (.text "\n"))]

-- A line break is a token, so only spaces and tabs separate.
def lexer : Lexer String where
  rules := rules
  ignored := [.many (.one (.ofChars [' ', '\t']))]
  endMarker := some endMarker

end Handheld.Script
