import Handheld.Automaton.Tables

namespace Handheld.Script

def token (name : String) : Symbol := .terminal name

def rule (name : String) : Symbol := .nonterminal name

def lineBreak : Symbol := token "newline"

-- The body of a block stands on lines of its own.
def braced (body : String) : List Symbol :=
  [token "left-brace", lineBreak, rule body, lineBreak, token "right-brace"]

-- One item a line.
def lines (list item : String) : List (List Symbol) := [[rule list, lineBreak, rule item], [rule item]]

-- The statements that may stand anywhere in a state.
def simpleStatements : List (List Symbol) :=
  [[rule "variable-update-stmt"], [rule "screen-update-stmt"], [rule "goto-stmt"],
    [rule "selection-stmt"]]

def start : String := "prog"

def grammar : Grammar := .ofRules [
  (start,
    [[token "state-name", lineBreak, rule "top-level-stmts", lineBreak, token endMarker]]),
  ("top-level-stmts", lines "top-level-stmts" "top-level-stmt"),
  ("top-level-stmt", [[rule "shape-def"], [rule "state-def"]]),
  ("shape-def",
    [[token "shape-name", token "left-brace", lineBreak, token "shape", token "right-brace"]]),
  ("state-def", [token "state-name" :: braced "instate-stmts"]),
  ("instate-stmts", lines "instate-stmts" "instate-stmt"),
  ("instate-stmt", simpleStatements ++ [[rule "btn-handler"]]),
  ("expression",
    [[token "single-expression"],
      [token "rand", token "single-expression", token "single-expression"]]),
  ("variable-update-stmt", [[token "variable", token "assignment-op", rule "expression"]]),
  ("screen-update-stmt",
    [[token "clear-screen"],
      [token "display-shape", token "shape-name", token "coordinate-op", token "left-paren",
        rule "expression", token "comma", rule "expression", token "right-paren"]]),
  ("goto-stmt", [[token "goto", token "state-name"]]),
  ("selection-stmt", [[rule "if-stmt"], [rule "if-not-stmt"]]),
  ("if-stmt", [token "if" :: rule "expression" :: braced "inif-stmts"]),
  ("if-not-stmt", [token "if" :: token "not" :: rule "expression" :: braced "inif-stmts"]),
  ("inif-stmts", lines "inif-stmts" "inif-stmt"),
  ("inif-stmt", simpleStatements),
  ("btn-handler", [token "handler-name" :: braced "inhandler-stmts"]),
  ("inhandler-stmts", lines "inhandler-stmts" "inhandler-stmt"),
  ("inhandler-stmt", simpleStatements)]

def tables : Except TablesError Tables := Tables.build grammar start

end Handheld.Script
