import Handheld.Grammar.Basic
import Handheld.Text.Quoted
import Handheld.Token

namespace Handheld

open Text

-- A parse tree. A leaf holds the text and the place of a token; an inner node, named for a rule, holds the
-- trees of the rule's right-hand side.
inductive ParseTree where
  | node (symbol : Symbol) (lexeme : Option String) (position : Option Position)
      (children : List ParseTree)

namespace ParseTree

def leaf (token : Token String) : ParseTree :=
  node (.terminal token.kind) (some token.lexeme) (some token.position) []

def branch (lhs : String) (children : List ParseTree) : ParseTree :=
  node (.nonterminal lhs) none none children

def symbol : ParseTree → Symbol
  | node symbol _ _ _ => symbol

def tag (tree : ParseTree) : String := tree.symbol.name

def lexeme? : ParseTree → Option String
  | node _ lexeme _ _ => lexeme

-- Only leaves have a text.
def lexeme (tree : ParseTree) : String := tree.lexeme?.getD ""

def position? : ParseTree → Option Position
  | node _ _ position _ => position

def children : ParseTree → List ParseTree
  | node _ _ _ children => children

mutual

def leaves : ParseTree → List ParseTree
  | node symbol lexeme position children =>
    (if symbol.isTerminal then [node symbol lexeme position children] else []) ++
      leavesOfAll children

def leavesOfAll : List ParseTree → List ParseTree
  | [] => []
  | tree :: trees => tree.leaves ++ leavesOfAll trees

end

mutual

-- The place of a tree: its own, or else the first one found below it.
def firstPosition? : ParseTree → Option Position
  | node _ _ position children => position <|> firstPositionOfAll? children

def firstPositionOfAll? : List ParseTree → Option Position
  | [] => none
  | tree :: trees => tree.firstPosition? <|> firstPositionOfAll? trees

end

def headText (symbol : Symbol) (lexeme : Option String) : String :=
  match lexeme with
  | none => symbol.text
  | some lexeme => symbol.text ++ " " ++ quoted lexeme

mutual

def linesAt (depth : Nat) : ParseTree → List String
  | node symbol lexeme _ children =>
    (String.ofList (List.replicate (2 * depth) ' ') ++ headText symbol lexeme) ::
      linesOfAll (depth + 1) children

def linesOfAll (depth : Nat) : List ParseTree → List String
  | [] => []
  | tree :: trees => tree.linesAt depth ++ linesOfAll depth trees

end

-- The tree as text: a node a line, its children below it and two columns to the right.
def text (tree : ParseTree) : String := "\n".intercalate (tree.linesAt 0)

end ParseTree

end Handheld
