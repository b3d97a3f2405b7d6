namespace Handheld.Script

-- Source text is cleaned before it is cut into tokens. Lines keep their numbers and the columns of
-- what is left in them, so a place in the cleaned text is a place in the written one.

-- Leaves out what stands between two slashes and the end of their line.
def dropComments (inComment : Bool) : List Char → List Char
  | [] => []
  | '\n' :: rest => '\n' :: dropComments false rest
  | '/' :: '/' :: rest =>
    if inComment then dropComments true ('/' :: rest) else dropComments true rest
  | c :: rest => if inComment then dropComments true rest else c :: dropComments false rest

def isBlank (c : Char) : Bool := c = ' ' || c = '\t'

def atLineEnd : List Char → Bool
  | [] => true
  | c :: _ => c = '\n'

-- Leaves out the blanks at the end of each line.
def trimLineEnds : List Char → List Char
  | [] => []
  | c :: rest =>
    let rest := trimLineEnds rest
    if isBlank c && atLineEnd rest then rest else c :: rest

def endLastLine (text : List Char) : List Char :=
  if text.getLast? = some '\n' then text else text ++ ['\n']

def cleanChars (text : List Char) : List Char :=
  endLastLine (trimLineEnds (dropComments false text))

def clean (source : String) : String := String.ofList (cleanChars source.toList)

end Handheld.Script
