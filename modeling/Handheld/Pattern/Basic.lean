import Handheld.Pattern.CharClass

namespace Handheld

-- How often a part of a pattern is read: at most once, any number of times, at least once.
inductive Repetition where
  | optional
  | star
  | plus
  deriving DecidableEq, Repr

-- A regular expression over characters. Alternatives are in order of preference: `either` prefers its first
-- branch, an eager repetition prefers to read more and one that is not eager to read less.
inductive Pattern where
  | nothing
  | one (cls : CharClass)
  | wordStart
  | wordEnd
  -- a part in brackets of its own
  | group (body : Pattern)
  | seq (first second : Pattern)
  | either (first second : Pattern)
  | repeated (times : Repetition) (eager : Bool) (body : Pattern)
  deriving DecidableEq, Repr

namespace Pattern

def optional (body : Pattern) : Pattern := repeated .optional true body

def star (body : Pattern) : Pattern := repeated .star true body

def many (body : Pattern) : Pattern := repeated .plus true body

def ofParts : List Pattern → Pattern
  | [] => nothing
  | [part] => part
  | part :: parts => seq part (ofParts parts)

def choice : List Pattern → Pattern
  | [] => nothing
  | [branch] => branch
  | branch :: rest => either branch (choice rest)

def text (word : String) : Pattern := ofParts (word.toList.map fun c => one (.char c))

def oneOf (items : List CharClass) : Pattern := one (.ofItems items)

def canBeEmpty : Pattern → Bool
  | nothing | wordStart | wordEnd => true
  | one _ => false
  | group body => body.canBeEmpty
  | seq first second => first.canBeEmpty && second.canBeEmpty
  | either first second => first.canBeEmpty || second.canBeEmpty
  | repeated .plus _ body => body.canBeEmpty
  | repeated _ _ _ => true

end Pattern

end Handheld
