import Handheld.Pattern.Basic

namespace Handheld.Pattern

def parts : Pattern → List Pattern
  | nothing => []
  | seq first second => first.parts ++ second.parts
  | pattern => [pattern]

def branches : Pattern → List Pattern
  | either first second => first.branches ++ second.branches
  | pattern => [pattern]

-- Whether two patterns are alike, however their classes are written. A group is like no other.
def same : Pattern → Pattern → Bool
  | nothing, nothing => true
  | one cls, one other => cls.same other
  | wordStart, wordStart => true
  | wordEnd, wordEnd => true
  | seq first second, seq first' second' => first.same first' && second.same second'
  | either first second, either first' second' => first.same first' && second.same second'
  | repeated times eager body, repeated times' eager' body' =>
    times == times' && eager == eager' && body.same body'
  | _, _ => false

def commonParts : List Pattern → List Pattern → List Pattern
  | part :: parts, part' :: parts' => if part.same part' then part :: commonParts parts parts' else []
  | _, _ => []

-- A part that is a branch of its own is not shared.
def sharedParts (rows : List (List Pattern)) : List Pattern :=
  match rows with
  | row :: other :: rows =>
    if (row :: other :: rows).all (1 < ·.length) then (other :: rows).foldl commonParts row else []
  | _ => []

def cls? : Pattern → Option CharClass
  | one cls => some cls
  | _ => none

-- Branches that read one character each are one class.
def joined (branches : List Pattern) : Pattern :=
  match branches.mapM cls? with
  | some classes => oneOf classes
  | none => choice branches

-- A choice from some branches. Parts with which all of them begin are read once, before the choice, so how
-- often such a part is repeated is settled before the branch is.
def alternatives (choices : List Pattern) : Pattern :=
  let flat := choices.flatMap branches
  let rows := flat.map parts
  let shared := sharedParts rows
  if shared.isEmpty then joined flat
  else
    let rests := rows.map fun row => ofParts (row.drop shared.length)
    ofParts (shared ++ (joined (rests.flatMap branches)).parts)

end Handheld.Pattern
