import Handheld.Pattern.Basic

namespace Handheld.Pattern

-- A match is looked for along all readings of the pattern at once, character by character. A reading
-- is the list of what it still has to do. Every part of the pattern has a site, a number of its own,
-- and of two readings that come to one site at one place in the text only the preferred one goes on:
-- this is what ends a repetition that reads nothing, and where it ends decides what is preferred.

def sites : Pattern → Nat
  | nothing | one _ | wordStart | wordEnd => 1
  | group body => body.sites + 1
  | seq first second => first.sites + second.sites + 1
  | either first second => first.sites + second.sites + 1
  | repeated _ _ body => body.sites + 2

-- Something a reading has to do: read a pattern, or be asked for
-- another round of a repetition whose body has the next site.
inductive Task where
  | read (site : Nat) (pattern : Pattern)
  | again (site : Nat) (eager : Bool) (body : Pattern)
  deriving DecidableEq, Repr

abbrev Reading := List Task

namespace Task

def site : Task → Nat
  | read site _ => site
  | again site _ _ => site

def cls? : Task → Option CharClass
  | read _ (one cls) => some cls
  | _ => none

end Task

structure Place where
  before : Option Char
  after : Option Char

namespace Place

def isWord (c : Option Char) : Bool := c.any Text.wordChars.contains

def startsWord (place : Place) : Bool := !isWord place.before && isWord place.after

def endsWord (place : Place) : Bool := isWord place.before && !isWord place.after

end Place

-- To do something or to leave it.
def offer (eager : Bool) (tasks : List Task) : List (List Task) :=
  if eager then [tasks, []] else [[], tasks]

-- The ways to do a task by other tasks, the preferred ones first.
def Task.ways (place : Place) : Task → List (List Task)
  | read site pattern => match pattern with
    | nothing => [[]]
    | one _ => []
    | wordStart => if place.startsWord then [[]] else []
    | wordEnd => if place.endsWord then [[]] else []
    | group body => [[read (site + 1) body]]
    | seq first second => [[read (site + 1) first, read (site + 1 + first.sites) second]]
    | either first second => [[read (site + 1) first], [read (site + 1 + first.sites) second]]
    | repeated .optional eager body => offer eager [read (site + 2) body]
    | repeated .star eager body =>
      let rounds := [read (site + 2) body, again (site + 1) eager body]
      -- a body that reads something can be entered where its rounds begin
      if body.canBeEmpty then offer eager rounds else [[again (site + 1) eager body]]
    | repeated .plus eager body => [[read (site + 2) body, again (site + 1) eager body]]
  | again site eager body => offer eager [read (site + 1) body, again site eager body]

theorem length_erase_lt {site : Nat} {fresh : List Nat} (h : site ∈ fresh) :
    (fresh.erase site).length < fresh.length := by
  have := List.length_pos_of_mem h
  rw [List.length_erase_of_mem h]
  omega

-- What some readings come to without reading a character: classes to read from, each with the reading after
-- it, down to the first reading that has nothing left to do.
structure Outlook where
  reads : List (CharClass × Reading)
  stops : Bool

-- Follows readings, the preferred one first, to what they
-- read next; `fresh` are the sites where none has been.
def outlook (place : Place) (fresh : List Nat) : List Reading → Outlook
  | [] => ⟨[], false⟩
  | [] :: _ => ⟨[], true⟩
  | (task :: rest) :: others =>
    if _h : task.site ∈ fresh then
      match task.cls? with
      | some cls =>
        let outlook := outlook place (fresh.erase task.site) others
        ⟨(cls, rest) :: outlook.reads, outlook.stops⟩
      | none => outlook place (fresh.erase task.site) ((task.ways place).map (· ++ rest) ++ others)
    else outlook place fresh others
termination_by readings => (fresh.length, readings.length)
decreasing_by
  · exact Prod.Lex.left _ _ (length_erase_lt _h)
  · exact Prod.Lex.left _ _ (length_erase_lt _h)
  · exact Prod.Lex.right _ (Nat.lt_succ_self _)

-- How many characters the preferred match of some readings takes. A reading that has nothing left to do
-- counts only once everything preferred to it has failed.
def preferred (sites : List Nat) (before : Option Char) (readings : List Reading) :
    List Char → Option Nat
  | [] => if (outlook ⟨before, none⟩ sites readings).stops then some 0 else none
  | c :: rest =>
    let outlook := outlook ⟨before, some c⟩ sites readings
    let next := outlook.reads.filterMap fun (cls, reading) =>
      if cls.contains c then some reading else none
    let more := if next.isEmpty then none else preferred sites (some c) next rest
    match more with
    | some count => some (count + 1)
    | none => if outlook.stops then some 0 else none

def matchLength? (pattern : Pattern) (text : List Char) : Option Nat :=
  preferred (List.range pattern.sites) none [[.read 0 pattern]] text

end Handheld.Pattern
