import Handheld.Pattern.Alternatives

namespace Handheld.Pattern

-- A pattern is read in three passes: escapes, then classes, then groups and repetitions.

-- A character of a pattern's text, with its escape resolved.
inductive Sign where
  | plain (c : Char)
  | escaped (c : Char)
  | chars (cls : CharClass)
  | wordStart
  | wordEnd
  deriving DecidableEq, Repr

-- An escaped letter or digit stands for something else or for nothing, an escaped sign for itself.
def escape? (c : Char) : Option Sign :=
  match c with
  | 'd' => some (.chars (.named .digit))
  | 'D' => some (.chars (.compl (.named .digit)))
  | 'w' => some (.chars (.named .word))
  | 'W' => some (.chars (.compl (.named .word)))
  | 's' => some (.chars (.named .blank))
  | 'S' => some (.chars (.compl (.named .blank)))
  | 'n' => some (.escaped '\n')
  | 't' => some (.escaped '\t')
  | 'r' => some (.escaped '\r')
  | 'f' => some (.escaped '\x0c')
  | 'v' => some (.escaped '\x0b')
  | 'a' => some (.escaped '\x07')
  | '<' => some .wordStart
  | '>' => some .wordEnd
  | c => if c.toNat < 128 && !c.isAlphanum then some (.escaped c) else none

def signs? : List Char → Option (List Sign)
  | [] => some []
  | ['\\'] => none
  | '\\' :: c :: rest => do return (← escape? c) :: (← signs? rest)
  | c :: rest => (signs? rest).map (.plain c :: ·)

-- How deep something is nested that joins parts: a single part adds nothing.
def joinedDepth : List Nat → Nat
  | [] => 0
  | [depth] => depth
  | depths => depths.foldl max 0 + 1

inductive Piece where
  | one (cls : CharClass) (depth : Nat)
  | edge (pattern : Pattern)
  | opening (apart : Bool)
  | closing
  | bar
  | repetition (times : Repetition) (eager : Bool)
  deriving DecidableEq, Repr

-- How far a class has been read: just opened, past its negation, or past its leading hyphens.
inductive Stage where
  | opened
  | leading
  | body
  deriving DecidableEq, Repr

-- The signs that stand, doubled, between the operands of a class.
def operator? : Char → Option (CharClass → CharClass → CharClass)
  | '&' => some .inter
  | '-' => some .diff
  | '~' => some .symmDiff
  | _ => none

-- A class being read: what stands before its last operator,
-- and the items after it, latest first, each with its depth.
structure Draft where
  stage : Stage
  negated : Bool
  left : Option ((CharClass → CharClass) × Nat)
  items : List (CharClass × Nat)

namespace Draft

def opened : Draft := ⟨.opened, false, none, []⟩

def negate (draft : Draft) : Draft := { draft with stage := .leading, negated := true }

def add (draft : Draft) (stage : Stage) (item : CharClass) (depth : Nat) : Draft :=
  { draft with stage, items := (item, depth) :: draft.items }

def value (draft : Draft) : CharClass × Nat :=
  let items := CharClass.ofItems (draft.items.reverse.map Prod.fst)
  let depth := joinedDepth (draft.items.map Prod.snd)
  match draft.left with
  | none => (items, depth)
  | some (operate, leftDepth) => (operate items, max leftDepth depth + 1)

def operate (draft : Draft) (operator : CharClass → CharClass → CharClass) : Draft :=
  let (cls, depth) := draft.value
  { draft with stage := .body, left := some (operator cls, depth), items := [] }

def close (draft : Draft) : CharClass × Nat :=
  let (cls, depth) := draft.value
  (if draft.negated then .compl cls else cls, depth + 1)

end Draft

def Sign.item? : Sign → Option CharClass
  | plain c => some (.char c)
  | escaped c => some (.char c)
  | chars cls => some cls
  | _ => none

def Sign.char? : Sign → Option Char
  | plain c => some c
  | escaped c => some c
  | _ => none

def Sign.plain? : Sign → Option Char
  | plain c => some c
  | _ => none

-- A range joins two characters in ascending order.
def range? (low high : Sign) : Option CharClass := do
  let low ← low.char?
  let high ← high.char?
  if low ≤ high then some (.range low high) else none

def repetition? : Sign → Option Repetition
  | .plain '?' => some .optional
  | .plain '*' => some .star
  | .plain '+' => some .plus
  | _ => none

def Sign.outside? : Sign → Option Piece
  | plain ')' => some .closing
  | plain '|' => some .bar
  | plain '.' => some (.one .notLineBreak 0)
  -- anchors and counted repetitions are not part of these patterns
  | plain '^' => none
  | plain '$' => none
  | plain '\x7b' => none
  | plain c => some (.one (.char c) 0)
  | escaped c => some (.one (.char c) 0)
  | chars cls => some (.one cls 0)
  | wordStart => some (.edge .wordStart)
  | wordEnd => some (.edge .wordEnd)

-- Reads the classes of a pattern; `drafts` are the classes being read, the innermost first. A hyphen is a
-- character where it comes first or last, and so is a closing bracket that would leave its class empty.
def pieces? (drafts : List Draft) : List Sign → Option (List Piece)
  | [] => if drafts.isEmpty then some [] else none
  | sign :: rest =>
    match drafts with
    | [] =>
      if sign = .plain '[' then pieces? [.opened] rest
      else if sign = .plain '(' then match rest with
        -- a group that says it is only a group
        | .plain '?' :: .plain ':' :: after => (pieces? [] after).map (.opening false :: ·)
        | rest => (pieces? [] rest).map (.opening true :: ·)
      else match repetition? sign, rest with
        | some times, .plain '?' :: after => (pieces? [] after).map (.repetition times false :: ·)
        | some times, rest => (pieces? [] rest).map (.repetition times true :: ·)
        | none, rest => do return (← sign.outside?) :: (← pieces? [] rest)
    | draft :: outer =>
      if draft.stage = .opened ∧ sign = .plain '^' then pieces? (draft.negate :: outer) rest
      else if draft.stage ≠ .body ∧ sign = .plain '-' then
        pieces? (draft.add .leading (.char '-') 0 :: outer) rest
      else if sign = .plain ']' then
        if draft.stage ≠ .body ∧ draft.items.isEmpty then
          pieces? (draft.add .body (.char ']') 0 :: outer) rest
        else
          let (cls, depth) := draft.close
          match outer with
          | [] => (pieces? [] rest).map (.one cls depth :: ·)
          | parent :: outer => pieces? (parent.add .body cls depth :: outer) rest
      else if sign = .plain '[' then pieces? (.opened :: draft :: outer) rest
      else match rest with
        | next :: high :: after =>
          match if sign = next then sign.plain?.bind operator? else none with
          | some operator => pieces? (draft.operate operator :: outer) (high :: after)
          | none =>
            if next = .plain '-' ∧ high ≠ .plain ']' ∧ high ≠ .plain '-' then do
              pieces? (draft.add .body (← range? sign high) 0 :: outer) after
            else do pieces? (draft.add .body (← sign.item?) 0 :: outer) (next :: high :: after)
        -- too short for the class to be closed and the pattern to go on
        | rest => do pieces? (draft.add .body (← sign.item?) 0 :: outer) rest

structure Part where
  pattern : Pattern
  depth : Nat

namespace Part

-- Some parts, one after another.
def row (parts : List Part) : Part :=
  ⟨ofParts (parts.flatMap (·.pattern.parts)), joinedDepth (parts.map depth)⟩

def repeated (times : Repetition) (eager : Bool) (part : Part) : Part :=
  ⟨.repeated times eager part.pattern, part.depth + 1⟩

end Part

-- A group being read: its finished branches and the parts of the present one, latest first.
structure Group where
  apart : Bool
  branches : List Part
  parts : List Part

namespace Group

def opened (apart : Bool) : Group := ⟨apart, [], []⟩

-- Around everything there is a group that begins with the start of the text.
def outermost : Group := ⟨false, [], [⟨.nothing, 0⟩]⟩

def push (group : Group) (part : Part) : Group := { group with parts := part :: group.parts }

def nextBranch (group : Group) : Group :=
  { group with branches := .row group.parts.reverse :: group.branches, parts := [] }

def allBranches (group : Group) : List Part := group.nextBranch.branches.reverse

def close (group : Group) : Part :=
  let branches := group.allBranches
  let pattern := alternatives (branches.map Part.pattern)
  ⟨if group.apart then .group pattern else pattern, joinedDepth (branches.map Part.depth) + 1⟩

-- A repetition applies to the part before it.
def repeat? (group : Group) (times : Repetition) (eager : Bool) : Option Group :=
  match group.parts with
  | [] => none
  | part :: parts => some { group with parts := part.repeated times eager :: parts }

end Group

-- Puts the pieces of a pattern together; `outer` holds the open groups around the present one.
def assemble? (group : Group) (outer : List Group) : List Piece → Option Group
  | [] => if outer.isEmpty then some group else none
  | .one cls depth :: rest => assemble? (group.push ⟨one cls, depth⟩) outer rest
  | .edge pattern :: rest => assemble? (group.push ⟨pattern, 0⟩) outer rest
  | .opening apart :: rest => assemble? (.opened apart) (group :: outer) rest
  | .closing :: rest => match outer with
    | [] => none
    | parent :: outer => assemble? (parent.push group.close) outer rest
  | .bar :: rest => assemble? group.nextBranch outer rest
  | .repetition times eager :: rest => do assemble? (← group.repeat? times eager) outer rest

-- A pattern anywhere in the text ahead, as near as possible.
def anywhere (pattern : Pattern) : Pattern := seq (repeated .star false (one .all)) pattern

def deepest : Nat := 250

-- Reads a pattern, which stands in a group at the start of the text. There is none for unbalanced brackets,
-- a repetition of nothing, a range in descending order, an escape that has no meaning or groups that are
-- nested too deep. A pattern may close its group and open another one; branches after the group do not
-- stand at the start of the text.
def read? (text : String) : Option Pattern := do
  let pieces ← pieces? [] (← signs? text.toList)
  let whole ← assemble? (.opened false) [.outermost] (pieces ++ [.closing])
  let branches := whole.allBranches
  if deepest < joinedDepth (branches.map Part.depth) then none
  else match branches.map Part.pattern with
    | [] => none
    | [pattern] => some pattern
    | first :: others => some (either first (anywhere (choice others)))

end Handheld.Pattern
