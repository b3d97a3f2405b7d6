import Handheld.Grammar.Basic

namespace Handheld

-- A production with a cursor: the symbols before the cursor have been read.
structure Item where
  production : Production
  cursor : Nat
  cursor_le : cursor ≤ production.rhs.length
  deriving DecidableEq

namespace Item

-- A cursor past the end stands at the end.
def ofCursor (production : Production) (cursor : Nat) : Item :=
  ⟨production, min cursor production.rhs.length, Nat.min_le_right ..⟩

def initial (production : Production) : Item := ⟨production, 0, Nat.zero_le _⟩

def next? (item : Item) : Option Symbol := item.production.rhs[item.cursor]?

def isFinished (item : Item) : Bool := item.cursor = item.production.rhs.length

def advanced (item : Item) : Item := ofCursor item.production (item.cursor + 1)

def text (item : Item) : String :=
  let before := item.production.rhs.take item.cursor
  let after := item.production.rhs.drop item.cursor
  let words := " ".intercalate (before.map Symbol.text ++ "•" :: after.map Symbol.text)
  s!"{item.production.lhs} := {words}"

def lhs (item : Item) : String := item.production.lhs

def rhs (item : Item) : List Symbol := item.production.rhs

-- Items are ordered by left-hand side, right-hand side and cursor.
instance : Ord Item := ⟨compareLex (compareOn lhs) (compareLex (compareOn rhs) (compareOn cursor))⟩

instance : Std.TransOrd Item :=
  inferInstanceAs
    (Std.TransCmp (compareLex (compareOn lhs) (compareLex (compareOn rhs) (compareOn cursor))))

instance : Std.LawfulEqOrd Item where
  eq_of_compare {a b} h := by
    have h : compareLex (compareOn lhs) (compareLex (compareOn rhs) (compareOn cursor)) a b = .eq :=
      h
    simp only [compareLex_eq_eq] at h
    obtain ⟨hlhs, hrhs, hcursor⟩ := h
    have hlhs := Std.LawfulEqOrd.eq_of_compare hlhs
    have hrhs := Std.LawfulEqOrd.eq_of_compare hrhs
    have hcursor := Std.LawfulEqOrd.eq_of_compare hcursor
    obtain ⟨⟨_, _⟩, _, _⟩ := a
    obtain ⟨⟨_, _⟩, _, _⟩ := b
    simp_all [lhs, rhs]

end Item

-- A state of the automaton: what may have been read so far.
abbrev ItemSet := Std.ExtTreeSet Item

namespace ItemSet

def text (items : ItemSet) : String := "\n".intercalate (items.toList.map Item.text)

end ItemSet

end Handheld
