import Std.Data.ExtTreeSet

namespace Handheld

-- The terminal that stands for the end of the input.
def endMarker : String := "__eof__"

-- A grammar symbol: a token kind or the name of a rule.
inductive Symbol where
  | terminal (name : String)
  | nonterminal (name : String)
  deriving DecidableEq, Repr

namespace Symbol

def name : Symbol → String
  | terminal name => name
  | nonterminal name => name

def isTerminal : Symbol → Bool
  | terminal _ => true
  | nonterminal _ => false

def isEndMarker (symbol : Symbol) : Bool := symbol = terminal endMarker

def nonterminal? : Symbol → Option String
  | terminal _ => none
  | nonterminal name => some name

def text : Symbol → String
  | terminal name => s!"'{name}'"
  | nonterminal name => name

def rank : Symbol → Nat
  | terminal _ => 0
  | nonterminal _ => 1

-- Terminals come before nonterminals; within a kind the names decide, by code point.
instance : Ord Symbol := ⟨compareLex (compareOn rank) (compareOn name)⟩

instance : Std.TransOrd Symbol :=
  inferInstanceAs (Std.TransCmp (compareLex (compareOn rank) (compareOn name)))

instance : Std.LawfulEqOrd Symbol where
  eq_of_compare {a b} h := by
    have h : compareLex (compareOn rank) (compareOn name) a b = .eq := h
    rw [compareLex_eq_eq] at h
    obtain ⟨hrank, hname⟩ := h
    have hrank := Std.LawfulEqOrd.eq_of_compare hrank
    have hname := Std.LawfulEqOrd.eq_of_compare hname
    cases a <;> cases b <;> simp_all [rank, name]

end Symbol

def sequenceText (symbols : List Symbol) : String := " ".intercalate (symbols.map Symbol.text)

end Handheld
