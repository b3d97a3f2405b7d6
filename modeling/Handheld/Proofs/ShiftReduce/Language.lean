import Handheld.Proofs.Grammar.Sentence
import Handheld.Proofs.ShiftReduce.Completeness
import Handheld.Proofs.ShiftReduce.Settling

namespace Handheld

namespace Tables

variable {grammar : Grammar} {start : String} {tables : Tables} {body : List Symbol}
  {tokens : List (Token String)} {last : Token String}

-- The tokens before the first end marker are determined.
theorem append_cons_inj {others : List (Token String)} {token : Token String}
    {rest : List (Except LexicalError (Token String))}
    (h : tokens.map Except.ok ++ [.ok last] = others.map .ok ++ .ok token :: rest)
    (hmarker : ∀ other ∈ tokens, other.kind ≠ endMarker) (htoken : token.kind = endMarker) :
    others = tokens ∧ token = last := by
  induction tokens generalizing others with
  | nil =>
      cases others with
      | nil =>
          obtain ⟨rfl, _⟩ := by simpa using h
          exact ⟨rfl, rfl⟩
      | cons other others => simp at h
  | cons first tokens ih =>
      cases others with
      | nil =>
          obtain ⟨rfl, _⟩ := by simpa using h
          exact absurd htoken (hmarker first (by simp))
      | cons other others =>
          obtain ⟨rfl, hrest⟩ := by simpa using h
          obtain ⟨rfl, rfl⟩ := ih (by simpa using hrest) fun other hother =>
            hmarker other (by simp [hother])
          exact ⟨rfl, rfl⟩

-- The parser returns the derivation trees of its input and nothing else.
theorem Built.parse_eq_ok_iff (hbuilt : Built grammar start tables)
    (hterm : grammar.Terminated start body) (hmarker : ∀ token ∈ tokens, token.kind ≠ endMarker)
    (hlast : last.kind = endMarker) {tree : ParseTree} :
    tables.parse ((tokens ++ [last]).map .ok) = .ok tree ↔
      IsDerivation grammar start body tokens tree := by
  rw [List.map_append, List.map_singleton]
  constructor
  · intro h
    obtain ⟨⟨stack, position, input⟩, hreaches, hdone⟩ := exists_reaches_of_parse h
    obtain ⟨token, rest, rfl, haction, rfl⟩ := step_eq_ok_iff.mp hdone
    obtain ⟨more, hinput, _, hread⟩ := HasRead.nil.of_reaches hbuilt hreaches
    obtain ⟨hkind, _⟩ := hbuilt.action?_eq_accept_iff.mp haction
    obtain ⟨rfl, rfl⟩ := append_cons_inj hinput hmarker hkind
    rw [hbuilt.start_eq]
    exact ⟨treesOf stack, rfl, by simpa using hread.forest_of_accept hbuilt hterm haction⟩
  · rintro ⟨trees, rfl, hforest⟩
    obtain ⟨stack, position, hreaches, hdone⟩ :=
      hbuilt.accepts_of_forest hterm hforest hmarker hlast []
    exact hbuilt.parse_eq_of_reaches hreaches hdone

-- The parser accepts the language of the grammar, and no sentence of it is ambiguous.
theorem parse_ok_iff_derives (hbuild : build grammar start = .ok tables)
    (hterm : grammar.Terminated start body) (hmarker : ∀ token ∈ tokens, token.kind ≠ endMarker)
    (hlast : last.kind = endMarker) :
    ((∃ tree, tables.parse ((tokens ++ [last]).map .ok) = .ok tree) ↔
        grammar.Derives body (Grammar.terminals (kinds tokens))) ∧
      ∀ tree, tables.parse ((tokens ++ [last]).map .ok) = .ok tree →
        IsDerivation grammar start body tokens tree ∧
          ∀ other, IsDerivation grammar start body tokens other → other = tree := by
  have hiff (tree : ParseTree) : tables.parse ((tokens ++ [last]).map .ok) = .ok tree ↔
      IsDerivation grammar start body tokens tree :=
    (built_of_build hbuild).parse_eq_ok_iff hterm hmarker hlast
  constructor
  · rw [derives_iff_exists_forest]
    constructor
    · rintro ⟨tree, htree⟩
      obtain ⟨trees, _, hforest⟩ := (hiff tree).mp htree
      exact ⟨trees, hforest⟩
    · rintro ⟨trees, hforest⟩
      exact ⟨_, (hiff _).mpr ⟨trees, rfl, hforest⟩⟩
  · intro tree htree
    refine ⟨(hiff tree).mp htree, fun other hother => ?_⟩
    exact Except.ok.inj (((hiff other).mpr hother).symm.trans htree)

-- Any number of marks, read by an empty and a left-recursive alternative.
def marks : Grammar :=
  .ofRules [("start", [[.nonterminal "marks", .terminal endMarker]]),
    ("marks", [[], [.nonterminal "marks", .terminal "mark"]])]

theorem marks_terminated : marks.Terminated "start" [.nonterminal "marks"] :=
  Grammar.terminated_of_rules rfl (by decide) (by decide)

theorem exists_marks_tables : ∃ tables, build marks "start" = .ok tables :=
  exists_of_isOk (by decide +kernel)

def mark : Token String := ⟨"mark", "|", .start⟩

def theEnd : Token String := ⟨endMarker, "", .start⟩

theorem parse_ok_iff_derives_marks : ∃ tables, build marks "start" = .ok tables ∧
    marks.Terminated "start" [.nonterminal "marks"] ∧
      (∀ token ∈ [mark, mark], token.kind ≠ endMarker) ∧ theEnd.kind = endMarker ∧
        ∃ tree, tables.parse (([mark, mark] ++ [theEnd]).map .ok) = .ok tree ∧
          IsDerivation marks "start" [.nonterminal "marks"] [mark, mark] tree := by
  obtain ⟨tables, hbuild⟩ := exists_marks_tables
  have hmarker : ∀ token ∈ [mark, mark], token.kind ≠ endMarker := by decide
  have hend : theEnd.kind = endMarker := rfl
  obtain ⟨hiff, hunique⟩ := parse_ok_iff_derives hbuild marks_terminated hmarker hend
  have hempty : marks.Offers "marks" [] := ⟨_, rfl, by decide⟩
  have hmore : marks.Offers "marks" [.nonterminal "marks", .terminal "mark"] := ⟨_, rfl, by decide⟩
  have hderives : marks.Derives [.nonterminal "marks"] (Grammar.terminals (kinds [mark, mark])) :=
    (Grammar.derives_of_offers hmore).trans
      (((Grammar.derives_of_offers hmore).append_right [.terminal "mark"]).trans
        ((Grammar.derives_of_offers hempty).append_right [.terminal "mark", .terminal "mark"]))
  obtain ⟨tree, htree⟩ := hiff.mpr hderives
  exact ⟨tables, hbuild, marks_terminated, hmarker, hend, tree, htree, (hunique tree htree).1⟩

end Tables

end Handheld
