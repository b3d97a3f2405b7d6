import Handheld.Proofs.Script.Acceptance
import Handheld.Proofs.ShiftReduce.EarliestError

namespace Handheld

namespace Script

-- What stands before the end marker in a script.
def body : List Symbol :=
  [token "state-name", lineBreak, rule "top-level-stmts", lineBreak]

theorem grammar_terminated : grammar.Terminated start body :=
  Grammar.terminated_of_rules rfl (by decide) (by decide +kernel)

-- The rules of the grammar, those that mention others before the mentioned ones, as far as each needs
-- one alternative.
def ruleOrder : List String :=
  [start, "top-level-stmts", "top-level-stmt", "state-def", "instate-stmts", "instate-stmt",
    "btn-handler", "inhandler-stmts", "inhandler-stmt", "selection-stmt", "if-not-stmt", "if-stmt",
    "inif-stmts", "inif-stmt", "screen-update-stmt", "variable-update-stmt", "expression", "goto-stmt",
    "shape-def"]

theorem grammar_allProductive : grammar.AllProductive start :=
  have hsettled : grammar.settledBy ruleOrder := by decide +kernel
  Grammar.allProductive_of_settledBy hsettled (by decide) (by decide +kernel)

-- The tables of the game are built here and nowhere else, as that takes the kernel its time.
theorem exists_tables : ∃ built, tables = .ok built :=
  exists_of_isOk (by decide +kernel)

end Script

-- A parser reports the earliest token it can, for every grammar like the one of the game language.
theorem parse_answersEarliest :
    (∀ (grammar : Grammar) (start : String) (tables : Tables) (body : List Symbol),
      Tables.build grammar start = .ok tables → grammar.Terminated start body →
        grammar.AllProductive start → ∀ tokens : List (Token String),
          (∀ token ∈ tokens.dropLast, token.kind ≠ endMarker) →
            tables.AnswersEarliest grammar body tokens) ∧
      ∃ tables, Tables.build Script.grammar Script.start = .ok tables ∧
        Script.grammar.Terminated Script.start Script.body ∧
          Script.grammar.AllProductive Script.start := by
  constructor
  · intro grammar start tables body hbuild hterm hproductive tokens hmarker
    exact (Tables.built_of_build hbuild).answersEarliest hterm hproductive hmarker
  · obtain ⟨tables, htables⟩ := Script.exists_tables
    exact ⟨tables, htables, Script.grammar_terminated, Script.grammar_allProductive⟩

namespace Script

-- A script begins with the name of a state on a line of its own.
theorem name_break_isPrefix {sentence : List String}
    (h : grammar.Derives body (Grammar.terminals sentence)) : ["state-name", "newline"] <+: sentence := by
  have hbody : body =
      Grammar.terminals ["state-name", "newline"] ++ [rule "top-level-stmts", lineBreak] := rfl
  rw [hbody] at h
  exact h.isPrefix

def firstName : Token String := ⟨"state-name", "~a", ⟨1, 1⟩⟩

-- It stands beside the first, where a line break is due.
def secondName : Token String := ⟨"state-name", "~b", ⟨1, 4⟩⟩

def clearingState : List (Token String) :=
  [⟨"state-name", "~a", ⟨2, 1⟩⟩] ++
    ([⟨"left-brace", "\x7b", ⟨2, 3⟩⟩, ⟨"newline", "\n", ⟨2, 4⟩⟩] ++
      [⟨"clear-screen", "clear", ⟨3, 1⟩⟩] ++
      [⟨"newline", "\n", ⟨3, 6⟩⟩, ⟨"right-brace", "\x7d", ⟨4, 1⟩⟩])

-- ~a
-- ~a{
-- clear
-- }
def clearing : List (Token String) :=
  [firstName, ⟨"newline", "\n", ⟨1, 3⟩⟩] ++ clearingState ++ [⟨"newline", "\n", ⟨4, 2⟩⟩]

def clearingEnd : Token String := ⟨endMarker, "", ⟨5, 1⟩⟩

theorem clearing_makes : Makes body clearing := by
  have hstate : WritesDefinition clearingState (.state "~a" [.statement .clear]) :=
    .state rfl (.mk rfl (.only (.statement (.clear rfl))) rfl)
  have hscript : WritesScript clearing "~a" [.state "~a" [.statement .clear]] :=
    .mk rfl (.only hstate) rfl
  exact hscript.makes

theorem viable_clearing (count : Nat) :
    grammar.Viable body (kinds ((clearing ++ [clearingEnd]).take count)) := by
  refine ⟨_, clearing_makes, ?_⟩
  rw [kinds, List.map_take]
  exact List.take_prefix ..

theorem not_viable_names : ¬ grammar.Viable body (kinds [firstName, secondName]) := by
  rintro ⟨sentence, hsentence, hprefix⟩
  have hbreak := (name_break_isPrefix hsentence).trans (List.prefix_append sentence [endMarker])
  have heq := List.prefix_of_prefix_length_le hprefix hbreak (by simp [kinds])
  simp [kinds, firstName, secondName] at heq

end Script

-- The second of two names is out of place, a script that is its first name ends too early, and one that
-- clears the screen is accepted.
theorem parse_answersEarliest_script : ∃ tables, Script.tables = .ok tables ∧
    (∀ token ∈ [Script.firstName, Script.secondName].dropLast, token.kind ≠ endMarker) ∧
    tables.parse ([Script.firstName, Script.secondName].map .ok) =
      .error (.unexpected "state-name" ⟨1, 4⟩) ∧
    (∀ token ∈ [Script.firstName].dropLast, token.kind ≠ endMarker) ∧
    tables.parse ([Script.firstName].map .ok) = .error (.unexpectedEnd ⟨1, 1⟩) ∧
    (∀ token ∈ (Script.clearing ++ [Script.clearingEnd]).dropLast, token.kind ≠ endMarker) ∧
    ∃ tree, tables.parse ((Script.clearing ++ [Script.clearingEnd]).map .ok) = .ok tree := by
  obtain ⟨hearliest, tables, hbuild, hterm, hproductive⟩ := parse_answersEarliest
  have hfirst : Script.grammar.Viable Script.body (kinds [Script.firstName]) := Script.viable_clearing 1
  have hnames : ∀ token ∈ [Script.firstName, Script.secondName].dropLast, token.kind ≠ endMarker := by
    decide
  have hname : ∀ token ∈ [Script.firstName].dropLast, token.kind ≠ endMarker := by decide
  have hclearing : ∀ token ∈ (Script.clearing ++ [Script.clearingEnd]).dropLast, token.kind ≠ endMarker := by
    decide
  have hearliest := hearliest _ _ tables _ hbuild hterm hproductive
  refine ⟨tables, hbuild, hnames, ?_, hname, ?_, hclearing, ?_⟩
  · refine (hearliest _ hnames).unexpected 1 (by decide) (fun before hbefore => ?_) Script.not_viable_names
    obtain rfl : before = 0 := Nat.lt_one_iff.mp hbefore
    exact hfirst
  · refine (hearliest _ hname).unexpectedEnd (fun place hplace => ?_) (by decide)
    obtain rfl : place = 0 := Nat.lt_one_iff.mp hplace
    exact hfirst
  · exact (hearliest _ hclearing).accepted (fun place _ => Script.viable_clearing (place + 1))
      ⟨Script.clearingEnd, by simp, rfl⟩

end Handheld
