import Mathlib
import Handheld.Proofs.Lexer.Doubling
import Handheld.Proofs.Script.Acceptance
import Handheld.Proofs.Script.Alike
import Handheld.Proofs.Script.Cleaning
import Handheld.Proofs.Script.Compiler
import Handheld.Proofs.Script.Reading

namespace Handheld

namespace Script

-- Only line breaks and shapes have line breaks in them.
theorem kind_of_rule : ∀ rule ∈ rules, (∃ cls ∈ rule.2.classes, cls.contains '\n') →
    rule.1 = "newline" ∨ rule.1 = "shape" := by
  decide +kernel

theorem elastic_lexer : lexer.Elastic '\n' := by
  have hrules : ∀ rule ∈ rules, (∀ cls ∈ rule.2.classes, ¬ cls.contains '\n') ∨
      rule.2 = .seq (.one (.ofChars ['.', '#', '+'])) (.many (.one (.ofChars ['.', '#', '+', '\n']))) ∨
        rule.2 = .many (.text "\n") := by
    decide +kernel
  refine ⟨fun rule hrule => ?_, by decide +kernel⟩
  rcases hrules rule hrule with hnone | hshape | hnewline
  · exact Pattern.elastic_of_classes hnone
  · rw [hshape]
    exact Pattern.elastic_seq_many (by decide) (by decide)
  · rw [hnewline]
    exact Pattern.elastic_many (by decide)

-- The break that ends some line stands between two rows of a shape.
def BetweenRows (tokens : List (Token String)) (line : Nat) : Prop :=
  ∃ token ∈ tokens, token.kind = "shape" ∧ ∃ above below, token.lexeme.toList = above ++ '\n' :: below ∧
    token.position.line + above.count '\n' = line ∧ ∃ pixel ∈ below, pixel ≠ '\n'

variable {token token' last : Token String} {tokens : List (Token String)} {line : Nat}
  {before after : List Char} {source : String}

theorem alike_of_doubled (hread : lexer.ReadBy token) (hmem : token ∈ tokens)
    (hrows : after = [] ∨ ¬ BetweenRows tokens line) (h : Lexer.Doubled '\n' line after token token') :
    AlikeTokens token token' := by
  cases h with
  | same => exact .same rfl rfl
  | @twice kind above below position _ hline hbelow =>
      obtain ⟨pattern, hrule, hspells⟩ := hread
      have hbreak : ∃ cls ∈ pattern.classes, cls.contains '\n' :=
        Pattern.contains_of_spells hspells '\n' (by simp)
      rcases kind_of_rule _ hrule hbreak with hkind | hkind
      · exact .newline hkind hkind
      · refine .shape hkind hkind (Shape.read_double_break above fun c hc => ?_)
        rcases hrows with rfl | hrows
        · rw [List.prefix_nil.mp hbelow] at hc
          simp at hc
        · by_contra hpixel
          exact hrows ⟨_, hmem, hkind, above, below, by simp, hline, c, hc, hpixel⟩

-- A line break more stands in one of the tokens.
theorem exists_run_of_double_break
    (h : lexer.run (.ofList (before ++ '\n' :: after)) = (tokens ++ [last]).map .ok)
    (hrows : after = [] ∨ ¬ BetweenRows tokens (before.count '\n' + 1)) :
    ∃ tokens' last', lexer.run (.ofList (before ++ '\n' :: '\n' :: after)) = (tokens' ++ [last']).map .ok ∧
      List.Forall₂ AlikeTokens tokens tokens' := by
  obtain ⟨hread, _⟩ := readBy_of_run h
  simp only [Lexer.run, Lexer.State.start, String.toList_ofList] at h ⊢
  obtain ⟨all, hrun, hdoubled⟩ := Lexer.pullAll_double elastic_lexer after h Text.Position.start
  obtain ⟨tokens', lasts, rfl, htokens, hlast⟩ := exists_append_of_forall₂ hdoubled
  obtain _ | ⟨_, ⟨⟩⟩ := hlast
  refine ⟨tokens', _, hrun, ?_⟩
  have hline : Text.Position.start.line + before.count '\n' = before.count '\n' + 1 := Nat.add_comm 1 _
  rw [hline] at htokens
  have hboth := (List.forall₂_and_left _ _).mpr
    ⟨fun token hmem => And.intro (hread token hmem) hmem, htokens⟩
  exact hboth.imp fun _ _ h => alike_of_doubled h.1.1 h.1.2 hrows h.2

end Script

namespace Compiler

open Tables

variable {settings : Settings} {compiler : Compiler} {source : String}
  {result : Program × List Script.Redefinition}

-- A script is compiled by way of its tokens and their derivation tree.
theorem program_eq_ok_iff (h : ofSettings settings = .ok compiler) :
    compiler.program source = .ok result ↔
      ∃ tokens last tree, Script.lexer.run (Script.clean source) = (tokens ++ [last]).map .ok ∧
        IsDerivation Script.grammar Script.start Script.body tokens tree ∧
          Program.ofTree tree = .ok result := by
  unfold program
  constructor
  · intro hprogram
    obtain ⟨tree, htree, hfound⟩ := bind_eq_ok_iff.mp hprogram
    have hlexes := Script.lexes_tokens (Script.clean source)
    generalize Script.lexer.tokens (Script.clean source) = lexed at hlexes
    cases lexed with
    | error error =>
        have hparsed := mapError_eq_ok_iff.mp htree
        rcases parse_of_lexes_error (tables_of_ofSettings h) hlexes with herror | ⟨token, _, herror⟩ <;>
          simp [herror] at hparsed
    | ok all =>
        cases hlexes with
        | @ok tokens last hrun =>
            exact ⟨tokens, last, tree, hrun, (parseTree_eq_ok_iff h hrun).mp htree,
              mapError_eq_ok_iff.mp hfound⟩
  · rintro ⟨tokens, last, tree, hrun, hderivation, hfound⟩
    exact bind_eq_ok_iff.mpr ⟨tree, (parseTree_eq_ok_iff h hrun).mpr hderivation,
      mapError_eq_ok_iff.mpr hfound⟩

-- Blank lines and lines of comments after the first line of a script make no difference, unless they stand
-- between the rows of a shape.
theorem program_insertLine (h : ofSettings settings = .ok compiler)
    (hprogram : compiler.program source = .ok result) {count : Nat} (hpositive : 1 ≤ count)
    (hle : count ≤ (source.toList.splitOn '\n').length) {line : String}
    (hline : Script.SaysNothing line.toList)
    (hrows : ∀ tokens, Compiler.tokens source = .ok tokens → ¬ Script.BetweenRows tokens count) :
    compiler.program (Script.insertLine source count line) = .ok result := by
  obtain ⟨tokens, last, tree, hrun, hderivation, hfound⟩ := (program_eq_ok_iff h).mp hprogram
  rcases Script.cleanChars_insertLine hpositive hle hline with
    heq | ⟨before, after, hsource, hinserted, hend⟩
  · refine (program_eq_ok_iff h).mpr ⟨tokens, last, tree, ?_, hderivation, hfound⟩
    rw [← hrun, Script.clean, Script.clean, heq]
  · have htokens : Compiler.tokens source = .ok (tokens ++ [last]) := by
      rw [Compiler.tokens, Lexer.tokens, hrun, mapM_id_map_ok]
      rfl
    have hbetween : after = [] ∨ ¬ Script.BetweenRows tokens (before.count '\n' + 1) := by
      refine hend.imp_right ?_
      rintro rfl ⟨token, hmem, hshape⟩
      exact hrows _ htokens ⟨token, by simp [hmem], hshape⟩
    rw [Script.clean, hsource] at hrun
    obtain ⟨tokens', last', hrun', halike⟩ := Script.exists_run_of_double_break hrun hbetween
    obtain ⟨tree', hderivation', htree⟩ :=
      hderivation.exists_alike (fun _ _ => Script.AlikeTokens.kind_eq) halike
    refine (program_eq_ok_iff h).mpr ⟨tokens', last', tree', ?_, hderivation', ?_⟩
    · rw [Script.clean, hinserted, hrun']
    · exact Program.ofTree_alike htree hfound

-- A script with a shape of two rows.
def rows : String := "~a\n#s\x7b\n##\n.#\n\x7d\n~a\x7b\nclear\n\x7d\n"

def rowsShape : List (Token String) :=
  [⟨"shape-name", "#s", ⟨2, 1⟩⟩, ⟨"left-brace", "\x7b", ⟨2, 3⟩⟩, ⟨"newline", "\n", ⟨2, 4⟩⟩,
    ⟨"shape", "##\n.#\n", ⟨3, 1⟩⟩, ⟨"right-brace", "\x7d", ⟨5, 1⟩⟩]

def rowsState : List (Token String) :=
  [⟨"state-name", "~a", ⟨6, 1⟩⟩] ++
    ([⟨"left-brace", "\x7b", ⟨6, 3⟩⟩, ⟨"newline", "\n", ⟨6, 4⟩⟩] ++
      [⟨"clear-screen", "clear", ⟨7, 1⟩⟩] ++
      [⟨"newline", "\n", ⟨7, 6⟩⟩, ⟨"right-brace", "\x7d", ⟨8, 1⟩⟩])

def rowsTokens : List (Token String) :=
  [⟨"state-name", "~a", ⟨1, 1⟩⟩, ⟨"newline", "\n", ⟨1, 3⟩⟩] ++
    (rowsShape ++ ⟨"newline", "\n", ⟨5, 2⟩⟩ :: rowsState) ++ [⟨"newline", "\n", ⟨8, 2⟩⟩]

def rowsEnd : Token String := ⟨endMarker, "", ⟨9, 1⟩⟩

set_option maxRecDepth 20000 in
theorem run_rows : Script.lexer.run (Script.clean rows) = (rowsTokens ++ [rowsEnd]).map .ok := by
  rw [Lexer.run_eq_pullUpTo]
  cbv

theorem rows_writes : ∃ shape, Script.WritesScript rowsTokens "~a"
    [.shape "#s" shape, .state "~a" [.statement .clear]] := by
  obtain ⟨shape, hshape⟩ : ∃ shape, Shape.read "##\n.#\n" = .ok shape := exists_of_isOk (by decide)
  have hstate : Script.WritesDefinition rowsState (.state "~a" [.statement .clear]) :=
    .state rfl (.mk rfl (.only (.statement (.clear rfl))) rfl)
  have hdefinition : Script.WritesDefinition rowsShape (.shape "#s" shape) := .shape rfl hshape
  exact ⟨shape, .mk rfl (.more hdefinition rfl (.only hstate)) rfl⟩

-- The break of the fourth line stands after the last row.
theorem rows_not_between {tokens : List (Token String)} (h : Compiler.tokens rows = .ok tokens) :
    ¬ Script.BetweenRows tokens 4 := by
  rw [Compiler.tokens, Lexer.tokens, run_rows, mapM_id_map_ok] at h
  obtain rfl := Except.ok.inj h
  have honly : ∀ token ∈ rowsTokens ++ [rowsEnd], token.kind = "shape" →
      token = ⟨"shape", "##\n.#\n", ⟨3, 1⟩⟩ := by decide
  rintro ⟨token, hmem, hkind, above, below, htext, hline, pixel, hpixel, hne⟩
  obtain rfl := honly token hmem hkind
  rcases List.eq_nil_or_concat' below with rfl | ⟨below, c, rfl⟩
  · simp at hpixel
  · have hends : ['#', '#', '\n', '.', '#'] ++ ['\n'] = (above ++ '\n' :: below) ++ [c] := by
      simpa using htext
    obtain ⟨hrows, _⟩ := List.append_inj' hends rfl
    have hcount := congrArg (List.count '\n') hrows
    have hbreaks : ['#', '#', '\n', '.', '#'].count '\n' = 1 := rfl
    simp only [hbreaks, List.count_append, List.count_cons_self] at hcount
    change 3 + above.count '\n' = 4 at hline
    omega

theorem program_insertLine_rows : ∃ compiler, ofSettings .default = .ok compiler ∧
    ∃ result, compiler.program rows = .ok result ∧
      compiler.program (Script.insertLine rows 4 "  // two rows") = .ok result ∧
        Script.insertLine rows 4 "  // two rows" =
          "~a\n#s\x7b\n##\n.#\n  // two rows\n\x7d\n~a\x7b\nclear\n\x7d\n" := by
  have hdefault : Settings.default.fault? = none := rfl
  obtain ⟨compiler, hcompiler⟩ := exists_ofSettings hdefault
  obtain ⟨shape, hwrites⟩ := rows_writes
  obtain ⟨result, hresult⟩ := (exists_program_iff hcompiler run_rows).mpr ⟨hwrites.makes, hwrites.readable⟩
  have hline : Script.SaysNothing "  // two rows".toList :=
    ⟨"  ".toList, "// two rows".toList, rfl, by simp [Script.isBlank], .inr (by decide), by decide⟩
  have hsame := program_insertLine hcompiler hresult (by decide) (by decide +kernel) hline
    (fun tokens htokens => rows_not_between htokens)
  exact ⟨compiler, hcompiler, result, hresult, hsame, by decide⟩

end Compiler

end Handheld
