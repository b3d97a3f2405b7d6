import Mathlib
import Handheld.Proofs.Lexer.Places
import Handheld.Proofs.Script.Acceptance
import Handheld.Proofs.Script.Compiler
import Handheld.Proofs.ShiftReduce.OnDemand

namespace Handheld.Compiler

open Tables

variable {settings : Settings} {compiler : Compiler}

theorem exists_ofSettings (h : settings.fault? = none) : ∃ compiler, ofSettings settings = .ok compiler := by
  obtain ⟨tables, htables⟩ := Script.exists_tables
  refine ⟨⟨settings, tables⟩, ?_⟩
  unfold ofSettings
  rw [h, htables]
  rfl

theorem tables_of_ofSettings (h : ofSettings settings = .ok compiler) :
    Script.tables = .ok compiler.tables := by
  unfold ofSettings at h
  split at h
  · simp at h
  · obtain ⟨tables, htables, rfl⟩ := map_eq_ok_iff.mp h
    exact mapError_eq_ok_iff.mp htables

section Compiled

variable {source : String} {tokens : List (Token String)} {last : Token String}

theorem parseTree_eq_ok_iff (h : ofSettings settings = .ok compiler)
    (hrun : Script.lexer.run (Script.clean source) = (tokens ++ [last]).map .ok) {tree : ParseTree} :
    compiler.parseTree source = .ok tree ↔
      IsDerivation Script.grammar Script.start Script.body tokens tree := by
  obtain ⟨hread, hlast⟩ := Script.readBy_of_run hrun
  rw [parseTree, mapError_eq_ok_iff, hrun]
  exact (built_of_build (tables_of_ofSettings h)).parse_eq_ok_iff Script.grammar_terminated
    (Script.forall_kind_ne_endMarker hread) hlast

-- A script that the grammar accepts is read as what its tokens write, or an expression cannot be read.
theorem exists_yields (h : ofSettings settings = .ok compiler)
    (hrun : Script.lexer.run (Script.clean source) = (tokens ++ [last]).map .ok)
    (hderives : Script.grammar.Derives Script.body (Grammar.terminals (kinds tokens))) :
    ∃ result, compiler.program source = result.mapError .tree ∧
      Script.Yields tokens (fun found => ∃ initial definitions,
        Script.WritesScript tokens initial definitions ∧
          Script.IsProgramOf initial definitions found.1 ∧ found.2 = Script.redefinitions definitions)
        result := by
  obtain ⟨children, hforest⟩ := derives_iff_exists_forest.mp hderives
  have hderivation : IsDerivation Script.grammar Script.start Script.body tokens
      (.branch Script.start children) := ⟨children, rfl, hforest⟩
  refine ⟨Program.ofTree (.branch Script.start children), ?_, ?_⟩
  · rw [program, (parseTree_eq_ok_iff h hrun).mpr hderivation]
    rfl
  · exact Program.yields_ofTree hderivation fun token htoken =>
      Script.wellspelled_of_readBy ((Script.readBy_of_run hrun).1 token htoken)

-- A script is compiled when the grammar accepts it and its expressions can all be read.
theorem exists_program_iff (h : ofSettings settings = .ok compiler)
    (hrun : Script.lexer.run (Script.clean source) = (tokens ++ [last]).map .ok) :
    (∃ result, compiler.program source = .ok result) ↔
      Script.grammar.Derives Script.body (Grammar.terminals (kinds tokens)) ∧ Script.Readable tokens := by
  constructor
  · rintro ⟨found, hprogram⟩
    obtain ⟨tree, htree, _⟩ := bind_eq_ok_iff.mp hprogram
    obtain ⟨children, _, hforest⟩ := (parseTree_eq_ok_iff h hrun).mp htree
    have hderives := derives_iff_exists_forest.mpr ⟨children, hforest⟩
    obtain ⟨result, heq, hyields⟩ := exists_yields h hrun hderives
    rw [heq, mapError_eq_ok_iff] at hprogram
    subst hprogram
    cases hyields with
    | ok hfound =>
        obtain ⟨_, _, hwrites, _⟩ := hfound
        exact ⟨hderives, hwrites.readable⟩
  · rintro ⟨hderives, hreadable⟩
    obtain ⟨result, heq, hyields⟩ := exists_yields h hrun hderives
    rw [heq]
    cases hyields with
    | ok => exact ⟨_, rfl⟩
    | error herror =>
        obtain ⟨token, htoken, hkind, fault, hfault, _⟩ := herror
        obtain ⟨value, hvalue⟩ := hreadable token htoken hkind
        simp [hvalue] at hfault

end Compiled

-- The parse tree of a script as a parser finds it that pulls its tokens one by one.
def parseLive (compiler : Compiler) (source : String) (fuel : Nat) :
    Option (Except CompileError ParseTree) :=
  let live := pullAhead Script.lexer [] .start (.start (Script.clean source))
  (runLive compiler.tables Script.lexer fuel live).map (·.mapError ofParseError)

theorem exists_parseLive_eq (htables : Script.tables = .ok compiler.tables) (source : String) :
    ∃ bound, ∀ fuel ≥ bound, compiler.parseLive source fuel = some (compiler.parseTree source) := by
  have hrun := (parsed_run htables (Script.clean source)).run_eq
  refine ⟨compiler.tables.stepBound (Script.lexer.run (Script.clean source)).length, fun fuel hle => ?_⟩
  simp only [parseLive, runLive_start, run_of_le hle hrun]
  rfl

-- An error in a script is found, unless a token before it is out of place.
theorem parse_of_lexes_error {tables : Tables} (htables : Script.tables = .ok tables) {source : String}
    {error : LexicalError} (h : Script.Lexes source (.error error)) :
    tables.parse (Script.lexer.run source) = .error (.lexical error) ∨
      ∃ token : Token String, token.position < error.position ∧
        tables.parse (Script.lexer.run source) = .error (.unexpected token.kind token.position) := by
  cases h with
  | @error tokens error hrun hread =>
      have hplaces := (Script.lexer.tiling_run source).pairwise_placeOf
      have hmarker := Script.forall_kind_ne_endMarker hread
      rw [hrun] at hplaces ⊢
      refine ((built_of_build htables).parse_of_error Script.grammar_terminated
        Script.grammar_allProductive hmarker error).imp_right ?_
      rintro ⟨token, htoken, hparse⟩
      refine ⟨token, ?_, hparse⟩
      exact (List.pairwise_append.mp hplaces).2.2 (.ok token) (by simp [htoken]) (.error error) (by simp)

-- It makes no difference to a parse tree whether the tokens are pulled one by one or all read before,
-- but for an error in the text: a token that is out of place may be met before it.
theorem parseTree_agrees_tokens (h : ofSettings settings = .ok compiler) (source : String) :
    (∃ bound, ∀ fuel ≥ bound, compiler.parseLive source fuel = some (compiler.parseTree source)) ∧
      match tokens source with
      | .ok tokens => compiler.parseTree source =
          (compiler.tables.parse (tokens.map .ok)).mapError ofParseError
      | .error error => ∃ lexical, error = .lexical lexical ∧
          (compiler.parseTree source = .error (.lexical lexical) ∨
            ∃ token : Token String, token.position < lexical.position ∧
              compiler.parseTree source = .error (.parse (.unexpected token.kind token.position))) := by
  have htables := tables_of_ofSettings h
  refine ⟨exists_parseLive_eq htables source, ?_⟩
  have hlexes := Script.lexes_tokens (Script.clean source)
  simp only [tokens, parseTree]
  generalize Script.lexer.tokens (Script.clean source) = lexed at hlexes
  cases lexed with
  | ok tokens =>
      cases hlexes with
      | ok hrun => simp only [Except.mapError, hrun]
  | error lexical =>
      refine ⟨lexical, rfl, ?_⟩
      rcases parse_of_lexes_error htables hlexes with hparse | ⟨token, hplace, hparse⟩
      · exact .inl (by rw [hparse]; rfl)
      · exact .inr ⟨token, hplace, by rw [hparse]; rfl⟩

-- The star is no token, and the word before it is no beginning of a script.
theorem tokens_goto_star : tokens "goto *" = .error (.lexical ⟨"*\n", ⟨1, 6⟩⟩) := by
  rw [tokens, Lexer.tokens, Lexer.run_eq_pullUpTo]
  cbv

theorem parseTree_agrees_tokens_default : ∃ compiler, ofSettings .default = .ok compiler ∧
    (compiler.parseTree "goto *" = .error (.lexical ⟨"*\n", ⟨1, 6⟩⟩) ∨
      ∃ token : Token String, token.position < ⟨1, 6⟩ ∧
        compiler.parseTree "goto *" = .error (.parse (.unexpected token.kind token.position))) := by
  have hdefault : Settings.default.fault? = none := rfl
  obtain ⟨compiler, hcompiler⟩ := exists_ofSettings hdefault
  have hagrees := (parseTree_agrees_tokens hcompiler "goto *").2
  rw [tokens_goto_star] at hagrees
  obtain ⟨lexical, heq, herror⟩ := hagrees
  obtain rfl := CompileError.lexical.inj heq
  exact ⟨compiler, hcompiler, herror⟩

end Handheld.Compiler
